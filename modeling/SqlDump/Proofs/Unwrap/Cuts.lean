import SqlDump.Proofs.Segment.Cuts
import SqlDump.Unwrap

/-!
# Cuts through text do not show

What the unwrapper does with a text does not depend on the pieces in which the
text arrives, so what it does with segments depends on their atoms only.
-/

namespace SqlDump

namespace Unwrapper

variable {unwrapper : Unwrapper}

theorem acceptText_of_none (text : Text) (idle : unwrapper.pending = .none) :
    unwrapper.acceptText text = (unwrapper, text) := by
  cases text with
  | nil => rfl
  | cons head tail => simp only [acceptText, idle]

theorem acceptText_of_lineBreak {text : Text} (nonempty : text ≠ [])
    (redundant : unwrapper.pending = .lineBreak) :
    unwrapper.acceptText text = unwrapper.dropLineBreak text := by
  cases text with
  | nil => exact absurd rfl nonempty
  | cons head tail => simp only [acceptText, redundant]

def settled (unwrapper : Unwrapper) : Unwrapper :=
  { unwrapper with pending := .none }

@[simp] theorem acceptText_settled (unwrapper : Unwrapper) (text : Text) :
    unwrapper.settled.acceptText text = (unwrapper.settled, text) :=
  acceptText_of_none text rfl

theorem acceptText_terminator {body : Text} (rest : Text)
    (owed : unwrapper.pending = .body body) :
    unwrapper.acceptText (';' :: rest) = unwrapper.reattach body rest := by
  simp only [acceptText, owed, if_true]

theorem acceptText_of_body {body : Text} {head : Char} (tail : Text)
    (owed : unwrapper.pending = .body body) (other : head ≠ ';') :
    unwrapper.acceptText (head :: tail) =
      (unwrapper.settled, body ++ head :: tail) := by
  simp only [acceptText, owed, if_neg other, settled]

theorem acceptText_of_lineFeed {head : Char} (tail : Text)
    (owed : unwrapper.pending = .lineFeed) :
    unwrapper.acceptText (head :: tail) =
      (unwrapper.settled,
        if head = '\n' then tail else '\r' :: head :: tail) := by
  simp only [acceptText, owed, settled]
  split <;> rfl

theorem dropLineBreak_lineFeed (rest : Text) :
    unwrapper.dropLineBreak ('\n' :: rest) = (unwrapper.settled, rest) := rfl

theorem dropLineBreak_pair (rest : Text) :
    unwrapper.dropLineBreak ('\r' :: '\n' :: rest) =
      (unwrapper.settled, if unwrapper.collapse = .any then rest
        else '\r' :: '\n' :: rest) := by
  simp only [dropLineBreak, settled]
  split <;> rfl

theorem dropLineBreak_carriageReturn :
    unwrapper.dropLineBreak ['\r'] =
      if unwrapper.collapse = .any then
        ({ unwrapper with pending := .lineFeed }, [])
      else (unwrapper.settled, ['\r']) := rfl

theorem dropLineBreak_other {text : Text} (noFeed : text.head? ≠ some '\n')
    (noPair : text.take 2 ≠ ['\r', '\n']) (longer : text ≠ ['\r']) :
    unwrapper.dropLineBreak text = (unwrapper.settled, text) := by
  unfold dropLineBreak
  split
  · simp at noFeed
  · exact absurd rfl longer
  · simp at noPair
  · rfl

theorem dropLineBreak_append {text : Text} (more : Text)
    (nonempty : text ≠ []) :
    unwrapper.dropLineBreak (text ++ more) =
      (((unwrapper.dropLineBreak text).1.acceptText more).1,
        (unwrapper.dropLineBreak text).2 ++
          ((unwrapper.dropLineBreak text).1.acceptText more).2) := by
  by_cases feed : text.head? = some '\n'
  · obtain ⟨rest, rfl⟩ := List.head?_eq_some_iff.mp feed
    rw [List.cons_append, dropLineBreak_lineFeed, dropLineBreak_lineFeed,
      acceptText_settled]
  · by_cases pair : text.take 2 = ['\r', '\n']
    · obtain ⟨rest, rfl⟩ : ∃ rest, text = '\r' :: '\n' :: rest :=
        ⟨text.drop 2, by rw [← List.take_append_drop 2 text, pair]; simp⟩
      rw [List.cons_append, List.cons_append, dropLineBreak_pair,
        dropLineBreak_pair, acceptText_settled]
      split <;> simp
    · by_cases alone : text = ['\r']
      · subst alone
        cases more with
        | nil => simp [acceptText]
        | cons next rest =>
            by_cases completed : next = '\n'
            · subst completed
              rw [dropLineBreak_carriageReturn, List.singleton_append,
                dropLineBreak_pair]
              split
              · simp [acceptText, settled]
              · simp
            · rw [dropLineBreak_carriageReturn, List.singleton_append,
                dropLineBreak_other (by simp) (by simp [completed]) (by simp)]
              split
              · simp [acceptText, completed, settled]
              · simp
      · have longer : text ++ more ≠ ['\r'] := by
          intro whole
          rcases List.append_eq_singleton_iff.mp whole with
              ⟨empty, _⟩ | ⟨same, _⟩
          · exact nonempty empty
          · exact alone same
        have noPair : (text ++ more).take 2 ≠ ['\r', '\n'] := by
          rcases text with _ | ⟨first, _ | ⟨second, rest⟩⟩
          · exact absurd rfl nonempty
          · intro same
            cases more <;> simp_all
          · simpa using pair
        have noFeed : (text ++ more).head? ≠ some '\n' := by
          cases text with
          | nil => exact absurd rfl nonempty
          | cons head tail => simpa using feed
        rw [dropLineBreak_other noFeed noPair longer,
          dropLineBreak_other feed pair alone, acceptText_settled]

def counted (unwrapper : Unwrapper) : Unwrapper :=
  { unwrapper with pending := .none, reattached := unwrapper.reattached + 1 }

/-- The line break behind a moved terminator stays. -/
def KeepsLineBreak (unwrapper : Unwrapper) (body : Text) : Prop :=
  unwrapper.collapse = .off ∨ Text.endsWith (body.drop body.trimEnd.length)
    ['\n'] = false

theorem reattach_of_keeps {body : Text} (rest : Text)
    (keeps : unwrapper.KeepsLineBreak body) :
    unwrapper.reattach body rest =
      (unwrapper.counted, terminated body ++ rest) :=
  if_pos keeps

theorem reattach_nil {body : Text} (drops : ¬unwrapper.KeepsLineBreak body) :
    unwrapper.reattach body [] =
      ({ unwrapper.counted with pending := .lineBreak }, terminated body) :=
  if_neg drops

theorem reattach_of_drops {body rest : Text}
    (drops : ¬unwrapper.KeepsLineBreak body) (nonempty : rest ≠ []) :
    unwrapper.reattach body rest =
      ((unwrapper.counted.dropLineBreak rest).1,
        terminated body ++ (unwrapper.counted.dropLineBreak rest).2) :=
  (if_neg drops).trans (if_neg nonempty)

private theorem reattach_append (body rest more : Text) :
    unwrapper.reattach body (rest ++ more) =
      (((unwrapper.reattach body rest).1.acceptText more).1,
        (unwrapper.reattach body rest).2 ++
          ((unwrapper.reattach body rest).1.acceptText more).2) := by
  by_cases keeps : unwrapper.KeepsLineBreak body
  · rw [reattach_of_keeps _ keeps, reattach_of_keeps _ keeps,
      acceptText_of_none more rfl, List.append_assoc]
  · cases rest with
    | nil =>
        cases more with
        | nil =>
            rw [List.append_nil, reattach_nil keeps, acceptText,
              List.append_nil]
        | cons head tail =>
            rw [List.nil_append, reattach_nil keeps,
              reattach_of_drops keeps (List.cons_ne_nil _ _),
              acceptText_of_lineBreak (List.cons_ne_nil _ _) rfl]
            rfl
    | cons head tail =>
        rw [reattach_of_drops keeps (by simp),
          reattach_of_drops keeps (List.cons_ne_nil _ _),
          dropLineBreak_append more (List.cons_ne_nil _ _), List.append_assoc]

/-- A text in two pieces is the text as a whole. -/
theorem acceptText_append (unwrapper : Unwrapper) (first second : Text) :
    unwrapper.acceptText (first ++ second) =
      (((unwrapper.acceptText first).1.acceptText second).1,
        (unwrapper.acceptText first).2 ++
          ((unwrapper.acceptText first).1.acceptText second).2) := by
  cases first with
  | nil => simp [acceptText]
  | cons head tail =>
      cases owed : unwrapper.pending with
      | none =>
          rw [acceptText_of_none _ owed, acceptText_of_none _ owed,
            acceptText_of_none _ owed]
      | body body =>
          by_cases terminator : head = ';'
          · subst terminator
            rw [List.cons_append, acceptText_terminator _ owed,
              acceptText_terminator _ owed]
            exact reattach_append body tail second
          · rw [List.cons_append, acceptText_of_body _ owed terminator,
              acceptText_of_body _ owed terminator, acceptText_settled,
              List.append_assoc, List.cons_append]
      | lineBreak =>
          rw [acceptText_of_lineBreak (by simp) owed,
            acceptText_of_lineBreak (List.cons_ne_nil _ _) owed]
          exact dropLineBreak_append second (List.cons_ne_nil _ _)
      | lineFeed =>
          rw [List.cons_append, acceptText_of_lineFeed _ owed,
            acceptText_of_lineFeed _ owed, acceptText_settled]
          split <;> rfl

theorem acceptAll_append (unwrapper : Unwrapper) (first second : List Segment) :
    unwrapper.acceptAll (first ++ second) =
      (((unwrapper.acceptAll first).1.acceptAll second).1,
        (unwrapper.acceptAll first).2 ++
          ((unwrapper.acceptAll first).1.acceptAll second).2) := by
  induction first generalizing unwrapper with
  | nil => rfl
  | cons segment segments ih =>
      simp only [List.cons_append, acceptAll, ih, List.append_assoc]

def ofAtom : Atom → Segment
  | .char character => .text [character]
  | .guard guard line => .guard guard line

private theorem acceptAll_chars (unwrapper : Unwrapper) (text : Text) :
    unwrapper.acceptAll (text.map (ofAtom ∘ .char)) =
      unwrapper.acceptText text := by
  induction text generalizing unwrapper with
  | nil => rfl
  | cons head tail ih =>
      have cutOff := unwrapper.acceptText_append [head] tail
      simp only [List.singleton_append] at cutOff
      simp only [List.map_cons, acceptAll, ih, cutOff]
      rfl

theorem acceptAll_eq_atoms (unwrapper : Unwrapper) (segments : List Segment) :
    unwrapper.acceptAll segments =
      unwrapper.acceptAll ((atomsOf segments).map ofAtom) := by
  induction segments generalizing unwrapper with
  | nil => rfl
  | cons segment segments ih =>
      rw [atomsOf_cons, List.map_append, acceptAll_append]
      have one : unwrapper.acceptAll (segment.atoms.map ofAtom) =
          unwrapper.accept segment := by
        cases segment with
        | text text =>
            simp only [Segment.atoms, List.map_map, acceptAll_chars, accept]
        | guard guard line => simp [Segment.atoms, ofAtom, acceptAll]
      rw [one, ← ih]
      rfl

theorem acceptAll_congr {first second : List Segment}
    (same : atomsOf first = atomsOf second) :
    unwrapper.acceptAll first = unwrapper.acceptAll second := by
  rw [acceptAll_eq_atoms, same, ← acceptAll_eq_atoms]

def unwrap (unwrapper : Unwrapper) (segments : List Segment) :
    Unwrapper × Text :=
  let (accepted, freed) := unwrapper.acceptAll segments
  let (last, held) := accepted.finish
  (last, freed ++ held)

/-- Unwrapping is accepting the first part and unwrapping the rest. -/
theorem unwrap_of_atoms (unwrapper : Unwrapper)
    {whole first second : List Segment}
    (same : atomsOf whole = atomsOf first ++ atomsOf second) :
    unwrapper.unwrap whole =
      (((unwrapper.acceptAll first).1.unwrap second).1,
        (unwrapper.acceptAll first).2 ++
        ((unwrapper.acceptAll first).1.unwrap second).2) := by
  rw [← atomsOf_append] at same
  simp only [unwrap, acceptAll_congr same, acceptAll_append, List.append_assoc]

/-- In every state a text in two pieces leaves the output, the debt and the
counts of the text in one piece.  So two streams with the same characters
between the same guards are unwrapped alike, wherever their text is cut. -/
theorem texts_compose (unwrapper : Unwrapper) :
    (∀ first second : Text,
      unwrapper.accept (.text (first ++ second)) =
        (((unwrapper.accept (.text first)).1.accept (.text second)).1,
          (unwrapper.accept (.text first)).2 ++
            ((unwrapper.accept (.text first)).1.accept (.text second)).2)) ∧
    ∀ first second : List Segment, atomsOf first = atomsOf second →
      unwrapper.unwrap first = unwrapper.unwrap second := by
  constructor
  · exact unwrapper.acceptText_append
  · intro first second same
    rw [unwrap, unwrap, acceptAll_congr same]

/-- A terminator and its line break in three pieces. -/
example (guard : Guard) (line : Nat) :
    atomsOf [.guard guard line, .text [';'], .text ['\r'], .text ['\n', 'Y']] =
      atomsOf [.guard guard line, .text [';', '\r', '\n', 'Y']] := rfl

end Unwrapper

end SqlDump
