import SqlDump.Proofs.Lexer.Comment
import SqlDump.Proofs.Lexer.Seam
import SqlDump.Proofs.Offset.Walk

/-!
# Lexing bytes

The lexer meets the bytes of a text one by one.  Inside a longer character every
byte is skipped, so between characters it is where the lexer of the characters
is.  The depth of comments is counted by a counter of the program: one with 32
bits that stops or wraps around, or one without a limit.
-/

namespace SqlDump

/-- Counts one more open comment. -/
abbrev DepthCounter := Nat → Checked Nat

namespace DepthCounter

def exact : DepthCounter := fun depth => .ok (depth + 1)

/-- 32 bits; a larger depth is a fault. -/
def trapping : DepthCounter := fun depth =>
  if depth + 1 < UInt32.size then .ok (depth + 1) else .error .overflow

/-- 32 bits; a larger depth begins anew. -/
def wrapping : DepthCounter := fun depth => .ok ((depth + 1) % UInt32.size)

def Total (counter : DepthCounter) : Prop :=
  ∀ depth, ∃ after, counter depth = .ok after

def CountsTo (counter : DepthCounter) (bound : Nat) : Prop :=
  ∀ depth < bound, counter depth = .ok (depth + 1)

/-- The counter counts every comment. -/
def Exact (counter : DepthCounter) : Prop :=
  ∀ bound, counter.CountsTo bound

variable {counter : DepthCounter} {bound smaller : Nat}

theorem CountsTo.mono (counts : counter.CountsTo bound)
    (within : smaller ≤ bound) :
    counter.CountsTo smaller :=
  fun depth below => counts depth (Nat.lt_of_lt_of_le below within)

theorem exact_exact : exact.Exact :=
  fun _ _ _ => rfl

theorem trapping_error {depth : Nat} {fault : OffsetFault}
    (failed : trapping depth = .error fault) : fault = .overflow := by
  unfold trapping at failed
  split at failed
  · simp at failed
  · exact (Except.error.inj failed).symm

theorem wrapping_total : wrapping.Total :=
  fun _ => ⟨_, rfl⟩

theorem trapping_countsTo (below : bound < UInt32.size) :
    trapping.CountsTo bound :=
  fun _ within => if_pos (Nat.lt_of_le_of_lt within below)

theorem wrapping_countsTo (below : bound < UInt32.size) :
    wrapping.CountsTo bound :=
  fun _ within =>
    congrArg Except.ok (Nat.mod_eq_of_lt (Nat.lt_of_le_of_lt within below))

end DepthCounter

/-- Number of opening markers of comments. -/
def openings : Text → Nat
  | [] => 0
  | head :: tail =>
      (if commentMarker <+: head :: tail then 1 else 0) + openings tail

theorem openings_marker (tail : Text) :
    openings ('/' :: '*' :: tail) = 1 + openings tail := by
  simp [openings, commentMarker]

theorem openings_drop_le (text : Text) (count : Nat) :
    openings (text.drop count) ≤ openings text := by
  induction text generalizing count with
  | nil => simp
  | cons head tail ih =>
      cases count with
      | zero => exact Nat.le_refl _
      | succ count => exact Nat.le_trans (ih count) (Nat.le_add_left _ _)

theorem openings_add_le (first second : Text) :
    openings first + openings second ≤ openings (first ++ second) := by
  induction first with
  | nil => simp [openings]
  | cons head tail ih =>
      have begun : commentMarker <+: head :: tail →
          commentMarker <+: head :: (tail ++ second) :=
        fun begins => begins.trans (List.prefix_append (head :: tail) second)
      simp only [List.cons_append, openings]
      split
      · next begins => rw [if_pos (begun begins)]; omega
      · omega

namespace DepthCounter

/-- Every comment that the text can open in this state is counted. -/
def Counts (counter : DepthCounter) (lexer : Lexer) (rest : Text) : Prop :=
  counter.CountsTo (lexer.depth + openings rest)

/-- The counter does not stop the program in this state. -/
def Serves (counter : DepthCounter) (lexer : Lexer) (rest : Text) : Prop :=
  counter.Total ∨ counter.Counts lexer rest

/-- With `faith` the counter counts up to the bound; without it the counter
stops at no depth. -/
structure Keeps (counter : DepthCounter) (faith : Prop) (bound : Nat) :
    Prop where
  loose : counter.Total ∨ faith
  counts : faith → counter.CountsTo bound

variable {counter : DepthCounter} {faith : Prop} {bound smaller : Nat}
  {lexer : Lexer} {text front sub behind : Text}

theorem Total.keeps (total : counter.Total) (bound : Nat) :
    counter.Keeps counter.Exact bound :=
  ⟨.inl total, fun exact_ => exact_ bound⟩

theorem CountsTo.keeps (counts : counter.CountsTo bound) :
    counter.Keeps True bound :=
  ⟨.inr trivial, fun _ => counts⟩

theorem Keeps.mono (keeps : counter.Keeps faith bound)
    (within : faith → smaller ≤ bound) :
    counter.Keeps faith smaller :=
  ⟨keeps.loose, fun holds => (keeps.counts holds).mono (within holds)⟩

theorem Keeps.serves
    (keeps : counter.Keeps faith (lexer.depth + openings text)) :
    counter.Serves lexer text :=
  keeps.loose.imp_right keeps.counts

theorem Counts.infix
    (counts : counter.Counts lexer (front ++ (sub ++ behind))) :
    counter.Counts lexer sub := by
  have outer := openings_add_le front (sub ++ behind)
  have inner := openings_add_le sub behind
  exact counts.mono (by omega)

theorem Counts.suffix (counts : counter.Counts lexer (front ++ behind)) :
    counter.Counts lexer behind :=
  counts.mono
    (Nat.add_le_add_left (Nat.le_of_add_left_le (openings_add_le front behind))
      _)

theorem Serves.infix
    (serves : counter.Serves lexer (front ++ (sub ++ behind))) :
    counter.Serves lexer sub :=
  serves.imp_right Counts.infix

theorem Serves.suffix (serves : counter.Serves lexer (front ++ behind)) :
    counter.Serves lexer behind :=
  serves.imp_right Counts.suffix

end DepthCounter

namespace Lexer

variable {lexer after : Lexer} {atEnd : Bool} {input : Text} {head octet : Char}
  {taken : Step}

/-- A step that enters a comment takes its marker. -/
theorem Outcome.depth_add_openings_le
    (outcome : Outcome lexer input taken after) (later : Text) :
    after.depth + openings (input.drop taken.consumed ++ later) ≤
      lexer.depth + openings (input ++ later) := by
  cases outcome with
  | character head tail =>
      exact Nat.add_le_add_left (openings_drop_le (head :: tail ++ later) 1) _
  | dashes code tail =>
      exact Nat.add_le_add_left
        (openings_drop_le ('-' :: '-' :: tail ++ later) 2) _
  | marker top tail =>
      exact Nat.add_le_add_left
        (openings_drop_le ('/' :: '*' :: '!' :: tail ++ later) 3) _
  | openGuard top digits tail nonempty allDigits =>
      have inside := openings_drop_le ('!' :: (digits ++ (tail ++ later)))
        (1 + digits.length)
      have whole : openings (guardMarker ++ (digits ++ tail) ++ later) =
          1 + openings ('!' :: (digits ++ (tail ++ later))) := by
        rw [List.append_assoc, List.append_assoc]
        exact openings_marker _
      have dropped :
          (guardMarker ++ (digits ++ tail)).drop
              (guardMarker.length + digits.length) ++ later =
            ('!' :: (digits ++ (tail ++ later))).drop
              (1 + digits.length) := by
        simp [guardMarker, Nat.add_comm]
      simp only [Step.consumed, dropped, whole, enterGuard]
      omega
  | openPlain code tail =>
      simp only [List.cons_append, openings_marker, Step.consumed, openOne,
        List.drop_succ_cons, List.drop_zero]
      omega
  | close inside tail =>
      have fits := Nat.sub_le lexer.depth 1
      exact Nat.add_le_add fits
        (openings_drop_le ('*' :: '/' :: tail ++ later) 2)

theorem isAscii_of_isQuote (quote : isQuote head = true) :
    isAscii head = true := by
  simp only [isQuote, Bool.or_eq_true, beq_iff_eq] at quote
  rcases quote with (rfl | rfl) | rfl <;> decide

inductive Marker where
  | guard (count : Nat)
  | bare
  | plain
  | needMore

def markerAt (octets : Text) (place : Nat) (atEnd : Bool) : Checked Marker :=
  match octets[place + 2]? with
  | none => .ok (if atEnd then .plain else .needMore)
  | some third =>
      if third = '!' then do
        let behind ← octets.octetsSince (place + 3)
        let digits := (behind.takeWhile Char.isDigit).length
        if place + 3 + digits = octets.length ∧ atEnd = false then .ok .needMore
        else if digits = 0 then .ok .bare
        else .ok (.guard (3 + digits))
      else .ok .plain

def closeChecked (lexer : Lexer) : Checked (Step × Lexer) := do
  let depth ← Checked.minus lexer.depth 1
  .ok (.close,
    { depth := depth, guarded := lexer.guarded && depth != 0, lex := .code })

def openChecked (counter : DepthCounter) (lexer : Lexer) :
    Checked (Step × Lexer) := do
  let depth ← counter lexer.depth
  .ok (.openPlain, { lexer with depth := depth })

def starChecked (lexer : Lexer) (octets : Text) (place : Nat) (atEnd : Bool) :
    Checked (Step × Lexer) :=
  match octets[place + 1]? with
  | none => .ok (if atEnd then .skip 1 else .needMore, lexer)
  | some next => if next = '/' then lexer.closeChecked else .ok (.skip 1, lexer)

def slashChecked (counter : DepthCounter) (lexer : Lexer) (octets : Text)
    (place : Nat) (atEnd : Bool) : Checked (Step × Lexer) :=
  match octets[place + 1]? with
  | none => .ok (if atEnd then .skip 1 else .needMore, lexer)
  | some next =>
      if next = '*' then
        if lexer.depth = 0 then do
          match ← markerAt octets place atEnd with
          | .needMore => .ok (.needMore, lexer)
          | .guard count => .ok (.openGuard count, lexer.enterGuard)
          | .bare => .ok (.skip 3, lexer)
          | .plain => lexer.openChecked counter
        else lexer.openChecked counter
      else .ok (.skip 1, lexer)

def dashChecked (lexer : Lexer) (octets : Text) (place : Nat) (atEnd : Bool) :
    Checked (Step × Lexer) :=
  match octets[place + 1]? with
  | none => .ok (if atEnd then .skip 1 else .needMore, lexer)
  | some next =>
      if next = '-' then
        match octets[place + 2]? with
        | none =>
            .ok (if atEnd then (.skip 2, { lexer with lex := .lineComment })
              else (.needMore, lexer))
        | some third =>
            if third = ' ' ∨ third = '\t' ∨ third = '\r' ∨ third = '\n' then
              .ok (.skip 2, { lexer with lex := .lineComment })
            else .ok (.skip 1, lexer)
      else .ok (.skip 1, lexer)

def plainChecked (counter : DepthCounter) (lexer : Lexer) (octets : Text)
    (place : Nat) (atEnd : Bool) (octet : Char) : Checked (Step × Lexer) :=
  if octet = '*' ∧ 0 < lexer.depth then lexer.starChecked octets place atEnd
  else if octet = '/' ∧ lexer.lex ≠ .lineComment then
    lexer.slashChecked counter octets place atEnd
  else if isQuote octet ∧ lexer.inCode = true then
    .ok (.skip 1, { lexer with lex := .quoted octet })
  else if octet = '#' ∧ lexer.inCode = true then
    .ok (.skip 1, { lexer with lex := .lineComment })
  else if octet = '-' ∧ lexer.inCode = true then
    lexer.dashChecked octets place atEnd
  else if octet = '\n' ∧ lexer.lex = .lineComment then
    .ok (.skip 1, { lexer with lex := .code })
  else .ok (.skip 1, lexer)

/-- Classify the byte at a place. -/
def stepChecked (counter : DepthCounter) (lexer : Lexer) (octets : Text)
    (place : Nat) (atEnd : Bool) : Checked (Step × Lexer) := do
  let octet ← octets.octetAt place
  match lexer.lex with
  | .quoted quote =>
      if octet = quote then .ok (.skip 1, { lexer with lex := .code })
      else if octet = backslash ∧ quote ≠ backtick then
        .ok (.skip 1, { lexer with lex := .escaped quote })
      else .ok (.skip 1, lexer)
  | .escaped quote => .ok (.skip 1, { lexer with lex := .quoted quote })
  | .code => lexer.plainChecked counter octets place atEnd octet
  | .lineComment => lexer.plainChecked counter octets place atEnd octet

/-- A step of which the counter counts the comment that it opens. -/
def counted (counter : DepthCounter) (lexer : Lexer) :
    Step × Lexer → Checked (Step × Lexer)
  | (.openPlain, _) => lexer.openChecked counter
  | stepped => .ok stepped

section

variable {counter : DepthCounter} {octets tail : Text} {place : Nat}

theorem getElem?_of_drop (here : octets.drop place = head :: tail)
    (further : Nat) :
    octets[place + further]? = (head :: tail)[further]? := by
  rw [← here, List.getElem?_drop]

private theorem closeChecked_eq (inside : 0 < lexer.depth) :
    lexer.closeChecked = .ok (.close, lexer.closeOne) := by
  have fits : 1 ≤ lexer.depth := inside
  have same : (lexer.depth - 1 != 0) = (lexer.depth != 1) := by
    rw [Bool.eq_iff_iff, bne_iff_ne, bne_iff_ne]
    omega
  simp only [closeChecked, Checked.minus, if_pos fits, Checked.ok_bind,
    closeOne, same]

private theorem starChecked_eq (inside : 0 < lexer.depth)
    (here : octets.drop place = head :: tail) :
    lexer.starChecked octets place atEnd =
      lexer.counted counter (lexer.stepStar atEnd tail) := by
  unfold starChecked stepStar
  rw [getElem?_of_drop here 1, List.getElem?_cons_succ]
  cases tail with
  | nil => cases atEnd <;> rfl
  | cons next rest =>
      simp only [List.getElem?_cons_zero]
      split
      · exact closeChecked_eq inside
      · rfl

private theorem dashChecked_eq (here : octets.drop place = head :: tail) :
    lexer.dashChecked octets place atEnd =
      lexer.counted counter (lexer.stepDash atEnd tail) := by
  unfold dashChecked stepDash
  rw [getElem?_of_drop here 1, getElem?_of_drop here 2, List.getElem?_cons_succ,
    List.getElem?_cons_succ]
  cases tail with
  | nil => cases atEnd <;> rfl
  | cons next rest =>
      simp only [List.getElem?_cons_zero, List.getElem?_cons_succ]
      split
      · cases rest with
        | nil => cases atEnd <;> rfl
        | cons third rest =>
            simp only [List.getElem?_cons_zero]
            split <;> rfl
      · rfl

private theorem slashChecked_eq (here : octets.drop place = head :: tail) :
    lexer.slashChecked counter octets place atEnd =
      lexer.counted counter (lexer.stepSlash atEnd tail) := by
  unfold slashChecked stepSlash markerAt
  rw [getElem?_of_drop here 1, getElem?_of_drop here 2, List.getElem?_cons_succ,
    List.getElem?_cons_succ]
  cases tail with
  | nil => cases atEnd <;> rfl
  | cons next rest =>
      simp only [List.getElem?_cons_zero, List.getElem?_cons_succ]
      split
      · split
        · cases rest with
          | nil => cases atEnd <;> rfl
          | cons third rest =>
              simp only [List.getElem?_cons_zero, stepMarker]
              split
              · next bang =>
                  have lengths := congrArg List.length here
                  have behind : octets.drop (place + 3) = rest := by
                    rw [← List.drop_drop, here]
                    rfl
                  simp only [List.length_drop, List.length_cons] at lengths
                  have fits : place + 3 ≤ octets.length := by omega
                  have whole (digits : Nat) :
                      place + 3 + digits = octets.length ↔
                      digits = rest.length := by omega
                  simp only [Text.octetsSince, if_pos fits, Checked.ok_bind,
                    behind, whole]
                  split
                  · rfl
                  · simp only [List.length_eq_zero_iff]
                    split <;> rfl
              · rfl
        · rfl
      · rfl

theorem plainChecked_eq (here : octets.drop place = head :: tail) :
    lexer.plainChecked counter octets place atEnd head =
      lexer.counted counter (lexer.stepPlain atEnd head tail) := by
  unfold plainChecked stepPlain
  split
  · next star => exact starChecked_eq star.2 here
  · split
    · exact slashChecked_eq here
    · by_cases code : lexer.inCode = true
      · have lex : lexer.lex ≠ .lineComment := by
          intro comment
          simp [inCode, comment] at code
        simp only [code, and_true, if_true]
        split
        · rfl
        · split
          · rfl
          · split
            · exact dashChecked_eq here
            · rw [if_neg fun lineEnd => lex lineEnd.2]
              rfl
      · have noCode : lexer.inCode = false := eq_false_of_ne_true code
        simp only [noCode, Bool.false_eq_true, and_false, if_false]
        split <;> rfl

theorem octetAt_of_drop (here : octets.drop place = head :: tail) :
    octets.octetAt place = .ok head := by
  have found := getElem?_of_drop here 0
  rw [Nat.add_zero, List.getElem?_cons_zero] at found
  simp only [Text.octetAt, found]

/-- The checked step is the step that sees the bytes from the place on. -/
theorem stepChecked_eq (here : octets.drop place = head :: tail) :
    lexer.stepChecked counter octets place atEnd =
      lexer.counted counter (lexer.step atEnd (head :: tail)) := by
  simp only [stepChecked, octetAt_of_drop here, Checked.ok_bind, step]
  cases lexer.lex with
  | quoted quote =>
      dsimp only
      split
      · rfl
      · split <;> rfl
  | escaped quote => rfl
  | code => exact plainChecked_eq here
  | lineComment => exact plainChecked_eq here

end

end Lexer

end SqlDump
