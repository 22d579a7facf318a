import SqlDump.Proofs.Lexer.Separator
import SqlDump.Proofs.Segment.Opening
import SqlDump.Proofs.Statement.Terminator
import SqlDump.Proofs.Text.Trim
import SqlDump.Proofs.Unwrap.Pieces

/-!
# Moved terminators

A semicolon right behind a guard moves onto the freed text, in front of the
blanks at its end.  It ends the freed statement if it lands in code.  Where the
text ends in a line comment, the line break that closed the comment is one of
those blanks, and the semicolon lands in the comment.
-/

namespace SqlDump

namespace Unwrapper

/-- The freed text up to its terminator: without the blanks at its end and
without a semicolon in front of them. -/
def bareBody (body : Text) : Text :=
  if Text.endsWith body.trimEnd [';'] then body.trimEnd.dropLast
  else body.trimEnd

theorem terminated_eq_bareBody (body : Text) :
    terminated body = bareBody body ++ ';' ::
      body.drop body.trimEnd.length := by
  have split := body.trimEnd_append_drop.1
  unfold terminated bareBody
  dsimp only
  generalize body.drop body.trimEnd.length = blanks at split ⊢
  split
  · next ends =>
      obtain ⟨front, frontEq⟩ := List.isSuffixOf_iff_suffix.mp ends
      rw [← frontEq, List.append_assoc] at split
      rw [← frontEq, List.dropLast_concat]
      exact split
  · rfl

private theorem terminated_eq (body : Text) :
    ∃ blanks, terminated body = bareBody body ++ ';' :: blanks ∧
      ∀ character ∈ blanks, isBlank character = true :=
  ⟨_, terminated_eq_bareBody body, body.trimEnd_append_drop.2⟩

end Unwrapper

/-- A semicolon in code ends the text in front of `later`; only blanks and line
comments follow it there. -/
def Terminates (text later : Text) : Prop :=
  ∃ front behind, text = front ++ ';' :: behind ∧
    ({} : Lexer).inCodeAt (text ++ later) front.length = true ∧
    ({} : Lexer).IdleFrom behind later

section

variable {bare blanks text rest : Text}

theorem inCodeAt_terminated (later : Text) {count : Nat}
    (within : count ≤ bare.length) :
    ({} : Lexer).inCodeAt (bare ++ ';' :: blanks ++ later) count =
      ({} : Lexer).inCodeAt (bare ++ [';']) count := by
  rw [List.append_assoc, List.cons_append]
  exact Lexer.inCodeAt_before_semicolon {} bare (blanks ++ later) [] within

theorem terminates_of_inCodeAt (later : Text)
    (blank : ∀ character ∈ blanks, isBlank character = true)
    (inCode : ({} : Lexer).inCodeAt (bare ++ [';']) bare.length = true) :
    Terminates (bare ++ ';' :: blanks) later := by
  refine ⟨bare, blanks, rfl, ?_, ?_⟩
  · rwa [inCodeAt_terminated later (Nat.le_refl _)]
  · intro index character place found _
    exact .inl (blank character (List.mem_of_getElem? found))

/-- If a text is ended, then by its last semicolon or in front of it. -/
theorem Terminates.cases {later : Text}
    (blank : ∀ character ∈ blanks, isBlank character = true)
    (terminates : Terminates (bare ++ ';' :: blanks) later) :
    ({} : Lexer).inCodeAt (bare ++ [';']) bare.length = true ∨
      Terminates bare [';'] := by
  have noSemicolon : ';' ∉ blanks := fun member =>
    absurd (blank ';' member) (by decide)
  obtain ⟨front, behind, split, inCode, idle⟩ := terminates
  rcases List.append_eq_append_iff.mp split with
    ⟨middle, frontEq, laterEq⟩ | ⟨middle, bareEq, laterEq⟩
  · cases middle with
    | nil =>
        left
        rw [frontEq, List.append_nil, inCodeAt_terminated later (Nat.le_refl _)]
          at inCode
        exact inCode
    | cons head middle =>
        exfalso
        apply noSemicolon
        rw [(List.cons.inj laterEq).2]
        exact List.mem_append_right middle (List.mem_cons_self ..)
  · cases middle with
    | nil =>
        left
        rw [List.append_nil] at bareEq
        rwa [← bareEq, inCodeAt_terminated later (Nat.le_refl _)] at inCode
    | cons head middle =>
        obtain ⟨rfl, behindEq⟩ := List.cons.inj laterEq
        right
        refine ⟨front, middle, bareEq, ?_, ?_⟩
        · rwa [inCodeAt_terminated later
            (by rw [bareEq, List.length_append]; omega)] at inCode
        · rw [behindEq] at idle
          exact idle.of_append.congr_behind []

/-- Behind an end of the text a semicolon is in code again, or in a line
comment. -/
theorem Terminates.terminated (later : Text)
    (blank : ∀ character ∈ blanks, isBlank character = true)
    (terminates : Terminates bare [';']) :
    Terminates (bare ++ ';' :: blanks) later := by
  obtain ⟨front, behind, bareEq, inCode, idle⟩ := terminates
  rcases Lexer.idle_ends {} behind (blanks ++ later) Lexer.outside_start
    (idle.congr_behind _) with top | comment
  · apply terminates_of_inCodeAt later blank
    rw [Lexer.inCodeAt_before_semicolon {} behind _ [] (Nat.le_refl _)] at top
    have through :=
      Lexer.inCodeAt_add (behind.length + 1) Lexer.proper_start inCode
    rw [bareEq, List.append_assoc, List.drop_left, List.cons_append,
      Lexer.inCodeAt_of_plain _ _ Lexer.atTopLevel_start (by decide),
      top] at through
    rw [bareEq, List.append_assoc, List.length_append]
    exact through
  · refine ⟨front, behind ++ ';' :: blanks, by rw [bareEq]; simp, ?_, ?_⟩
    · rwa [inCodeAt_terminated later
      (by rw [bareEq, List.length_append]; omega)]
    · intro index character place found placed
      rw [List.append_assoc, List.cons_append] at placed
      rcases Nat.lt_trichotomy index behind.length with before | here | beyond
      · rw [List.getElem?_append_left before] at found
        exact idle.congr_behind (blanks ++ later) index character place
          found placed
      · rw [here, comment] at placed
        obtain rfl := Option.some.inj placed
        exact .inr rfl
      · left
        obtain ⟨more, rfl⟩ := Nat.exists_eq_add_of_lt beyond
        rw [List.getElem?_append_right (by omega),
          show behind.length + more + 1 - behind.length = more + 1 by omega,
          List.getElem?_cons_succ] at found
        exact blank character (List.mem_of_getElem? found)

/-- A semicolon in front of blanks ends a text exactly if it is in code, or if
the text in front of it is ended already. -/
theorem terminates_iff (later : Text)
    (blank : ∀ character ∈ blanks, isBlank character = true) :
    Terminates (bare ++ ';' :: blanks) later ↔
      ({} : Lexer).inCodeAt (bare ++ [';']) bare.length = true ∨
      Terminates bare [';'] := by
  constructor
  · exact Terminates.cases blank
  · rintro (inCode | terminates)
    · exact terminates_of_inCodeAt later blank inCode
    · exact terminates.terminated later blank

end

theorem blockPieces_terminator {threshold : Nat} {guard : Guard}
    (collapse : Collapse) (following : Text)
    (below : shouldUnwrap guard.version threshold = true) :
    ∃ gone kept, following = gone ++ kept ∧
      (∀ character ∈ gone, character = '\n' ∨ character = '\r') ∧
      Document.blockPieces threshold collapse (guard, ';' :: following) =
        [.replaced (guard.raw ++ ';' :: gone)
            (Unwrapper.terminated (Unwrapper.strippedInner guard)),
          .copied kept] := by
  have leaves : Document.Leaves threshold collapse guard (';' :: following)
      (Document.blockPieces threshold collapse (guard, ';' :: following)) :=
    Document.leaves_blockPieces guard (';' :: following)
  generalize Document.blockPieces threshold collapse (guard, ';' :: following) =
    pieces at leaves ⊢
  generalize textEq : ';' :: following = text at leaves
  cases leaves with
  | kept text keeps =>
      rw [below] at keeps
      exact absurd keeps.symm Bool.false_ne_true
  | freed text unwraps noTerminator =>
      rw [← textEq] at noTerminator
      exact absurd rfl noTerminator
  | terminated gone kept unwraps redundant =>
      exact ⟨gone, kept, (List.cons.inj textEq).2,
        Document.mem_redundant redundant, rfl⟩

/-- Where a terminator moves onto the text of a guard that begins the stream, it
ends this text in what leaves exactly if it is in code behind the trimmed text,
or if the text was ended already in front of a line comment.  Then the freed
text ends with a statement, whatever follows. -/
theorem unwrap_terminates_iff (threshold : Nat) (collapse : Collapse)
    {text rest : Text} {guard : Guard}
    (begins : Guard.scan text = .complete guard (';' :: rest))
    (below : shouldUnwrap guard.version threshold = true) :
    let freed := Unwrapper.terminated (Unwrapper.strippedInner guard)
    let bare := Unwrapper.bareBody (Unwrapper.strippedInner guard)
    let output :=
      (Unwrapper.unwrap { threshold := threshold, collapse := collapse }
        (segmentsOf text)).2
    ∃ gone pieces, rest = gone ++ originals pieces ∧
      (∀ character ∈ gone, character = '\n' ∨ character = '\r') ∧
      output = freed ++ results pieces ∧
      (Terminates freed (results pieces) ↔
        ({} : Lexer).inCodeAt (bare ++ [';']) bare.length = true ∨
          Terminates bare [';']) ∧
      (Terminates freed (results pieces) →
        ∃ front behind, freed = front ++ ';' :: behind ∧
          ({} : Lexer).IdleFrom behind (results pieces) ∧
          (DirectiveBefore (unitsOf output) front.length ∨
            EndsStatementAt output (unitsOf output) front.length)) := by
  intro freed bare output
  have semicolonPlain : ∀ character ∈ [';'], character ∉ Lexer.openers :=
    List.forall_mem_singleton.mpr (by decide)
  obtain ⟨following, blocks, documentEq, restEq⟩ : ∃ following blocks,
      documentOf text = ⟨[], (guard, ';' :: following) :: blocks⟩ ∧
        rest = Document.text ⟨following, blocks⟩ :=
    documentOf_of_scan (List.forall_mem_nil _) begins semicolonPlain
  have outputEq :
      output = results ((documentOf text).pieces threshold collapse) :=
    unwrap_segmentsOf threshold collapse text
  obtain ⟨gone, kept, followingEq, lineBreak, blockEq⟩ :=
    blockPieces_terminator collapse following below
  let behind : List Piece :=
    .copied kept :: blocks.flatMap (Document.blockPieces threshold collapse)
  have outputFreed : output = freed ++ results behind := by
    rw [outputEq, documentEq, Document.pieces, List.flatMap_cons, blockEq]
    rfl
  have decided : Terminates freed (results behind) ↔
      ({} : Lexer).inCodeAt (bare ++ [';']) bare.length = true ∨
      Terminates bare [';'] := by
    obtain ⟨blanks, freedEq, blank⟩ :=
      Unwrapper.terminated_eq (Unwrapper.strippedInner guard)
    change freed = bare ++ ';' :: blanks at freedEq
    rw [freedEq]
    exact terminates_iff (results behind) blank
  refine ⟨gone, behind, ?_, lineBreak, outputFreed, decided, ?_⟩
  · rw [restEq, ← Document.originals_mk threshold collapse, followingEq,
      List.append_assoc]
    rfl
  · rintro ⟨front, idle, split, inCode, idles⟩
    refine ⟨front, idle, split, idles, ?_⟩
    rw [← outputFreed] at inCode
    apply unitsOf_terminator inCode
    rw [outputFreed, split, List.append_assoc,
      List.getElem?_append_right (Nat.le_refl _), Nat.sub_self]
    rfl

def settingDump : Text := "/*!40101 SET a=1 */;\nSET b=2;\n".toList

theorem unwrap_terminates_setting :
    let guard : Guard := ⟨"40101".toList, " SET a=1 ".toList⟩
    Guard.scan settingDump = .complete guard (';' :: "\nSET b=2;\n".toList) ∧
      shouldUnwrap guard.version defaultThreshold = true ∧
      ∃ later, (Unwrapper.unwrap {} (segmentsOf settingDump)).2 =
        "SET a=1;".toList ++ later ∧
        Terminates "SET a=1;".toList later := by
  intro guard
  have begins : Guard.scan settingDump =
      .complete guard (';' :: "\nSET b=2;\n".toList) := by
    decide +kernel
  have below : shouldUnwrap guard.version defaultThreshold = true := by
    decide +kernel
  obtain ⟨gone, pieces, -, -, output, decided, -⟩ :=
    unwrap_terminates_iff defaultThreshold .any begins below
  have freed : Unwrapper.terminated (Unwrapper.strippedInner guard) =
      "SET a=1;".toList := by
    decide +kernel
  rw [freed] at output decided
  exact ⟨begins, below, results pieces, output,
    decided.mpr (.inl (by decide +kernel))⟩

/-- The guard ends in code, because a line break closes its line comment. -/
def notedDump : Text := "/*!40101 SET a=1 -- note\n*/;\nSET b=2;\n".toList

theorem unwrap_hides_terminator :
    let guard : Guard := ⟨"40101".toList, " SET a=1 -- note\n".toList⟩
    let freed := Unwrapper.terminated (Unwrapper.strippedInner guard)
    let output := (Unwrapper.unwrap {} (segmentsOf notedDump)).2
    Guard.scan notedDump = .complete guard (';' :: "\nSET b=2;\n".toList) ∧
      shouldUnwrap guard.version defaultThreshold = true ∧ '*' ∉ guard.inner ∧
      (({} : Scanner).feed
        (guardMarker ++ guard.digits ++ guard.inner)).1.lexer =
        ({} : Lexer).enterGuard ∧
      output = freed ++ "SET b=2;\n".toList ∧ (unitsOf output).length = 1 ∧
      ¬Terminates freed "SET b=2;\n".toList := by
  intro guard freed output
  refine ⟨by decide +kernel, by decide +kernel, by decide, by decide +kernel,
    by decide +kernel, by decide +kernel, ?_⟩
  have freedEq : freed = "SET a=1 -- note".toList ++ ';' :: ['\n'] := by
    decide +kernel
  rw [freedEq, terminates_iff _ (by simp [isBlank])]
  rintro (inCode | ⟨front, behind, split, -⟩)
  · revert inCode
    decide +kernel
  · have member : ';' ∈ "SET a=1 -- note".toList := by
      rw [split]
      exact List.mem_append_right front (List.mem_cons_self ..)
    revert member
    decide

end SqlDump
