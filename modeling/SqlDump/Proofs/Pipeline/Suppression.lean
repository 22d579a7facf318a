import SqlDump.Pipeline
import SqlDump.Proofs.Guard.Content
import SqlDump.Proofs.Lexer.Token
import SqlDump.Proofs.Statement.Pushes
import SqlDump.Proofs.Text.Letter
import SqlDump.Proofs.Text.Trim

/-!
# What is left to drop

The stage removes the first drop of a unit.  What it walks over on the way is
walked over again when it is applied once more, so a second application finds
something exactly if something to drop stands behind the guard that the first
one removed.
-/

namespace SqlDump

namespace Guard

variable {guard : Guard} {text rest : Text}

/-- A guard that begins a text begins every text that it stands in front of. -/
theorem Begins.front (begins : guard.Begins text rest) (other : Text) :
    scan (guard.raw ++ other) = .complete guard other :=
  Begins.scan_eq ⟨rfl, begins.nonempty, begins.allDigits, begins.maximal,
    begins.content⟩

theorem behind?_spec (found : behind? text = some rest) :
    ∃ guard later, scan text = .complete guard later ∧
      rest = later.drop (statementOffset later) := by
  unfold behind? at found
  split at found
  · next guard later scanned =>
      exact ⟨guard, later, scanned, (Option.some.inj found).symm⟩
  · simp at found

theorem statementOffset_of_scan (found : scan text = .complete guard rest) :
    statementOffset text = 0 := by
  obtain ⟨count, inside, opened, -, -⟩ := step_of_scan found
  cases text with
  | nil => simp [Lexer.step] at opened
  | cons head tail =>
      have stands : ({} : Lexer).step true (head :: tail) =
          (.openGuard count, inside) := by
        rw [Lexer.step_true_of_decided, opened]
        simp [opened]
      obtain ⟨-, -, digits, behind, split, -, -, -⟩ :=
        (Lexer.outcome_of_step stands (by simp)).openGuard_spec
      obtain ⟨rfl, -⟩ := List.cons.inj split
      simp [statementOffset, Lexer.triviaLength, stands, Lexer.beginsComment,
        isAsciiBlank, Lexer.atTopLevel]

end Guard

namespace DropStatement

variable {text body front behind : Text} {guard : Guard} {guarded : Bool}

/-- From its first token on, the text has no statement or guard that the stage
removes. -/
def Settled (text : Text) : Prop :=
  find? (text.drop (statementOffset text)) = none

/-- A guard that the stage does not remove, wherever it stands. -/
structure Kept (guard : Guard) : Prop where
  complete : ∀ rest, Guard.scan (guard.raw ++ rest) = .complete guard rest
  keyword : Text.sameAsciiWord
    (leadingWord (guard.inner.drop (statementOffset guard.inner))) keyword =
      false

/-- What the stage walks over: trivia, and guards that it keeps. -/
inductive Passed : Text → Prop where
  | trivia {text : Text} (trivia : Trivia text) : Passed text
  | guard {front behind : Text} {guard : Guard} (trivia : Trivia front)
      (kept : Kept guard) (later : Passed behind) :
      Passed (front ++ (guard.raw ++ behind))

theorem firstKeyword_of_scan {rest : Text}
    (found : Guard.scan text = .complete guard rest) :
    firstKeyword text =
      (leadingWord (guard.inner.drop (statementOffset guard.inner)), true) := by
  rw [firstKeyword, found]

theorem scan_of_guarded (guarded : (firstKeyword text).2 = true) :
    ∃ guard rest, Guard.scan text = .complete guard rest := by
  unfold firstKeyword at guarded
  split at guarded
  · next guard rest found => exact ⟨guard, rest, found⟩
  · simp at guarded

private theorem find?_kept (kept : Kept guard) (rest : Text) :
    find? (guard.raw ++ rest) = find? (rest.drop (statementOffset rest)) := by
  have behindEq : Guard.behind? (guard.raw ++ rest) =
      some (rest.drop (statementOffset rest)) := by
    rw [Guard.behind?, kept.complete]
  rw [find?, firstKeyword_of_scan (kept.complete rest)]
  dsimp only
  rw [kept.keyword, if_neg Bool.false_ne_true]
  split
  · next found =>
      rw [behindEq] at found
      obtain rfl := Option.some.inj found
      rfl
  · next none =>
      rw [behindEq] at none
      simp at none

/-- What is walked over does not change what is found behind it. -/
theorem Passed.settled_iff (passed : Passed front) (rest : Text) :
    Settled (front ++ rest) ↔ Settled rest := by
  induction passed with
  | trivia trivia =>
      unfold Settled
      rw [statementOffset_append trivia, List.drop_length_add_append]
  | @guard front behind guard trivia kept later ih =>
      have none : statementOffset (guard.raw ++ (behind ++ rest)) = 0 :=
        Guard.statementOffset_of_scan (kept.complete _)
      rw [← ih]
      unfold Settled
      rw [List.append_assoc, List.append_assoc, statementOffset_append trivia,
        List.drop_length_add_append, none, List.drop_zero, find?_kept kept]

theorem Passed.of_append {last : Char} (passed : Passed (text ++ [last]))
    (padding : isPadding last = true) : Passed text := by
  generalize whole : text ++ [last] = front at passed
  induction passed generalizing text with
  | trivia trivia =>
      subst whole
      exact .trivia (trivia.of_append padding)
  | @guard front behind guard trivia kept later ih =>
      rw [← List.append_assoc] at whole
      rcases split_last whole with rfl | ⟨shorter, rfl, rfl⟩
      · have same := congrArg List.getLast? whole
        obtain rfl : last = '/' := by
          simpa [Guard.raw, closingMarker] using same
        exact absurd padding (by decide)
      · rw [List.append_assoc]
        exact .guard trivia kept (ih rfl)

theorem Passed.dropEnd {padding : Text} (passed : Passed (text ++ padding))
    (pads : ∀ character ∈ padding, isPadding character = true) :
    Passed text := by
  induction padding generalizing text with
  | nil => rwa [List.append_nil] at passed
  | cons head padding ih =>
      rw [List.append_cons] at passed
      apply Passed.of_append _ (pads head (.head padding))
      exact ih passed fun character member => pads character (.tail head member)

/-- What is found is a drop, and everything in front of it is walked over. -/
theorem find?_spec (found : find? body = some (text, guarded)) :
    text ≠ [] ∧ (firstKeyword text).2 = guarded ∧
      ∃ lead, body = lead ++ text ∧ ∀ front, Trivia front →
      Passed (front ++ lead) := by
  fun_induction find? body with
  | case1 body word inGuard keywordEq same =>
      simp only [Option.some.injEq, Prod.mk.injEq] at found
      obtain ⟨rfl, rfl⟩ := found
      refine ⟨?_, by rw [keywordEq], [], rfl, fun front trivia => ?_⟩
      · rintro rfl
        rw [show firstKeyword [] = ([], false) from rfl] at keywordEq
        obtain ⟨rfl, -⟩ := Prod.mk.inj keywordEq
        exact absurd same (by decide)
      · rw [List.append_nil]
        exact .trivia trivia
  | case2 body word inGuard keywordEq other rest behindEq ih =>
      obtain ⟨nonempty, guardedEq, lead, restEq, passed⟩ := ih found
      obtain ⟨guard, later, scanned, laterEq⟩ := Guard.behind?_spec behindEq
      have begins := Guard.begins_of_scan scanned
      have kept : Kept guard := by
        refine ⟨begins.front, ?_⟩
        rw [firstKeyword_of_scan scanned] at keywordEq
        rw [(Prod.mk.inj keywordEq).1]
        exact Bool.eq_false_iff.mpr other
      have parts := List.take_append_drop (statementOffset later) later
      have token : later.drop (statementOffset later) ≠ [] := by
        rw [← laterEq, restEq]
        simp [nonempty]
      refine ⟨nonempty, guardedEq,
        guard.raw ++ (later.take (statementOffset later) ++ lead), ?_,
        fun front trivia => ?_⟩
      · rw [begins.split, List.append_assoc, List.append_assoc, ← restEq,
          laterEq, parts]
      · exact .guard trivia kept
          (passed _ (trivia_take_statementOffset later token))
  | case3 body word inGuard keywordEq other none => simp at found

/-- The unit is what the stage walks over and the drop that it finds. -/
theorem passed_of_find?
    (found : find? (text.drop (statementOffset text)) = some (body, guarded)) :
    ∃ lead, text = lead ++ body ∧ Passed lead ∧
      (firstKeyword body).2 = guarded := by
  obtain ⟨nonempty, guardedEq, lead, split, passed⟩ := find?_spec found
  have token : text.drop (statementOffset text) ≠ [] := by
    rw [split]
    simp [nonempty]
  refine ⟨_, ?_, passed _ (trivia_take_statementOffset text token), guardedEq⟩
  rw [List.append_assoc, ← split, List.take_append_drop]

theorem find?_of_noToken (noMarker : ¬guardMarker <+: body)
    (noWord : leadingWord body = []) :
    find? body = none := by
  have noGuard := Guard.scan_of_noMarker noMarker
  have wordEq : firstKeyword body = ([], false) := by
    rw [firstKeyword, noGuard, noWord]
  have stops : Guard.behind? body = none := by rw [Guard.behind?, noGuard]
  have other : Text.sameAsciiWord [] keyword = false := rfl
  rw [find?, wordEq]
  dsimp only
  rw [other, if_neg Bool.false_ne_true]
  split
  · next found =>
      rw [stops] at found
      simp at found
  · rfl

theorem settled_of_isAllBlank (blank : Text.isAllBlank text = true) :
    Settled text := by
  have rest : Text.isAllBlank (text.drop (statementOffset text)) = true := by
    rw [Text.isAllBlank, List.all_eq_true] at blank ⊢
    exact fun character member => blank character (List.mem_of_mem_drop member)
  unfold Settled
  generalize text.drop (statementOffset text) = body at rest
  cases body with
  | nil => exact find?_of_noToken (by simp [guardMarker]) rfl
  | cons head tail =>
      have first : isBlank head = true :=
        List.all_eq_true.mp rest head (.head tail)
      apply find?_of_noToken
      · intro marker
        obtain ⟨rfl, -⟩ := List.cons_prefix_cons.mp marker
        exact absurd first (by decide)
      · simp [leadingWord, not_isAlpha_of_isBlank first]

theorem dropLineBreak_spec (text : Text) :
    ∃ front, text = front ++ dropLineBreak text ∧
      ∀ character ∈ front, isAsciiBlank character = true := by
  have parts : text.takeWhile isPadding ++ text.dropWhile isPadding = text :=
    List.takeWhile_append_dropWhile
  have padding : ∀ character ∈ text.takeWhile isPadding,
      isAsciiBlank character = true := by
    intro character member
    have pads := List.all_eq_true.mp List.all_takeWhile character member
    simp only [isPadding, Bool.or_eq_true, beq_iff_eq] at pads
    rcases pads with rfl | rfl <;> rfl
  unfold dropLineBreak
  split
  · next rest split =>
      refine ⟨text.takeWhile isPadding ++ ['\r', '\n'], ?_, ?_⟩
      · rw [List.append_assoc]
        exact (split ▸ parts).symm
      · exact List.forall_mem_append.mpr ⟨padding, List.all_eq_true.mp rfl⟩
  · next rest split =>
      refine ⟨text.takeWhile isPadding ++ ['\n'], ?_, ?_⟩
      · rw [List.append_assoc]
        exact (split ▸ parts).symm
      · exact List.forall_mem_append.mpr ⟨padding, List.all_eq_true.mp rfl⟩
  · exact ⟨[], rfl, List.forall_mem_nil _⟩

theorem settled_dropLineBreak (text : Text) :
    Settled (dropLineBreak text) ↔ Settled text := by
  obtain ⟨front, split, blanks⟩ := dropLineBreak_spec text
  have passed := (Passed.trivia (trivia_of_blanks blanks)).settled_iff
    (dropLineBreak text)
  rw [← split] at passed
  exact passed.symm

theorem isAllBlank_finalLineBreak (text : Text) :
    Text.isAllBlank (finalLineBreak text) = true := by
  unfold finalLineBreak
  split
  · rfl
  · split <;> rfl

private theorem settled_iff_apply (text : Text) :
    Settled text ↔
      ∀ atLineStart state, apply atLineStart state text = (state, text) := by
  constructor
  · intro settled atLineStart state
    rw [apply, settled]
  · intro fixed
    unfold Settled
    cases found : find? (text.drop (statementOffset text)) with
    | none => rfl
    | some drop =>
        have counted := congrArg (fun result => result.1.counts.dropsSuppressed)
          (fixed true {})
        rw [apply, found] at counted
        exact absurd counted (Nat.succ_ne_self _)

/-- The part of the unit that takes the place of the drop and what stands behind
it. -/
theorem settled_suppress {lead : Text} (passed : Passed lead)
    (guarded ownLine : Bool) :
    Settled (suppress lead body guarded ownLine) ↔
      Settled (remainder body guarded ownLine) := by
  have shorter : Passed (Text.dropEndWhile isPadding lead) := by
    obtain ⟨padding, split, pads⟩ := Text.dropEndWhile_spec isPadding lead
    rw [split] at passed
    exact passed.dropEnd pads
  rw [suppress, shorter.settled_iff]
  split
  · next blank =>
      have nothing : Settled (if ownLine then [] else finalLineBreak body) := by
        apply settled_of_isAllBlank
        split
        · rfl
        · exact isAllBlank_finalLineBreak body
      exact iff_of_true nothing (settled_of_isAllBlank blank)
  · rfl

private theorem settled_remainder {ownLine : Bool}
    (found : Guard.scan body = .complete guard behind) :
    Settled (remainder body true ownLine) ↔
      Settled (behind.dropWhile (· == ';')) := by
  rw [remainder, if_pos rfl, found]
  dsimp only
  cases ownLine with
  | true => exact settled_dropLineBreak _
  | false => rfl

theorem apply_of_find? {lead : Text} (atLineStart : Bool)
    (state : PipelineState)
    (found : find? ((lead ++ body).drop (statementOffset (lead ++ body))) =
        some (body, guarded)) :
    (apply atLineStart state (lead ++ body)).2 =
      suppress lead body guarded (beginsLine lead atLineStart) := by
  have leadEq : (lead ++ body).take ((lead ++ body).length - body.length) =
      lead := by
    rw [List.length_append, Nat.add_sub_cancel, List.take_left]
  rw [apply, found]
  dsimp only
  rw [leadEq]

theorem apply_of_find?_self (atLineStart : Bool) (state : PipelineState)
    (found : find? (body.drop (statementOffset body)) = some (body, guarded)) :
    (apply atLineStart state body).2 =
      suppress [] body guarded (beginsLine [] atLineStart) := by
  change find? (([] ++ body).drop (statementOffset ([] ++ body))) = _ at found
  exact apply_of_find? atLineStart state found

/-- The stage leaves nothing to drop exactly if nothing to drop stands behind
the guard that it removed; and if it leaves nothing, another application changes
neither the text nor the counts. -/
theorem settled_apply_iff (atLineStart : Bool) (state : PipelineState)
    (text : Text) :
    (Settled (apply atLineStart state text).2 ↔
        ∀ again after, apply again after (apply atLineStart state text).2 =
          (after, (apply atLineStart state text).2)) ∧
      (Settled (apply atLineStart state text).2 ↔
        ∀ body guard behind,
          find? (text.drop (statementOffset text)) = some (body, true) →
          Guard.scan body = .complete guard behind →
          Settled (behind.dropWhile (· == ';'))) := by
  refine ⟨settled_iff_apply _, ?_⟩
  cases found : find? (text.drop (statementOffset text)) with
  | none =>
      rw [apply, found]
      have settled : Settled text := found
      simp [settled]
  | some drop =>
      obtain ⟨body, guarded⟩ := drop
      obtain ⟨lead, rfl, passed, guardedEq⟩ := passed_of_find? found
      rw [apply_of_find? atLineStart state found, settled_suppress passed]
      cases guarded with
      | false =>
          simp [remainder,
            settled_of_isAllBlank (show Text.isAllBlank [] = true from rfl)]
      | true =>
          obtain ⟨guard, behind, scanned⟩ := scan_of_guarded guardedEq
          rw [settled_remainder scanned]
          constructor
          · intro settled body' guard' behind' same complete
            obtain ⟨rfl, -⟩ := Prod.mk.inj (Option.some.inj same)
            obtain ⟨rfl, rfl⟩ :=
              Guard.Scan.complete.inj (scanned.symm.trans complete)
            exact settled
          · intro settled
            exact settled body guard behind rfl scanned

/-- A guard that ends its statement inside shares its unit with the statement
behind it. -/
def dropDump : Text := "/*!80000 DROP TABLE a; */\nDROP TABLE b;\n".toList

theorem apply_leaves_drop :
    unitsOf dropDump = [⟨.statement, true, dropDump⟩] ∧
      (apply true {} dropDump).2 = "DROP TABLE b;\n".toList ∧
      ¬Settled (apply true {} dropDump).2 ∧
      apply true {} (apply true {} dropDump).2 =
        ({ counts := { dropsSuppressed := 1 } }, []) := by
  have left : (apply true {} dropDump).2 = "DROP TABLE b;\n".toList := by
    decide +kernel
  refine ⟨by decide +kernel, left, ?_, ?_⟩
  · rw [left]
    unfold Settled
    decide +kernel
  · rw [left]
    decide +kernel

end DropStatement

end SqlDump
