import SqlDump.Lexer.Trivia

/-!
# Version guards

A guard is a comment that only servers from a given version on read as code: a
marker, a run of digits, the guarded text and the closing marker.
-/

namespace SqlDump

structure Guard where
  digits : Text
  inner : Text
deriving DecidableEq, Repr

def guardMarker : Text := ['/', '*', '!']

def closingMarker : Text := ['*', '/']

def digitsValue (digits : Text) : Nat :=
  digits.foldl (fun value digit => 10 * value + (digit.toNat - '0'.toNat)) 0

def maxVersion : Nat := 4294967295

/-- Versions beyond 32 bits count as the largest one. -/
def versionOfDigits (digits : Text) : Nat :=
  min (digitsValue digits) maxVersion

def defaultThreshold : Nat := 80000

/-- A guard is taken off exactly if its version lies below the threshold. -/
def shouldUnwrap (version threshold : Nat) : Bool :=
  version < threshold

namespace Guard

def raw (guard : Guard) : Text :=
  guardMarker ++ guard.digits ++ guard.inner ++ closingMarker

def version (guard : Guard) : Nat :=
  versionOfDigits guard.digits

/-- What a text has at its start. -/
inductive Scan where
  /-- No marker with a digit behind it. -/
  | notGuard
  /-- A marker whose guard is not closed. -/
  | incomplete
  | complete (guard : Guard) (rest : Text)
deriving DecidableEq, Repr

end Guard

namespace Lexer

/-- Split the text of an open guard at its closing marker. -/
def guardContent? (lexer : Lexer) : Text → Option (Text × Text)
  | [] => none
  | head :: tail =>
      let taken := (lexer.step false (head :: tail)).1
      let after := (lexer.step false (head :: tail)).2
      if taken = .needMore then none
      else if taken = .close ∧ after.depth = 0 then
        some ([], (head :: tail).drop 2)
      else
        (after.guardContent? ((head :: tail).drop taken.consumed)).map
          fun (inner, rest) =>
            ((head :: tail).take taken.consumed ++ inner, rest)
termination_by text => text.length
decreasing_by
  rename_i stepped _
  have moved := lexer.step_eq_needMore_or_consumed_pos false (head :: tail)
  rcases moved with stopped | moved
  · exact absurd stopped stepped
  · simp only [List.length_drop, List.length_cons]
    omega

theorem guardContent?_length {lexer : Lexer} {text inner rest : Text}
    (found : lexer.guardContent? text = some (inner, rest)) :
    rest.length ≤ text.length := by
  fun_induction Lexer.guardContent? lexer text generalizing inner rest with
  | case1 => simp at found
  | case2 => simp at found
  | case3 lexer head tail ended =>
      simp only [Option.some.injEq, Prod.mk.injEq] at found
      rw [← found.2]
      simp only [List.length_drop]
      omega
  | case4 lexer head tail taken after =>
      rename_i ih
      simp only [Option.map_eq_some_iff, Prod.mk.injEq] at found
      obtain ⟨⟨laterInner, laterRest⟩, laterFound, _, restEq⟩ := found
      have shorter := ih laterFound
      simp only at restEq
      subst restEq
      simp only [List.length_drop] at shorter
      omega

end Lexer

namespace Guard

def scan (text : Text) : Scan :=
  match Text.after? guardMarker text with
  | none => .notGuard
  | some _ =>
      match ({} : Lexer).step false text with
      | (.openGuard count, inside) =>
          match inside.guardContent? (text.drop count) with
          | some (inner, rest) =>
              .complete ⟨(text.take count).drop guardMarker.length, inner⟩ rest
          | none => .incomplete
      | (.needMore, _) => .incomplete
      | _ => .notGuard

theorem length_of_scan_eq_complete {text rest : Text} {guard : Guard}
    (found : scan text = .complete guard rest) : rest.length < text.length := by
  unfold scan at found
  split at found
  · simp at found
  · next behind begins =>
      have textEq := Text.after?_eq_some_iff.mp begins
      split at found
      · next count inside opened =>
          have progress :=
            ({} : Lexer).step_eq_needMore_or_consumed_pos false text
          rw [opened] at progress
          split at found
          · next inner laterRest content =>
              have shorter := Lexer.guardContent?_length content
              simp only [Scan.complete.injEq] at found
              rw [← found.2]
              simp only [List.length_drop] at shorter
              have nonempty : 0 < text.length := by simp [textEq, guardMarker]
              simp only [Step.consumed, reduceCtorEq, false_or] at progress
              omega
          · simp at found
      · simp at found
      · simp at found

/-- The first token behind a complete guard at the start of the text. -/
def behind? (text : Text) : Option Text :=
  match scan text with
  | .complete _ rest => some (rest.drop (statementOffset rest))
  | _ => none

theorem length_of_behind? {text rest : Text}
    (found : behind? text = some rest) :
    rest.length < text.length := by
  unfold behind? at found
  split at found
  · next guard later scanned =>
      have shorter := length_of_scan_eq_complete scanned
      simp only [Option.some.injEq] at found
      rw [← found, List.length_drop]
      omega
  · simp at found

/-- The statement behind all complete guards at the start of the text.  A guard
without a terminator of its own shares its unit with the statement that
follows. -/
def skipAll (text : Text) : Text :=
  match _found : behind? text with
  | some rest => skipAll rest
  | none => text
termination_by text.length
decreasing_by exact length_of_behind? _found

end Guard

/-- A unit as its lead, made of trivia and complete guards, and the statement
behind it. -/
def splitStatement (text : Text) : Text × Text :=
  let body := Guard.skipAll (text.drop (statementOffset text))
  (text.take (text.length - body.length), body)

def firstKeyword (body : Text) : Text × Bool :=
  match Guard.scan body with
  | .complete guard _ =>
      (leadingWord (guard.inner.drop (statementOffset guard.inner)), true)
  | _ => (leadingWord body, false)

end SqlDump
