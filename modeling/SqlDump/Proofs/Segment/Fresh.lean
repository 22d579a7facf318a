import SqlDump.Proofs.Segment.First

/-!
# Behind the end of a stream

The end of a stream leaves the digits of the last guard and the line of the last
comment in the scanner.  They are read inside a guard or a comment only, and the
step that opens one writes them anew.  So nothing that a scanner is asked later
tells it from a new one.
-/

namespace SqlDump

theorem Lexer.Outcome.inside {lexer after : Lexer} {input : Text} {taken : Step}
    (outcome : Lexer.Outcome lexer input taken after)
    (inside : after.depth ≠ 0) :
    lexer.depth ≠ 0 ∨ taken = .openPlain ∨ ∃ count,
      taken = .openGuard count := by
  cases outcome with
  | character head tail => exact .inl inside
  | dashes code tail => exact .inl inside
  | marker top tail => exact .inl inside
  | openGuard top digits tail nonempty allDigits => exact .inr (.inr ⟨_, rfl⟩)
  | openPlain code tail => exact .inr (.inl rfl)
  | close deeper tail => exact .inl (Nat.ne_of_gt deeper)

namespace Scanner

inductive Call where
  | feed (chunk : Text)
  | finish
deriving DecidableEq, Repr

/-- What a caller sees of a call, with what the scanner tells about itself
behind the call. -/
structure Answer (σ : Type) where
  segments : List σ
  openComment : Option OpenComment
  mode : ScanMode
  depth : Nat
  buffered : Nat
deriving DecidableEq, Repr

def call (scanner : Scanner) :
    Call → Scanner × List Segment × Option OpenComment
  | .feed chunk => ((scanner.feed chunk).1, (scanner.feed chunk).2, none)
  | .finish => scanner.finish

def answers (scanner : Scanner) : List Call → List (Answer Segment)
  | [] => []
  | call :: calls =>
      let (moved, segments, openComment) := scanner.call call
      ⟨segments, openComment, moved.mode, moved.lexer.depth, moved.buffered⟩ ::
        moved.answers calls

/-- The scanners differ at most in the digits of a guard that was left and in
the line of a comment that was left. -/
structure Alike (scanner other : Scanner) : Prop where
  lexer : scanner.lexer = other.lexer
  ahead : scanner.ahead = other.ahead
  gathered : scanner.gathered = other.gathered
  line : scanner.line = other.line
  digits : other.lexer.guarded = true → scanner.digits = other.digits
  openedAt : other.lexer.depth ≠ 0 → scanner.openedAt = other.openedAt

variable {scanner other : Scanner} {input : Text} {taken : Step} {after : Lexer}

theorem Alike.mode (alike : scanner.Alike other) :
    scanner.mode = other.mode := by
  unfold Scanner.mode
  rw [alike.lexer]

theorem Alike.buffered (alike : scanner.Alike other) :
    scanner.buffered = other.buffered := by
  unfold Scanner.buffered
  rw [alike.lexer, alike.gathered, alike.ahead]
  split
  · next guarded => rw [alike.digits guarded]
  · rfl

theorem Alike.openComment? (alike : scanner.Alike other) :
    scanner.openComment? = other.openComment? := by
  unfold Scanner.openComment? Scanner.mode
  rw [alike.lexer]
  by_cases outside : other.lexer.depth = 0
  · simp [outside]
  · cases guarded : other.lexer.guarded with
    | true => simp [outside, alike.digits guarded, alike.openedAt outside]
    | false => simp [outside, alike.openedAt outside]

/-- A step that opens nothing keeps what is still in use. -/
theorem Alike.pass (alike : scanner.Alike other)
    (outcome : Lexer.Outcome other.lexer input taken after)
    (noGuard : ∀ count, taken ≠ .openGuard count)
    (noComment : taken = .openPlain → other.lexer.depth ≠ 0) (count : Nat)
    (piece : Text) :
    Alike
      ({ scanner with
        lexer := after, line := scanner.line + count }.gather piece)
      ({ other with
        lexer := after, line := other.line + count }.gather piece) where
  lexer := rfl
  ahead := alike.ahead
  gathered := congrArg (piece.reverse ++ ·) alike.gathered
  line := congrArg (· + count) alike.line
  digits := by
    intro guarded
    rcases outcome.guarded guarded with was | ⟨digits, opens⟩
    · exact alike.digits was
    · exact absurd opens (noGuard digits)
  openedAt := by
    intro inside
    rcases outcome.inside inside with was | opens | ⟨digits, opens⟩
    · exact alike.openedAt was
    · exact alike.openedAt (noComment opens)
    · exact absurd opens (noGuard digits)

theorem Alike.advance (alike : scanner.Alike other)
    (outcome : Lexer.Outcome other.lexer input taken after) (piece : Text) :
    (scanner.advance taken after piece).1.Alike
      (other.advance taken after piece).1 ∧
      (scanner.advance taken after piece).2 =
        (other.advance taken after piece).2 := by
  unfold Scanner.advance
  cases taken with
  | needMore => nomatch outcome
  | openGuard count =>
      refine ⟨⟨rfl, alike.ahead, rfl, alike.line, fun _ => rfl,
        fun _ => alike.line⟩, ?_⟩
      exact congrArg textSegment alike.gathered
  | openPlain =>
      dsimp only
      rw [alike.lexer]
      split
      · next outside =>
          have plain (guarded : after.guarded = true) :
              scanner.digits = other.digits := by
            rcases outcome.guarded guarded with was | ⟨count, opens⟩
            · exact alike.digits was
            · nomatch opens
          have sameText := congrArg (piece.reverse ++ ·) alike.gathered
          exact ⟨⟨rfl, alike.ahead, sameText, alike.line, plain,
            fun _ => alike.line⟩, rfl⟩
      · next inside =>
          exact ⟨alike.pass outcome (by simp) (fun _ => inside) 0 piece, rfl⟩
  | close =>
      dsimp only
      rw [alike.lexer]
      split
      · next ends =>
          obtain ⟨inside, -⟩ := outcome.close_spec
          have wasInside : other.lexer.depth ≠ 0 := Nat.ne_of_gt inside
          refine ⟨⟨rfl, alike.ahead, rfl, alike.line,
            fun _ => alike.digits ends.1, fun open_ => absurd ends.2 open_⟩, ?_⟩
          rw [alike.digits ends.1, alike.gathered, alike.openedAt wasInside]
      · exact ⟨alike.pass outcome (by simp) (by simp) 0 piece, rfl⟩
  | skip count =>
      dsimp only
      split
      · exact ⟨alike.pass outcome (by simp) (by simp) 1 piece, rfl⟩
      · exact ⟨alike.pass outcome (by simp) (by simp) 0 piece, rfl⟩

theorem Alike.withAhead (alike : scanner.Alike other) (waiting : Text) :
    (scanner.withAhead waiting).Alike (other.withAhead waiting) :=
  ⟨alike.lexer, rfl, alike.gathered, alike.line, alike.digits, alike.openedAt⟩

theorem Alike.release (alike : scanner.Alike other) :
    scanner.release.1.Alike other.release.1 ∧
      scanner.release.2 = other.release.2 := by
  unfold Scanner.release
  have sameGuard := congrArg Lexer.guarded alike.lexer
  rw [sameGuard]
  split
  · exact ⟨alike, rfl⟩
  · exact ⟨⟨alike.lexer, alike.ahead, rfl, alike.line, alike.digits,
      alike.openedAt⟩, congrArg textSegment alike.gathered⟩

/-- Scanners that are alike give the same segments and stay alike. -/
theorem Alike.scan (atEnd : Bool) (rest : Text) (alike : scanner.Alike other) :
    (scanner.scan atEnd rest).1.Alike (other.scan atEnd rest).1 ∧
      (scanner.scan atEnd rest).2 = (other.scan atEnd rest).2 := by
  induction other, rest using scan_induction atEnd generalizing scanner with
  | nil other =>
      rw [scan_nil, scan_nil]
      exact (alike.withAhead []).release
  | wait other head tail waits =>
      rw [scan_of_needMore other waits,
        scan_of_needMore scanner (alike.lexer ▸ waits)]
      exact (alike.withAhead (head :: tail)).release
  | step other head tail taken after stepEq decided ih =>
      have sameStep : scanner.lexer.step atEnd (head :: tail) =
          (taken, after) := by
        rw [alike.lexer]
        exact stepEq
      have outcome := Lexer.outcome_of_step stepEq decided
      obtain ⟨moved, given⟩ :=
        alike.advance outcome ((head :: tail).take taken.consumed)
      obtain ⟨later, segments⟩ := ih moved
      rw [scan_of_decided other stepEq decided,
        scan_of_decided scanner sameStep decided, given, segments]
      exact ⟨later, rfl⟩

theorem Alike.feed (alike : scanner.Alike other) (chunk : Text) :
    (scanner.feed chunk).1.Alike (other.feed chunk).1 ∧
      (scanner.feed chunk).2 = (other.feed chunk).2 := by
  unfold Scanner.feed
  rw [alike.ahead]
  exact alike.scan false (other.ahead ++ chunk)

private theorem guarded_of_mode (inGuard : scanner.mode = .inGuard) :
    scanner.lexer.guarded = true := by
  unfold mode at inGuard
  split at inGuard
  · nomatch inGuard
  · split at inGuard
    · assumption
    · nomatch inGuard

theorem Alike.finish (alike : scanner.Alike other) :
    scanner.finish.1.Alike other.finish.1 ∧
      scanner.finish.2 = other.finish.2 := by
  unfold Scanner.finish
  rw [alike.ahead]
  obtain ⟨scanned, segments⟩ := alike.scan true other.ahead
  dsimp only
  refine ⟨⟨rfl, scanned.ahead, rfl, rfl, by simp, by simp⟩, ?_⟩
  rw [segments, scanned.openComment?, scanned.mode, scanned.gathered]
  split
  · next inGuard =>
      rw [scanned.digits (guarded_of_mode inGuard)]
  · rfl

theorem Alike.call (alike : scanner.Alike other) (call : Call) :
    (scanner.call call).1.Alike (other.call call).1 ∧
      (scanner.call call).2 = (other.call call).2 := by
  cases call with
  | feed chunk =>
      obtain ⟨fed, segments⟩ := alike.feed chunk
      exact ⟨fed, congrArg (·, none) segments⟩
  | finish => exact alike.finish

/-- No calls tell scanners apart that are alike. -/
theorem Alike.answers (alike : scanner.Alike other) (calls : List Call) :
    scanner.answers calls = other.answers calls := by
  induction calls generalizing scanner other with
  | nil => rfl
  | cons call calls ih =>
      obtain ⟨moved, given⟩ := alike.call call
      have segments := congrArg Prod.fst given
      have openComment := congrArg Prod.snd given
      rw [Scanner.answers, Scanner.answers]
      dsimp only
      rw [segments, openComment, moved.mode, moved.lexer, moved.buffered,
        ih moved]

theorem ahead_scan_true (scanner : Scanner) (rest : Text) :
    (scanner.scan true rest).1.ahead = [] := by
  induction scanner, rest using scan_induction true with
  | nil scanner =>
      rw [scan_nil]
      unfold release
      split <;> rfl
  | wait scanner head tail waits =>
      exact absurd waits (Lexer.step_true_ne_needMore head tail)
  | step scanner head tail taken after stepEq decided ih =>
      rw [scan_of_decided scanner stepEq decided]
      exact ih

/-- Whatever a scanner was fed, the end of the stream leaves it like a new
one. -/
theorem alike_finish (scanner : Scanner) : scanner.finish.1.Alike {} where
  lexer := rfl
  ahead := scanner.ahead_scan_true scanner.ahead
  gathered := rfl
  line := rfl
  digits := by simp
  openedAt := by simp

end Scanner

end SqlDump
