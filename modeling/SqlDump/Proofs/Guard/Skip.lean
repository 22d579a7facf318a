import SqlDump.Proofs.Guard.Lead
import SqlDump.Proofs.Lexer.Token
import SqlDump.Proofs.Offset.Progress

/-!
# What is skipped in front of a statement

Trivia in front of a text move the offset of its first token by their length.
What is skipped behind the first token are complete guards and the trivia behind
each of them, and no guard begins what is left.
-/

namespace SqlDump

/-- Either all of a text are trivia, or its first token stands at the offset and
trivia in front of it. -/
theorem statementOffset_cases (text : Text) :
    (statementOffset text = text.length ∧ OnlyTrivia text) ∨
      (statementOffset text < text.length ∧
        Trivia (text.take (statementOffset text)) ∧
        TokenAtStart (text.drop (statementOffset text))) := by
  rcases onlyTrivia_or_token text with
      only | ⟨front, token, rfl, trivia, begins⟩
  · exact .inl ⟨statementOffset_of_onlyTrivia only, only⟩
  · have offset : statementOffset (front ++ token) = front.length := by
      rw [statementOffset_append trivia, statementOffset_of_tokenAtStart begins,
        Nat.add_zero]
    have positive := List.length_pos_iff.mpr begins.nonempty
    rw [offset, List.take_left, List.drop_left, List.length_append]
    exact .inr ⟨Nat.lt_add_of_pos_right positive, trivia, begins⟩

namespace Offset

variable {counter : DepthCounter} {text lead rest : Text}

/-- The byte offset of the first token is the size of what stands in front of
it. -/
theorem statementOffset_eq_size (counts : counter.Counts {} text) :
    statementOffset counter text =
      .ok (Text.size (text.take (SqlDump.statementOffset text))) := by
  obtain ⟨front, token, rfl, offsetEq, same⟩ :=
    statementOffset_spec (.inr counts)
  rw [offsetEq, ← same counts, List.take_left]

theorem statementOffset_append (trivia : Trivia lead)
    (counts : counter.Counts {} (lead ++ rest)) :
    ∃ offset, statementOffset counter rest = .ok offset ∧
      statementOffset counter (lead ++ rest) = .ok (lead.size + offset) := by
  refine ⟨_, statementOffset_eq_size counts.suffix, ?_⟩
  rw [statementOffset_eq_size counts, SqlDump.statementOffset_append trivia,
    List.take_length_add_append, Text.size_append]

end Offset

/-- Trivia and complete guards in any order. -/
inductive Skippable : Text → Prop where
  | nil : Skippable []
  | trivia {front later : Text} (trivia : Trivia front)
      (behind : Skippable later) :
      Skippable (front ++ later)
  | guard {guard : Guard} {later : Text} (complete : guard.Begins guard.raw [])
      (behind : Skippable later) : Skippable (guard.raw ++ later)

namespace Guard

variable {guard : Guard} {text rest : Text}

theorem Begins.raw (begins : guard.Begins text rest) :
    guard.Begins guard.raw [] where
  split := (List.append_nil _).symm
  nonempty := begins.nonempty
  allDigits := begins.allDigits
  maximal := begins.maximal
  content := begins.content

private theorem not_begins_of_behind (noGuard : behind? text = none) :
    ¬guard.Begins text rest := by
  intro begins
  simp [behind?, begins.scan_eq] at noGuard

private theorem skipAll_nil : skipAll [] = [] :=
  skipAll_of_notGuard rfl

/-- Trivia and guards are skipped; if a comment among them is not closed, all of
the text is. -/
theorem skipAll_spec (text : Text) :
    ∃ front last, text = front ++ (last ++ skipAll text) ∧ Skippable front ∧
      (last = [] ∨ OnlyTrivia last ∧ skipAll text = []) ∧
      behind? (skipAll text) = none := by
  fun_induction skipAll text with
  | case1 text rest found ih =>
      obtain ⟨guard, later, scanned, rfl⟩ := behind?_spec found
      have begins := begins_of_scan scanned
      obtain ⟨front, last, split, skippable, ends, stops⟩ := ih
      rcases statementOffset_cases later with ⟨offset, only⟩ | ⟨-, trivia, -⟩
      · -- Nothing but trivia stands behind the guard, so there is nothing left
        -- to skip.
        have nothing : later.drop (statementOffset later) = [] := by
          rw [offset, List.drop_length]
        rw [nothing, skipAll_nil] at stops ⊢
        refine ⟨guard.raw ++ [], later, ?_, .guard begins.raw .nil,
          .inr ⟨only, rfl⟩, stops⟩
        rw [List.append_nil, List.append_nil]
        exact begins.split
      · refine ⟨guard.raw ++ (later.take (statementOffset later) ++ front),
          last, ?_, .guard begins.raw (.trivia trivia skippable), ends, stops⟩
        rw [List.append_assoc, List.append_assoc, ← split,
          List.take_append_drop]
        exact begins.split
  | case2 text noGuard => exact ⟨[], [], rfl, .nil, .inl rfl, noGuard⟩

end Guard

namespace Offset

def TakesBytes (places : GuardPlaces) : Prop :=
  ∀ start stop version finish, places = .complete start stop version finish →
  0 < finish

theorem takesBytes_notGuard : TakesBytes .notGuard := by
  simp [TakesBytes]

theorem takesBytes_incomplete : TakesBytes .incomplete := by
  simp [TakesBytes]

variable {counter : DepthCounter} {text : Text}

private theorem takesBytes_contentTurn {octets : Text}
    {start version place : Nat} {lexer : Lexer} {places : GuardPlaces}
    (stops : contentTurn counter octets start version lexer place =
        .ok (.stop places)) :
    TakesBytes places := by
  obtain ⟨stepped, -, rest⟩ := Checked.of_bind stops
  dsimp only at rest
  split at rest
  · obtain rfl := Turn.stop.inj (Except.ok.inj rest)
    exact takesBytes_incomplete
  · split at rest
    · obtain rfl := Turn.stop.inj (Except.ok.inj rest)
      intro _ _ _ finish same
      cases same
      omega
    · simp at rest

private theorem takesBytes_scanGuard {places : GuardPlaces}
    (found : scanGuard counter text = .ok places) :
    TakesBytes places := by
  unfold scanGuard at found
  split at found
  · obtain rfl := Except.ok.inj found
    exact takesBytes_notGuard
  · obtain ⟨stepped, -, behind⟩ := Checked.of_bind found
    unfold guardBehind at behind
    split at behind
    · next start inside =>
        obtain ⟨digits, -, walked⟩ := Checked.of_bind behind
        have forward (lexer : Lexer) (place : Nat) :
            Forward (contentTurn counter text.octets start
              (versionOfDigits digits) lexer place) :=
          forward_contentTurn start (versionOfDigits digits)
        obtain ⟨turns, -, runs⟩ :=
          runsLoop_walk forward (fun _ _ => .incomplete) inside start
        exact runs.holds (fun _ _ _ => takesBytes_contentTurn)
          (fun _ _ _ => takesBytes_incomplete) _ walked
    · obtain rfl := Except.ok.inj behind
      exact takesBytes_incomplete
    · obtain rfl := Except.ok.inj behind
      exact takesBytes_notGuard

private theorem lt_of_skipGuard {offset next : Nat}
    (found : skipGuard counter text offset = .ok (some next)) :
    offset < next := by
  obtain ⟨body, -, scanned⟩ := Checked.of_bind found
  obtain ⟨places, placesEq, skipped⟩ := Checked.of_bind scanned
  split at skipped
  · next finish =>
      obtain ⟨behind, -, trivia⟩ := Checked.of_bind skipped
      obtain ⟨length, -, last⟩ := Checked.of_bind trivia
      have positive := takesBytes_scanGuard placesEq _ _ _ _ rfl
      obtain rfl := Option.some.inj (Except.ok.inj last)
      omega
  · simp at skipped

private theorem forward_skipTurn (state : Unit) (offset : Nat) :
    Forward (skipTurn counter text state offset) := by
  refine .bind fun found foundEq => ?_
  cases found with
  | none => exact forward_stop offset
  | some next =>
      exact forward_goOn () (Nat.sub_pos_of_lt (lt_of_skipGuard foundEq))

private theorem skipGuards_eq_size {skipped body : Text} (lead : Text)
    (split : body = skipped ++ Guard.skipAll body)
    (counts : counter.Counts {} body) :
    skipGuards counter (lead ++ body) lead.size =
      .ok (Text.size (lead ++ skipped)) := by
  obtain ⟨front, rest, whole, placeEq, same⟩ :=
    skipGuards_spec lead body (.inr counts)
  rw [same counts, whole] at split
  rw [placeEq, List.append_cancel_right split]

end Offset

/-- Trivia in front of a text move the offset of its first token by their
length.  What stands in front of the first token are trivia, and a comment among
them is unclosed only if there is no token.  The loop that skips guards ends for
every text and every offset.  It skips complete guards and trivia, and no
complete guard begins what it leaves. -/
theorem leading_trivia_compose :
    (∀ lead rest : Text, Trivia lead →
      statementOffset (lead ++ rest) = lead.length + statementOffset rest ∧
      ∀ counter : DepthCounter, counter.Counts {} (lead ++ rest) →
        ∃ offset, Offset.statementOffset counter rest = .ok offset ∧
          Offset.statementOffset counter (lead ++ rest) =
            .ok (lead.size + offset)) ∧
    (∀ text : Text,
      ((statementOffset text = text.length ∧ OnlyTrivia text) ∨
        (statementOffset text < text.length ∧
          Trivia (text.take (statementOffset text)) ∧
          TokenAtStart (text.drop (statementOffset text)))) ∧
      ∀ counter : DepthCounter, counter.Counts {} text →
        Offset.statementOffset counter text =
          .ok (Text.size (text.take (statementOffset text)))) ∧
    (∀ (counter : DepthCounter) (text : Text) (offset : Nat),
      ∃ turns, turns ≤ text.size + 1 - offset ∧
        RunsLoop (text.size + 1) (Offset.skipTurn counter text)
          (fun _ place => place) () offset turns
          (Offset.skipGuards counter text offset)) ∧
    ∀ body : Text, ∃ front last, body = front ++ (last ++ Guard.skipAll body) ∧
      Skippable front ∧
      (last = [] ∨ OnlyTrivia last ∧ Guard.skipAll body = []) ∧
      (∀ (guard : Guard) (rest : Text),
        ¬guard.Begins (Guard.skipAll body) rest) ∧
      ∀ (counter : DepthCounter) (lead : Text), counter.Counts {} body →
        Offset.skipGuards counter (lead ++ body) lead.size =
          .ok (Text.size (lead ++ (front ++ last))) := by
  refine ⟨fun lead rest trivia => ?_, fun text => ?_,
    fun counter text offset => ?_, fun body => ?_⟩
  · exact ⟨statementOffset_append trivia rest,
      fun counter counts => Offset.statementOffset_append trivia counts⟩
  · exact ⟨statementOffset_cases text,
      fun counter counts => Offset.statementOffset_eq_size counts⟩
  · exact runsLoop_walk Offset.forward_skipTurn (fun _ place => place) () offset
  · obtain ⟨front, last, split, skippable, ends, stops⟩ :=
      Guard.skipAll_spec body
    refine ⟨front, last, split, skippable, ends,
      fun guard rest => Guard.not_begins_of_behind stops,
        fun counter lead counts => ?_⟩
    rw [← List.append_assoc] at split
    exact Offset.skipGuards_eq_size lead split counts

private theorem trivia_nested : Trivia "/*/**/*/#\n".toList := by
  have line : Trivia (['#'] ++ '\n' :: []) := .line (.inl rfl) (by decide) .nil
  have inner :
      CommentText (commentMarker ++ (closingMarker ++ closingMarker)) :=
    .nested .close .close
  exact Trivia.comment (by decide) inner line

/-- What could close a comment at the start of a text does not close one in
front of it. -/
theorem leading_trivia_compose_nested :
    statementOffset ("/*/**/*/#\n".toList ++ "*/".toList) =
      10 + statementOffset "*/".toList :=
  (leading_trivia_compose.1 _ _ trivia_nested).1

end SqlDump
