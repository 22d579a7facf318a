import SqlDump.Proofs.Guard.Content
import SqlDump.Proofs.Lexer.Separator
import SqlDump.Proofs.Pipeline.Suppression

/-!
# The lead of a unit

Where the statement of a unit begins is decided in front of its first character,
if this character ends whatever stands before it.  So the lead stays the lead,
whatever becomes of the statement.
-/

namespace SqlDump

/-- The character is a token of its own or begins one, behind whatever text. -/
structure BeginsToken (character : Char) : Prop where
  separates : Lexer.Separator character
  notBlank : isAsciiBlank character = false
  plain : character ∉ Lexer.openers

theorem beginsToken_of_isAlpha {character : Char}
    (letter : character.isAlpha = true) :
    BeginsToken character := by
  have noMark : character ∉ ['-', '*', '/', '!'] :=
    Lexer.not_mem_of_all (by decide) letter
  have noOpener : character ∉ Lexer.openers :=
    Lexer.not_mem_of_all (by decide) letter
  have noDigit : character.isDigit = false := by
    refine Bool.eq_false_iff.mpr fun digit => ?_
    obtain ⟨-, largest⟩ := (Bool.and_eq_true _ _).mp digit
    have code : character.toNat ≤ 57 :=
      UInt32.le_iff_toNat_le.mp (of_decide_eq_true largest)
    rcases (Bool.or_eq_true _ _).mp letter with upper | lower
    · have bounds := toNat_of_isUpper upper
      omega
    · have bounds := toNat_of_isLower lower
      omega
  have notBlank : isAsciiBlank character = false := by
    refine Bool.eq_false_iff.mpr fun blank => ?_
    have member : character ∈ [' ', '\t', '\n', '\x0C', '\r'] := by
      simpa [isAsciiBlank, or_assoc] using blank
    exact Lexer.not_mem_of_all (by decide) letter member
  exact ⟨⟨noMark, noDigit⟩, notBlank, noOpener⟩

variable {token : Char} {front rest text : Text}

theorem inCodeAt_behind {steps : List Step}
    (reads : Lexer.Reads {} (front ++ rest) steps {} rest) (count : Nat) :
    ({} : Lexer).inCodeAt (front ++ rest) (front.length + count) =
      ({} : Lexer).inCodeAt rest count := by
  have inCode : ({} : Lexer).inCodeAt (front ++ rest) front.length = true :=
    reads.inCodeAt_append
  rw [Lexer.inCodeAt_add count Lexer.proper_start inCode, List.drop_left]

/-- The trivia in front of a token end where they end, whatever follows the
token. -/
theorem statementOffset_token (begins : BeginsToken token) {first : Text}
    (inCode : ({} : Lexer).inCodeAt (front ++ token :: first) front.length =
        true) :
    ∃ trivia more, front = trivia ++ more ∧
      (∀ rest, statementOffset (front ++ token :: rest) = trivia.length) ∧
      ({} : Lexer).inCodeAt (more ++ token :: first) more.length = true := by
  have offset (second : Text) :
      statementOffset (front ++ token :: first) =
        statementOffset (front ++ token :: second) ∧
        statementOffset (front ++ token :: first) ≤ front.length :=
    Lexer.triviaLength_before_separator begins.separates begins.notBlank
      begins.plain {} front first
      second inCode
  have within := (offset first).2
  have dropEq :
      (front ++ token :: first).drop
        (statementOffset (front ++ token :: first)) =
      front.drop (statementOffset (front ++ token :: first)) ++
        token :: first :=
    List.drop_append_of_le_length within
  obtain ⟨steps, reads⟩ :=
    reads_statementOffset (front ++ token :: first) (by simp [dropEq])
  rw [dropEq] at reads
  refine ⟨front.take (statementOffset (front ++ token :: first)),
    front.drop (statementOffset (front ++ token :: first)),
      (List.take_append_drop _ _).symm,
    fun rest => ?_, ?_⟩
  · rw [List.length_take, Nat.min_eq_left within]
    exact (offset rest).1.symm
  · obtain ⟨trivia, more, frontEq, moreEq⟩ : ∃ trivia more,
      front = trivia ++ more ∧
        front.drop (statementOffset (front ++ token :: first)) = more :=
      ⟨_, _, (List.take_append_drop _ _).symm, rfl⟩
    rw [moreEq] at reads ⊢
    rw [frontEq, List.append_assoc] at reads
    rw [frontEq, List.append_assoc, List.length_append, inCodeAt_behind reads]
      at inCode
    exact inCode

namespace Guard

theorem scan_token (begins : BeginsToken token) (rest : Text) :
    scan (token :: rest) = .notGuard := by
  apply scan_of_noMarker
  have noSlash : '/' ≠ token := fun same =>
    begins.separates.noMark (same ▸ by decide)
  simp [guardMarker, noSlash]

theorem skipAll_of_notGuard (noGuard : behind? text = none) :
    skipAll text = text := by
  rw [skipAll]
  split
  · next found => rw [noGuard] at found; simp at found
  · rfl

theorem skipAll_of_behind (found : behind? text = some rest) :
    skipAll text = skipAll rest := by
  rw [skipAll]
  split
  · next other foundOther =>
      rw [found, Option.some.injEq] at foundOther; rw [foundOther]
  · next noGuard => rw [found] at noGuard; simp at noGuard

theorem skipAll_token (begins : BeginsToken token) (rest : Text) :
    skipAll (token :: rest) = token :: rest := by
  apply skipAll_of_notGuard
  rw [behind?, scan_token begins rest]

private theorem suffix_skipAll (text : Text) : skipAll text <:+ text := by
  fun_induction skipAll text with
  | case1 text rest found ih =>
      unfold behind? at found
      split at found
      · next guard later scanned =>
          obtain rfl := Option.some.inj found
          have split := (begins_of_scan scanned).split
          rw [split]
          exact
            ((ih.trans (List.drop_suffix _ _)).trans (List.suffix_append _ _))
      · simp at found
  | case2 text noGuard => exact List.suffix_refl text

private theorem skipAll_front (begins : BeginsToken token) {first : Text}
    (inCode : ({} : Lexer).inCodeAt (front ++ token :: first) front.length =
        true) (reaches : skipAll (front ++ token :: first) = token :: first)
    (second : Text) :
    skipAll (front ++ token :: second) = token :: second := by
  generalize whole : front ++ token :: first = text at inCode reaches
  fun_induction skipAll text generalizing front with
  | case1 text behind found ih =>
      obtain ⟨guard, later, scanned, rfl⟩ := behind?_spec found
      obtain ⟨splitText, steps, crossed⟩ := reads_of_scan_complete scanned
      -- The guard and the trivia behind it stand in front of the token.
      obtain ⟨between, laterEq⟩ : token :: first <:+ later := by
        rw [← reaches]
        exact (suffix_skipAll _).trans (List.drop_suffix _ _)
      subst laterEq
      have frontEq : front = guard.raw ++ between := by
        apply List.append_cancel_right
        rw [whole, splitText, List.append_assoc]
      subst frontEq
      rw [splitText] at crossed
      rw [splitText, List.length_append, inCodeAt_behind crossed] at inCode
      obtain ⟨trivia, more, rfl, offset, inCodeMore⟩ :=
        statementOffset_token begins inCode
      have dropEq (rest : Text) :
          (trivia ++ more ++ token :: rest).drop trivia.length =
            more ++ token :: rest := by
        rw [List.append_assoc, List.drop_left]
      have foundSecond :
          behind? (guard.raw ++ (trivia ++ more ++ token :: second)) =
            some (more ++ token :: second) := by
        rw [behind?, (begins_of_scan scanned).front]
        dsimp only
        rw [offset, dropEq]
      rw [offset, dropEq] at ih reaches
      rw [List.append_assoc, skipAll_of_behind foundSecond]
      exact ih rfl inCodeMore reaches
  | case2 text noGuard =>
      have nothing : front = [] := by
        have lengths := congrArg List.length (whole.trans reaches)
        simpa using lengths
      subst nothing
      exact skipAll_token begins second

end Guard

theorem statementOffset_of_beginsToken (begins : BeginsToken token)
    (rest : Text) :
    statementOffset (token :: rest) = 0 :=
  Lexer.triviaLength_of_plain rest Lexer.atTopLevel_start begins.plain
    begins.notBlank

theorem splitStatement_of_beginsToken (begins : BeginsToken token)
    (rest : Text) :
    splitStatement (token :: rest) = ([], token :: rest) := by
  rw [splitStatement, statementOffset_of_beginsToken begins, List.drop_zero,
    Guard.skipAll_token begins, Nat.sub_self]
  rfl

/-- A unit whose statement begins with a token keeps its lead, whatever follows
the token. -/
theorem splitStatement_token (begins : BeginsToken token) {lead first : Text}
    (split : splitStatement (lead ++ token :: first) = (lead, token :: first))
    (second : Text) :
    splitStatement (lead ++ token :: second) = (lead, token :: second) := by
  obtain ⟨-, -, read⟩ := splitStatement_spec (lead ++ token :: first)
  rw [split] at read
  obtain ⟨steps, reads⟩ := read (List.cons_ne_nil token first)
  obtain ⟨trivia, more, rfl, offset, inCode⟩ :=
    statementOffset_token begins reads.inCodeAt_append
  have reaches (rest : Text) :
      splitStatement (trivia ++ more ++ token :: rest) =
        (trivia ++ more, token :: rest) ↔
        Guard.skipAll (more ++ token :: rest) = token :: rest := by
    have dropEq : (trivia ++ more ++ token :: rest).drop trivia.length =
        more ++ token :: rest := by
      rw [List.append_assoc, List.drop_left]
    rw [splitStatement, offset, dropEq, Prod.mk.injEq]
    refine ⟨And.right, fun same => ⟨?_, same⟩⟩
    rw [same, List.length_append, Nat.add_sub_cancel, List.take_left]
  exact (reaches second).mpr
    (Guard.skipAll_front begins inCode ((reaches first).mp split) second)

end SqlDump
