import SqlDump.Proofs.Lexer.Separator
import SqlDump.Proofs.Statement.Terminator

/-!
# The first unit of a stream

With the end of the text in sight the first unit is a statement exactly if the
first token begins no directive and the terminator in force stands in code.  The
statement ends with the first such terminator.
-/

namespace SqlDump

/-- The first token of the text is the keyword of a directive. -/
def BeginsDirective (text : Text) : Prop :=
  ∃ length, directiveLength true (text.drop (statementOffset text)) =
    .found length

instance (text : Text) : Decidable (BeginsDirective text) :=
  match probe : directiveLength true (text.drop (statementOffset text)) with
  | .found length => .isTrue ⟨length, probe⟩
  | .absent => .isFalse fun ⟨_, found⟩ => by simp [probe] at found
  | .needMore => .isFalse fun ⟨_, found⟩ => by simp [probe] at found

section Directives

variable {text : Text} {length : Nat}

theorem directiveLength_true_found_iff :
    (∃ length, directiveLength true text = .found length) ↔
      ∃ keyword padding rest, text = keyword ++ padding :: rest ∧
        Text.sameAsciiWord directiveKeyword keyword = true ∧
        isPadding padding = true := by
  have sameLength {keyword : Text}
      (same : Text.sameAsciiWord directiveKeyword keyword = true) :
      keyword.length = directiveKeyword.length := by
    simp only [Text.sameAsciiWord, beq_iff_eq] at same
    simpa using (congrArg List.length same).symm
  constructor
  · rintro ⟨length, found⟩
    unfold directiveLength at found
    split at found
    · split at found <;> simp at found
    · next separator rest dropped =>
        split at found
        · next keyword =>
            simp only [Bool.and_eq_true] at keyword
            refine ⟨_, separator, rest, ?_, keyword.1, keyword.2⟩
            rw [← dropped, List.take_append_drop]
        · simp at found
  · rintro ⟨keyword, padding, rest, rfl, same, pads⟩
    have front := sameLength same
    unfold directiveLength
    rw [List.drop_left' front, List.take_left' front]
    simp only [same, pads, Bool.and_self, if_true]
    split
    · exact ⟨_, rfl⟩
    · exact ⟨_, rfl⟩

theorem head_of_directive {head : Char} {tail : Text}
    (found : directiveLength true (head :: tail) = .found length) :
    (head.toLower == 'd') = true := by
  obtain ⟨keyword, padding, rest, split, same, -⟩ :=
    directiveLength_true_found_iff.mp ⟨_, found⟩
  cases keyword with
  | nil => simp [Text.sameAsciiWord, directiveKeyword] at same
  | cons first keyword =>
      obtain ⟨rfl, -⟩ := List.cons.inj split
      simp only [Text.sameAsciiWord, directiveKeyword, List.map_cons,
        beq_iff_eq, List.cons.injEq] at same
      rw [← same.1]
      decide

end Directives

/-- Behind `count` characters of the text the word stands in code for the first
time. -/
structure Lexer.FirstInCode (lexer : Lexer) (word text : Text) (count : Nat) :
    Prop where
  inCode : lexer.inCodeAt text count = true
  here : word <+: text.drop count
  first : ∀ earlier < count, lexer.inCodeAt text earlier = true →
    ¬word <+: text.drop earlier

instance (lexer : Lexer) (word text : Text) (count : Nat) :
    Decidable (lexer.FirstInCode word text count) :=
  decidable_of_iff
    (lexer.inCodeAt text count = true ∧ word <+: text.drop count ∧
      ∀ earlier < count, lexer.inCodeAt text earlier = true →
      ¬word <+: text.drop earlier)
    ⟨fun ⟨inCode, here, first⟩ => ⟨inCode, here, first⟩,
      fun ⟨inCode, here, first⟩ => ⟨inCode, here, first⟩⟩

section

variable {separator : Char} {text more first : Text}

theorem Lexer.FirstInCode.congr_behind {lexer : Lexer}
    (separates : Lexer.Separator separator)
    (found : lexer.FirstInCode (separator :: more)
        (text ++ (separator :: more ++ first)) text.length) (second : Text) :
    lexer.FirstInCode (separator :: more)
      (text ++ (separator :: more ++ second)) text.length := by
  have same {count : Nat} (within : count ≤ text.length) :
      lexer.inCodeAt (text ++ (separator :: more ++ first)) count =
        lexer.inCodeAt (text ++ (separator :: more ++ second)) count :=
    lexer.inCodeAt_before_separator separates text _ _ within
  refine ⟨(same (Nat.le_refl _)).symm.trans found.inCode, ?_, ?_⟩
  · rw [List.drop_left]
    exact List.prefix_append _ _
  · intro earlier before inCode
    have other :=
      found.first earlier before ((same (Nat.le_of_lt before)).trans inCode)
    intro here
    apply other
    rw [List.drop_append_of_le_length (Nat.le_of_lt before),
      ← List.append_assoc] at here ⊢
    have fits := List.prefix_of_prefix_length_le here
      (List.prefix_append _ second) (by simp)
    exact fits.trans (List.prefix_append _ first)

/-- A directive in front of a terminator has its keyword and a blank in front of
it. -/
theorem directive_congr_behind (visible : isAsciiBlank separator = false)
    (noLetter : separator.toLower ∉ directiveKeyword.map Char.toLower)
    (found : ∃ length, directiveLength true (text ++ separator :: first) =
        .found length) (second : Text) :
    ∃ length, directiveLength true (text ++ separator :: second) =
      .found length := by
  obtain ⟨keyword, padding, rest, split, same, pads⟩ :=
    directiveLength_true_found_iff.mp found
  have other : separator ≠ padding := by
    rintro rfl
    simp only [isPadding, Bool.or_eq_true, beq_iff_eq] at pads
    rcases pads with rfl | rfl <;> exact absurd visible (by decide)
  apply directiveLength_true_found_iff.mpr
  rcases List.append_eq_append_iff.mp split with
    ⟨missing, keywordEq, restEq⟩ | ⟨missing, textEq, restEq⟩
  · cases missing with
    | nil => exact absurd (List.cons.inj restEq).1 other
    | cons head missing =>
        obtain ⟨rfl, -⟩ := List.cons.inj restEq
        have member : separator ∈ keyword := by
          rw [keywordEq]
          exact List.mem_append_right text (List.mem_cons_self ..)
        simp only [Text.sameAsciiWord, beq_iff_eq] at same
        rw [same] at noLetter
        exact absurd (List.mem_map_of_mem member) noLetter
  · cases missing with
    | nil => exact absurd (List.cons.inj restEq).1.symm other
    | cons head missing =>
        obtain ⟨rfl, -⟩ := List.cons.inj restEq
        refine ⟨keyword, padding, missing ++ separator :: second, ?_, same,
          pads⟩
        rw [textEq, List.append_assoc]
        rfl

theorem BeginsDirective.congr_behind (separates : Lexer.Separator separator)
    (visible : isAsciiBlank separator = false)
    (plain : separator ∉ Lexer.openers)
    (noLetter : separator.toLower ∉ directiveKeyword.map Char.toLower)
    (inCode : ({} : Lexer).inCodeAt (text ++ separator :: first) text.length =
        true) (begins : BeginsDirective (text ++ separator :: first))
    (second : Text) :
    BeginsDirective (text ++ separator :: second) := by
  obtain ⟨same, within⟩ : statementOffset (text ++ separator :: first) =
        statementOffset (text ++ separator :: second) ∧
      statementOffset (text ++ separator :: first) ≤ text.length :=
    Lexer.triviaLength_before_separator separates visible plain {} text first
      second inCode
  unfold BeginsDirective at begins ⊢
  rw [List.drop_append_of_le_length within] at begins
  rw [← same, List.drop_append_of_le_length within]
  exact directive_congr_behind visible noLetter begins second

end

theorem Lexer.Outcome.beginsComment {lexer after : Lexer} {text : Text}
    {taken : Step} (outcome : Outcome lexer text taken after)
    (top : lexer.atTopLevel = true) :
    Lexer.beginsComment (taken, after) =
      !(taken != .openPlain && after.lex != .lineComment) := by
  simp only [atTopLevel, Bool.and_eq_true, beq_iff_eq] at top
  have double (lex : Lex) : (lex == .lineComment) = !(lex != .lineComment) :=
    (Bool.not_not _).symm
  cases outcome with
  | character head tail => exact double _
  | dashes code tail => rfl
  | marker top tail => exact double _
  | openGuard code digits tail =>
      change false = !(lexer.lex != .lineComment)
      rw [top.2]
      rfl
  | openPlain code tail => rfl
  | close inside tail => exact absurd top.1 (Nat.ne_of_gt inside)

namespace StatementAssembler

variable {assembler moved : StatementAssembler} {count tailLength : Nat}

/-- The first token of the unit is the keyword of a directive. -/
structure Directs (assembler : StatementAssembler) : Prop where
  noToken : assembler.tokenSeen = false
  found : ∃ length, directiveLength true
    (assembler.ahead.drop (assembler.lexer.triviaLength assembler.ahead)) =
      .found length

/-- The terminator in force stands in code for the first time. -/
def FirstTerminator (assembler : StatementAssembler) (count : Nat) : Prop :=
  assembler.lexer.FirstInCode assembler.delimiter.text assembler.ahead count

/-- The terminator is no blank, and its characters do not begin or go on with a
longer step. -/
structure PlainDelimiter (assembler : StatementAssembler) : Prop where
  noBlank : ∀ head ∈ assembler.delimiter.text.head?, isAsciiBlank head = false
  noOpener : ∀ head ∈ assembler.delimiter.text.head?, head ∉ Lexer.openers
  noMark : ∀ head ∈ assembler.delimiter.text.head?, head ≠ '*' ∧ head ≠ '!'

theorem plain_of_letter {head : Char} (letter : (head.toLower == 'd') = true) :
    head ∉ Lexer.openers ∧ isAsciiBlank head = false := by
  constructor
  · have others : Lexer.openers.all (fun opener => !(opener.toLower == 'd')) =
        true := by decide
    exact Lexer.not_mem_of_all others letter
  · refine Bool.eq_false_iff.mpr fun blank => ?_
    simp only [isAsciiBlank, Bool.or_eq_true, beq_iff_eq] at blank
    rcases blank with (((rfl | rfl) | rfl) | rfl) | rfl <;>
      exact absurd letter (by decide)

theorem directs_of_probe {length : Nat}
    (probe : assembler.directiveProbe true = .found length) :
    assembler.Directs := by
  unfold directiveProbe at probe
  split at probe
  · next keyword =>
      simp only [Bool.and_eq_true, Bool.not_eq_true'] at keyword
      obtain ⟨⟨top, noToken⟩, letter⟩ := keyword
      refine ⟨noToken, length, ?_⟩
      cases aheadEq : assembler.ahead with
      | nil => simp [aheadEq] at letter
      | cons head tail =>
          simp only [aheadEq, List.head?_cons, Option.any_some] at letter
          obtain ⟨plain, visible⟩ := plain_of_letter letter
          rw [Lexer.triviaLength_of_plain tail top plain visible,
            List.drop_zero, ← aheadEq]
          exact probe
  · simp at probe

/-- A token that the probe passes by begins no directive. -/
theorem not_found_of_probe (top : assembler.lexer.atTopLevel = true)
    (noToken : assembler.tokenSeen = false)
    (probe : assembler.directiveProbe true = .absent) :
    ¬∃ length, directiveLength true assembler.ahead = .found length := by
  rintro ⟨length, found⟩
  cases aheadEq : assembler.ahead with
  | nil => simp [aheadEq, directiveLength] at found
  | cons head tail =>
      have letter := head_of_directive (aheadEq ▸ found)
      simp [directiveProbe, top, noToken, aheadEq, letter] at probe
      simp [aheadEq, probe] at found

/-- A lexed step from code reads a token if it reads neither a blank nor the
start of a comment. -/
theorem tokenSeen_lexOne (step : assembler.lexOne? true = some moved) :
    moved.tokenSeen = (assembler.tokenSeen ||
      (assembler.lexer.atTopLevel &&
        !(assembler.ahead.head?.any isAsciiBlank) &&
        !Lexer.beginsComment (assembler.lexer.step true assembler.ahead))) := by
  unfold lexOne? at step
  dsimp only at step
  split at step
  · simp at step
  · next decided =>
      simp only [Option.some.injEq] at step
      have outcome := Lexer.outcome_step decided
      rw [← step]
      generalize assembler.lexer.step true assembler.ahead = after at outcome ⊢
      obtain ⟨taken, after⟩ := after
      cases top : assembler.lexer.atTopLevel with
      | false => rfl
      | true =>
          rw [outcome.beginsComment top]
          simp [Bool.and_assoc]

private theorem directs_lexOne (step : assembler.lexOne? true = some moved)
    (probe : assembler.directiveProbe true = .absent) :
    moved.Directs ↔ assembler.Directs := by
  have seen := tokenSeen_lexOne step
  obtain ⟨-, lexerEq, aheadMoved, -, -, -⟩ := lexOne?_spec step
  cases noToken : assembler.tokenSeen with
  | true =>
      have seenThen : moved.tokenSeen = true := by simp [seen, noToken]
      constructor
      · intro directs
        exact absurd (directs.noToken.symm.trans seenThen) Bool.false_ne_true
      · intro directs
        exact absurd (directs.noToken.symm.trans noToken) Bool.false_ne_true
  | false =>
      cases aheadEq : assembler.ahead with
      | nil => simp [lexOne?, aheadEq, Lexer.step] at step
      | cons head tail =>
          have offset := assembler.lexer.triviaLength_cons head tail
          simp only [noToken, aheadEq, List.head?_cons, Option.any_some,
            Bool.false_or] at seen
          rw [← seen] at offset
          cases token : moved.tokenSeen with
          | true =>
              rw [token, if_pos rfl] at offset
              rw [token] at seen
              have top : assembler.lexer.atTopLevel = true := by
                simp only [Bool.true_eq, Bool.and_eq_true] at seen
                exact seen.1.1
              constructor
              · intro directs
                exact absurd (directs.noToken.symm.trans token)
                  Bool.false_ne_true
              · intro directs
                have found := directs.found
                rw [aheadEq, offset, List.drop_zero, ← aheadEq] at found
                exact absurd found (not_found_of_probe top noToken probe)
          | false =>
              rw [token, if_neg Bool.false_ne_true] at offset
              have same :
                  moved.ahead.drop (moved.lexer.triviaLength moved.ahead) =
                    assembler.ahead.drop
                      (assembler.lexer.triviaLength assembler.ahead) := by
                rw [aheadMoved, lexerEq, aheadEq, offset, List.drop_drop]
                rfl
              constructor
              · intro directs
                exact ⟨noToken, same ▸ directs.found⟩
              · intro directs
                exact ⟨token, same ▸ directs.found⟩

private theorem not_delimiter_inside (plain : assembler.PlainDelimiter)
    (inCode : assembler.lexer.inCodeAt assembler.ahead count = true)
    (positive : 0 < count)
    (inside : count < assembler.lexer.taken assembler.ahead) :
    ¬assembler.delimiter.text <+: assembler.ahead.drop count := by
  intro here
  obtain ⟨first, more, delimiterEq⟩ :=
    List.exists_cons_of_ne_nil assembler.delimiter.nonempty
  have noMark := plain.noMark first (by simp [delimiterEq])
  rw [delimiterEq] at here
  cases aheadEq : assembler.ahead with
  | nil => simp [aheadEq] at here
  | cons head tail =>
      rw [aheadEq] at inCode inside here
      obtain ⟨count, rfl⟩ := Nat.exists_eq_add_of_lt positive
      rw [Nat.zero_add] at inCode inside here
      rw [Lexer.inCodeAt, if_neg (Nat.not_le_of_lt inside)] at inCode
      simp only [Bool.and_eq_true] at inCode
      obtain ⟨later, markerEq, three, -⟩ :=
        Lexer.marker_of_stays inCode.1 inCode.2
          (Nat.lt_of_le_of_lt (Nat.succ_pos count) inside)
      rw [three] at inside
      rw [markerEq] at here
      obtain rfl | rfl : count = 0 ∨ count = 1 := by omega
      · exact noMark.1 (List.cons_prefix_cons.mp here).1
      · exact noMark.2 (List.cons_prefix_cons.mp here).1

theorem firstTerminator_lexOne (plain : assembler.PlainDelimiter)
    (step : assembler.lexOne? true = some moved)
    (noTerminator : assembler.behindDelimiter? = none) :
    assembler.FirstTerminator count ↔
      ∃ later, count = assembler.lexer.taken assembler.ahead + later ∧
        moved.FirstTerminator later := by
  obtain ⟨decided, lexerEq, aheadMoved, -, ⟨delimiterEq, -⟩, -⟩ :=
    lexOne?_spec step
  change moved.ahead =
    assembler.ahead.drop (assembler.lexer.taken assembler.ahead) at aheadMoved
  have behind (later : Nat) :
      assembler.lexer.inCodeAt assembler.ahead
        (assembler.lexer.taken assembler.ahead + later) =
        moved.lexer.inCodeAt moved.ahead later := by
    cases aheadEq : assembler.ahead with
    | nil => simp [aheadEq, Lexer.step] at decided
    | cons head tail =>
        rw [aheadMoved, lexerEq, aheadEq]
        exact assembler.lexer.inCodeAt_taken_add head tail later
  have early (earlier : Nat)
      (inside : earlier < assembler.lexer.taken assembler.ahead)
      (inCode : assembler.lexer.inCodeAt assembler.ahead earlier = true) :
      ¬assembler.delimiter.text <+: assembler.ahead.drop earlier := by
    intro here
    rcases Nat.eq_zero_or_pos earlier with rfl | positive
    · obtain ⟨rest, aheadEq⟩ := here
      rw [Lexer.inCodeAt_zero] at inCode
      have found := behindDelimiter?_eq_some_iff.mpr ⟨inCode, aheadEq.symm⟩
      rw [noTerminator] at found
      exact absurd found (Option.some_ne_none _).symm
    · exact not_delimiter_inside plain inCode positive inside here
  constructor
  · intro terminator
    obtain ⟨later, rfl⟩ := Nat.exists_eq_add_of_le
      (Nat.le_of_not_lt fun inside =>
        early count inside terminator.inCode terminator.here)
    refine ⟨later, rfl, ?_, ?_, ?_⟩
    · rw [← behind]
      exact terminator.inCode
    · rw [delimiterEq, aheadMoved, List.drop_drop]
      exact terminator.here
    · intro earlier before inCode
      rw [delimiterEq, aheadMoved, List.drop_drop]
      exact terminator.first _ (Nat.add_lt_add_left before _)
        ((behind earlier).trans inCode)
  · rintro ⟨later, rfl, terminator⟩
    refine ⟨(behind later).trans terminator.inCode, ?_, ?_⟩
    · have here := terminator.here
      rwa [delimiterEq, aheadMoved, List.drop_drop] at here
    · intro earlier before inCode
      rcases Nat.lt_or_ge earlier (assembler.lexer.taken assembler.ahead)
        with inside | outside
      · exact early earlier inside inCode
      · obtain ⟨count, rfl⟩ := Nat.exists_eq_add_of_le outside
        have other := terminator.first count (Nat.lt_of_add_lt_add_left before)
          ((behind count).symm.trans inCode)
        rwa [delimiterEq, aheadMoved, List.drop_drop] at other

private theorem not_directs_of_terminator (plain : assembler.PlainDelimiter)
    {behind : Text} (found : assembler.behindDelimiter? = some behind)
    (probe : assembler.directiveProbe true = .absent) : ¬assembler.Directs := by
  rintro ⟨noToken, directive⟩
  obtain ⟨top, aheadEq⟩ := behindDelimiter?_eq_some_iff.mp found
  obtain ⟨first, more, delimiterEq⟩ :=
    List.exists_cons_of_ne_nil assembler.delimiter.nonempty
  have offset : assembler.lexer.triviaLength assembler.ahead = 0 := by
    rw [aheadEq, delimiterEq]
    exact Lexer.triviaLength_of_plain _ top
      (plain.noOpener first (by simp [delimiterEq]))
      (plain.noBlank first (by simp [delimiterEq]))
  rw [offset, List.drop_zero] at directive
  exact not_found_of_probe top noToken probe directive

/-- The statement that the first terminator ends, where no directive comes
first. -/
def FirstStatement (assembler : StatementAssembler) (unit : StatementUnit) :
    Prop :=
  ¬assembler.Directs ∧ ∃ count tailLength, assembler.FirstTerminator count ∧
    unitTail? true
      (assembler.ahead.drop (count + assembler.delimiter.text.length)) =
      some tailLength ∧
    unit = ⟨.statement, assembler.atLineStart, assembler.lexed.reverse ++
      assembler.ahead.take (count + assembler.delimiter.text.length +
        tailLength)⟩

theorem firstStatement_takeStatement (plain : assembler.PlainDelimiter)
    {behind : Text} (found : assembler.behindDelimiter? = some behind)
    (known : unitTail? true behind = some tailLength)
    (probe : assembler.directiveProbe true = .absent) (unit : StatementUnit) :
    assembler.FirstStatement unit ↔
      unit = (assembler.takeStatement tailLength).2 := by
  obtain ⟨top, aheadEq⟩ := behindDelimiter?_eq_some_iff.mp found
  have here : assembler.FirstTerminator 0 :=
    ⟨by rwa [Lexer.inCodeAt_zero],
      by rw [aheadEq]; exact List.prefix_append _ _,
      fun earlier before => absurd before (Nat.not_lt_zero _)⟩
  have unitEq : (assembler.takeStatement tailLength).2 =
      ⟨.statement, assembler.atLineStart, assembler.lexed.reverse ++
        assembler.ahead.take
          (assembler.delimiter.text.length + tailLength)⟩ := by
    simp [takeStatement, cut]
  have dropEq : assembler.ahead.drop assembler.delimiter.text.length =
      behind := by
    rw [aheadEq, List.drop_left]
  constructor
  · rintro ⟨-, count, length, terminator, lengthEq, rfl⟩
    rcases Nat.eq_zero_or_pos count with rfl | positive
    · rw [Nat.zero_add, dropEq, known] at lengthEq
      obtain rfl := Option.some.inj lengthEq
      rw [Nat.zero_add]
      exact unitEq.symm
    · exact absurd here.here (terminator.first 0 positive here.inCode)
  · rintro rfl
    refine ⟨not_directs_of_terminator plain found probe, 0, tailLength,
      here, ?_, ?_⟩
    · rw [Nat.zero_add, dropEq]
      exact known
    · rw [Nat.zero_add]
      exact unitEq

theorem firstStatement_lexOne (plain : assembler.PlainDelimiter)
    (step : assembler.lexOne? true = some moved)
    (probe : assembler.directiveProbe true = .absent)
    (noTerminator : assembler.behindDelimiter? = none) (unit : StatementUnit) :
    moved.FirstStatement unit ↔ assembler.FirstStatement unit := by
  obtain ⟨-, -, aheadMoved, lexedEq, ⟨delimiterEq, lineEq⟩, -⟩ :=
    lexOne?_spec step
  change moved.ahead =
    assembler.ahead.drop (assembler.lexer.taken assembler.ahead) at aheadMoved
  change moved.lexed = (assembler.ahead.take
    (assembler.lexer.taken assembler.ahead)).reverse ++ assembler.lexed
      at lexedEq
  have dropEq (later : Nat) :
      moved.ahead.drop (later + moved.delimiter.text.length) =
        assembler.ahead.drop (assembler.lexer.taken assembler.ahead + later +
          assembler.delimiter.text.length) := by
    rw [aheadMoved, delimiterEq, List.drop_drop, Nat.add_assoc]
  have takeEq (later tailLength : Nat) : moved.lexed.reverse ++
        moved.ahead.take (later + moved.delimiter.text.length + tailLength) =
      assembler.lexed.reverse ++
        assembler.ahead.take (assembler.lexer.taken assembler.ahead + later +
          assembler.delimiter.text.length + tailLength) := by
    have sum : assembler.lexer.taken assembler.ahead + later +
        assembler.delimiter.text.length + tailLength =
          assembler.lexer.taken assembler.ahead +
            (later + assembler.delimiter.text.length + tailLength) := by omega
    rw [sum, aheadMoved, lexedEq, delimiterEq, List.reverse_append,
      List.reverse_reverse, List.append_assoc, ← List.take_add]
  unfold FirstStatement
  rw [directs_lexOne step probe, ← lineEq]
  refine and_congr_right fun _ => ?_
  constructor
  · rintro ⟨later, tailLength, terminator, lengthEq, rfl⟩
    refine ⟨_, tailLength,
      (firstTerminator_lexOne plain step noTerminator).mpr ⟨later, rfl,
        terminator⟩, ?_, ?_⟩
    · rw [← dropEq]
      exact lengthEq
    · rw [takeEq]
  · rintro ⟨count, tailLength, terminator, lengthEq, rfl⟩
    obtain ⟨later, rfl, terminatorThen⟩ :=
      (firstTerminator_lexOne plain step noTerminator).mp terminator
    refine ⟨later, tailLength, terminatorThen, ?_, ?_⟩
    · rw [dropEq]
      exact lengthEq
    · rw [takeEq]

/-- The first unit is a statement exactly if it is the one that the first
terminator ends. -/
theorem head?_run (assembler : StatementAssembler)
    (plain : assembler.PlainDelimiter) (unit : StatementUnit) :
    ((run true assembler []).2.head? = some unit ∧ unit.kind = .statement) ↔
      assembler.FirstStatement unit := by
  induction assembler using move_induction true with
  | stop assembler stops =>
      have empty : assembler.ahead = [] :=
        Decidable.byContradiction fun nonempty =>
          move?_true_ne_none nonempty stops
      rw [run_of_none [] stops]
      constructor
      · rintro ⟨first, -⟩
        simp at first
      · rintro ⟨-, count, tailLength, terminator, -, -⟩
        have here := terminator.here
        rw [empty, List.drop_nil, List.prefix_nil] at here
        exact absurd here assembler.delimiter.nonempty
  | step assembler moved finished moves ih =>
      rw [run_nil_of_some moves]
      cases move_of_move? moves with
      | directive probe =>
          constructor
          · rintro ⟨first, statement⟩
            obtain rfl := Option.some.inj first
            exact absurd statement (by simp [takeDirective, cut])
          · rintro ⟨noDirective, -⟩
            exact absurd (directs_of_probe probe) noDirective
      | @statement behind tailLength found known probe =>
          rw [firstStatement_takeStatement plain found known probe]
          constructor
          · rintro ⟨first, -⟩
            exact (Option.some.inj first).symm
          · rintro rfl
            exact ⟨rfl, rfl⟩
      | lexed step probe noTerminator =>
          have same := (lexOne?_spec step).2.2.2.2.1.1
          have plainThen : moved.PlainDelimiter :=
            ⟨same ▸ plain.noBlank, same ▸ plain.noOpener, same ▸ plain.noMark⟩
          rw [← firstStatement_lexOne plain step probe noTerminator,
            ← ih plainThen]
          rfl

end StatementAssembler

end SqlDump
