import SqlDump.Pipeline.Volatile
import SqlDump.Proofs.Lexer.Seam
import SqlDump.Proofs.Lexer.Separator
import SqlDump.Proofs.Pipeline.ZoneStatement

/-!
# Counters

A counter is a word in any letter case, an equals sign with blanks around it,
and a maximal run of decimal digits.  None of its characters can begin a literal
or a comment, and only the first one is the letter that a counter begins with,
so no counter reaches into another one.
-/

namespace SqlDump

open Text

namespace Volatile

/-- A counter up to its value. -/
def CounterLabel (label : Text) : Prop :=
  ∃ word gap laterGap : Text, label = word ++ (gap ++ '=' :: laterGap) ∧
    IsWord "AUTO_INCREMENT".toList word ∧ gap.isAllBlank = true ∧
    laterGap.isAllBlank = true

structure IsNumber (value : Text) : Prop where
  nonempty : value ≠ []
  digits : ∀ digit ∈ value, isDecimalDigit digit = true

/-- In front of `rest`, the label and the value are a counter. -/
structure Counter (label value rest : Text) : Prop where
  label : CounterLabel label
  number : IsNumber value
  ends : ∀ next ∈ rest.head?, isDecimalDigit next = false

variable {label value rest front behind : Text} {letter head : Char}
  {tail : Text}

private theorem isBlank_of_isDecimalDigit {digit : Char}
    (isDigit : isDecimalDigit digit = true) :
    isBlank digit = false := by
  rw [Bool.eq_false_iff]
  intro blank
  have noWord := not_isWord_of_isBlank blank
  rw [isWord_of_isDecimalDigit isDigit] at noWord
  exact absurd noWord.symm Bool.false_ne_true

theorem counter_of_afterCounter? {text : Text}
    (found : afterCounter? text = some rest) :
    ∃ label value, text = label ++ (value ++ rest) ∧
      Counter label value rest := by
  simp only [afterCounter?, Option.bind_eq_bind, Option.bind_eq_some_iff]
    at found
  obtain ⟨behindWord, wordFound, behindEquals, equalsFound, digitsFound⟩ :=
    found
  obtain ⟨word, rfl, isWord⟩ := afterWord?_spec wordFound
  obtain ⟨gap, gapEq, gapBlank⟩ := trimStart_spec behindWord
  obtain ⟨laterGap, laterEq, laterBlank⟩ := trimStart_spec behindEquals
  rw [Text.after?_eq_some_iff.mp equalsFound, laterEq] at gapEq
  split at digitsFound
  · simp at digitsFound
  · next first more digits =>
      split at digitsFound
      · next isDigit =>
          obtain rfl := Option.some.inj digitsFound
          have parts : more.takeWhile isDecimalDigit ++
              more.dropWhile isDecimalDigit = more :=
            List.takeWhile_append_dropWhile
          refine ⟨word ++ (gap ++ '=' :: laterGap),
            first :: more.takeWhile isDecimalDigit, ?_,
            ⟨word, gap, laterGap, rfl, isWord, gapBlank, laterBlank⟩,
            ⟨List.cons_ne_nil _ _, fun digit member => ?_⟩, fun next here => ?_⟩
          · rw [gapEq, digits]
            simp [parts]
          · rcases List.mem_cons.mp member with rfl | later
            · exact isDigit
            · exact List.all_eq_true.mp List.all_takeWhile digit later
          · have stops := List.head?_dropWhile_not isDecimalDigit more
            rwa [here] at stops
      · simp at digitsFound

theorem Counter.afterCounter?_eq (counter : Counter label value rest) :
    afterCounter? (label ++ (value ++ rest)) = some rest := by
  obtain ⟨⟨word, gap, laterGap, rfl, isWord, gapBlank, laterBlank⟩,
    ⟨nonempty, digits⟩, ends⟩ :=
    counter
  obtain ⟨digit, more, rfl⟩ := List.exists_cons_of_ne_nil nonempty
  have isDigit := digits digit List.mem_cons_self
  have wordFound : Text.afterWord? "AUTO_INCREMENT".toList
      (word ++ (gap ++ '=' :: laterGap) ++ (digit :: more ++ rest)) =
        some (gap ++ '=' :: (laterGap ++ (digit :: more ++ rest))) :=
    afterWord?_iff.mpr ⟨word, by simp, isWord⟩
  have equals :
      Text.trimStart (gap ++ '=' :: (laterGap ++ (digit :: more ++ rest))) =
        ['='] ++ (laterGap ++ (digit :: more ++ rest)) :=
    trimStart_append gapBlank fun head here => by
      obtain rfl : '=' = head := Option.some.inj here
      rfl
  have behindEquals : Text.trimStart (laterGap ++ (digit :: more ++ rest)) =
      digit :: (more ++ rest) :=
    trimStart_append laterBlank fun head here => by
      obtain rfl : digit = head := Option.some.inj here
      exact isBlank_of_isDecimalDigit isDigit
  have dropped : (more ++ rest).dropWhile isDecimalDigit = rest := by
    rw [List.dropWhile_append_of_pos fun later member =>
      digits later (.tail digit member)]
    cases rest with
    | nil => rfl
    | cons next tail =>
        rw [List.dropWhile_cons_of_neg
          (by rw [ends next rfl]; exact Bool.false_ne_true)]
  simp only [afterCounter?, Option.bind_eq_bind, wordFound, Option.bind_some,
    equals, Text.after?_eq_some_iff.mpr rfl, behindEquals, isDigit, if_true,
    dropped]

/-- A counter begins with this letter, small or capital. -/
def isFirstLetter (character : Char) : Bool :=
  foldLetter character == 'a'

theorem toNat_of_isFirstLetter {character : Char}
    (first : isFirstLetter character = true) :
    character.toNat = 65 ∨ character.toNat = 97 := by
  have small : 'a'.toNat = 97 := rfl
  rw [isFirstLetter, beq_iff_eq, foldLetter] at first
  split at first
  · exact absurd first (by decide)
  · split at first
    · exact absurd first (by decide)
    · have codes := congrArg Char.toNat first
      rw [toNat_toLower, small] at codes
      split at codes <;> omega

theorem isFirstLetter_of_isBlank {character : Char}
    (blank : isBlank character = true) :
    isFirstLetter character = false := by
  rw [Bool.eq_false_iff]
  intro first
  have code := toNat_of_isFirstLetter first
  simp only [isBlank, Bool.or_eq_true, Bool.and_eq_true, decide_eq_true_eq,
    beq_iff_eq] at blank
  omega

theorem isFirstLetter_of_isDecimalDigit {character : Char}
    (digit : isDecimalDigit character = true) :
    isFirstLetter character = false := by
  rw [Bool.eq_false_iff]
  intro first
  have code := toNat_of_isFirstLetter first
  have ascii : character.toNat < 128 := by omega
  rw [isDecimalDigit, if_pos ascii] at digit
  simp only [Char.isDigit, Bool.and_eq_true, decide_eq_true_eq, ge_iff_le,
    UInt32.le_iff_toNat_le] at digit
  have above : character.toNat ≤ 57 := digit.2
  omega

private theorem not_mem_openers_of_isDecimalDigit {character : Char}
    (digit : isDecimalDigit character = true) : character ∉ Lexer.openers :=
  Lexer.not_mem_of_all (by decide) digit

theorem separator_of_isFirstLetter {character : Char}
    (first : isFirstLetter character = true) : Lexer.Separator character := by
  have code := toNat_of_isFirstLetter first
  constructor
  · intro mark
    simp only [List.mem_cons, List.not_mem_nil, or_false] at mark
    rcases mark with rfl | rfl | rfl | rfl <;> exact absurd first (by decide)
  · rw [Bool.eq_false_iff]
    intro digit
    simp only [Char.isDigit, Bool.and_eq_true, decide_eq_true_eq,
      UInt32.le_iff_toNat_le] at digit
    have above : character.toNat ≤ 57 := digit.2
    omega

private theorem isFirstLetter_of_isWord {word text : Text}
    (isWord : IsWord word text)
    (others : word.all (fun letter => !isFirstLetter letter) = true) :
    ∀ character ∈ text, isFirstLetter character = false := by
  intro character member
  have folded : foldLetter character ∈ word.map foldLetter := by
    rw [← isWord]
    exact List.mem_map_of_mem member
  obtain ⟨letter, letterMember, same⟩ := List.mem_map.mp folded
  have other := List.all_eq_true.mp others letter letterMember
  rw [isFirstLetter, ← same]
  simpa [isFirstLetter] using other

/-- Only the first letter of a label is one that a label begins with. -/
theorem CounterLabel.letters (isLabel : CounterLabel label) :
    ∃ first others, label = first :: others ∧ isFirstLetter first = true ∧
      ∀ character ∈ others, isFirstLetter character = false := by
  obtain ⟨word, gap, laterGap, rfl, isWord, gapBlank, laterBlank⟩ := isLabel
  cases word with
  | nil => simp [IsWord] at isWord
  | cons first word =>
      have letters : "AUTO_INCREMENT".toList =
          'A' :: "UTO_INCREMENT".toList := by decide
      rw [IsWord, letters, List.map_cons, List.map_cons] at isWord
      obtain ⟨same, isRest⟩ := List.cons.inj isWord
      refine ⟨first, word ++ (gap ++ '=' :: laterGap), rfl, ?_,
        fun character member => ?_⟩
      · rw [isFirstLetter, same]
        decide
      · simp only [List.mem_append, List.mem_cons] at member
        rcases member with inWord | inGap | rfl | inLater
        · exact isFirstLetter_of_isWord isRest (by decide) character inWord
        · exact isFirstLetter_of_isBlank
            (List.all_eq_true.mp gapBlank character inGap)
        · decide
        · exact isFirstLetter_of_isBlank
            (List.all_eq_true.mp laterBlank character inLater)

theorem CounterLabel.plain (isLabel : CounterLabel label) :
    ∀ character ∈ label, character ∉ Lexer.openers := by
  obtain ⟨word, gap, laterGap, rfl, isWord, gapBlank, laterBlank⟩ := isLabel
  intro character member
  simp only [List.mem_append, List.mem_cons] at member
  rcases member with inWord | inGap | rfl | inLater
  · exact not_mem_openers_of_isWord isWord (by decide) character inWord
  · exact not_mem_openers_of_isAllBlank gapBlank character inGap
  · decide
  · exact not_mem_openers_of_isAllBlank laterBlank character inLater

theorem IsNumber.plain (isNumber : IsNumber value) :
    ∀ character ∈ value, character ∉ Lexer.openers :=
  fun character member =>
    not_mem_openers_of_isDecimalDigit (isNumber.digits character member)

theorem Counter.plain (counter : Counter label value rest) :
    ∀ character ∈ label ++ value, character ∉ Lexer.openers := by
  intro character member
  rcases List.mem_append.mp member with inLabel | inValue
  · exact counter.label.plain character inLabel
  · exact counter.number.plain character inValue

theorem Counter.ends_before (counter : Counter label value rest)
    (split : label ++ (value ++ rest) = front ++ letter :: behind)
    (nonempty : front ≠ []) (first : isFirstLetter letter = true) :
    ∃ between, front = label ++ (value ++ between) ∧
      rest = between ++ letter :: behind := by
  obtain ⟨head, others, rfl, -, noFirst⟩ := counter.label.letters
  rw [← List.append_assoc] at split
  rcases List.append_eq_append_iff.mp split with
      ⟨between, frontEq, restEq⟩ | ⟨piece, same, restEq⟩
  · exact ⟨between, frontEq.trans (List.append_assoc _ _ _), restEq⟩
  · cases piece with
    | nil => exact ⟨[], by simpa using same.symm, by simpa using restEq.symm⟩
    | cons other piece =>
        -- The letter would stand behind the first character of the counter.
        obtain ⟨rfl, -⟩ := List.cons.inj restEq
        obtain ⟨start, front, rfl⟩ := List.exists_cons_of_ne_nil nonempty
        have tails : others ++ value = front ++ letter :: piece :=
          (List.cons.inj same).2
        have inTail : letter ∈ others ++ value := by
          rw [tails]
          exact List.mem_append_right front List.mem_cons_self
        have noLetter : isFirstLetter letter = false := by
          rcases List.mem_append.mp inTail with inLabel | inValue
          · exact noFirst letter inLabel
          · exact isFirstLetter_of_isDecimalDigit
              (counter.number.digits letter inValue)
        exact absurd (first.symm.trans noLetter) (by decide)

/-- Whether a counter begins in front of such a letter, and where it ends, is
decided in front of the letter. -/
theorem afterCounter?_before (nonempty : front ≠ [])
    (first : isFirstLetter letter = true) :
    (∀ behind, afterCounter? (front ++ letter :: behind) = none) ∨
      ∃ label value between, front = label ++ (value ++ between) ∧
        ∀ behind, Counter label value (between ++ letter :: behind) := by
  by_cases none : ∀ behind, afterCounter? (front ++ letter :: behind) = none
  · exact .inl none
  · right
    obtain ⟨behind, some⟩ := Classical.not_forall.mp none
    obtain ⟨rest, found⟩ := Option.ne_none_iff_exists'.mp some
    obtain ⟨label, value, split, counter⟩ := counter_of_afterCounter? found
    obtain ⟨between, frontEq, rfl⟩ :=
      counter.ends_before split.symm nonempty first
    refine ⟨label, value, between, frontEq,
      fun behind => ⟨counter.label, counter.number, ?_⟩⟩
    have ends := counter.ends
    rw [List.head?_append] at ends ⊢
    exact ends

end Volatile

end SqlDump
