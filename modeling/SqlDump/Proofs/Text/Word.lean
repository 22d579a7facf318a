import SqlDump.Proofs.Text.Letter
import SqlDump.Text.Digit
import SqlDump.Text.Word

/-!
# Words and their letters

Which characters are read as a letter of a word, that every digit but no blank
belongs to a word, where a run of characters ends, and what the readers of words
and blanks take.
-/

namespace SqlDump

/-- A capital is read as itself, as its small letter, or as one of two
characters that fold to a letter of ASCII. -/
theorem eq_of_foldLetter_eq {capital found : Char}
    (upper : capital.isUpper = true)
    (same : foldLetter found = foldLetter capital) :
    found = capital ∨ found = capital.toLower ∨ found = '\u017F' ∨
      found = '\u212A' := by
  have bounds := toNat_of_isUpper upper
  have small : 'a'.toNat = 97 := rfl
  have below : capital.toNat < 'a'.toNat := by omega
  rw [foldLetter_of_lt below] at same
  unfold foldLetter at same
  split at same
  · next longS => exact .inr (.inr (.inl longS))
  · split at same
    · next kelvin => exact .inr (.inr (.inr kelvin))
    · have codes := congrArg Char.toNat same
      rw [toNat_toLower, toNat_toLower, if_pos upper] at codes
      by_cases foundUpper : found.isUpper = true
      · rw [if_pos foundUpper] at codes
        exact .inl (Char.toNat_inj.mp (by omega))
      · have kept : found.toLower = found :=
          dif_neg fun bounds => foundUpper (decide_eq_true bounds)
        exact .inr (.inl (kept ▸ same))

theorem eq_or_eq_of_foldLetter_eq {capital found : Char}
    (upper : capital.isUpper = true)
    (notLongS : foldLetter '\u017F' ≠ foldLetter capital)
    (notKelvin : foldLetter '\u212A' ≠ foldLetter capital)
    (same : foldLetter found = foldLetter capital) :
    found = capital ∨ found = capital.toLower := by
  rcases eq_of_foldLetter_eq upper same with equal | small | rfl | rfl
  · exact .inl equal
  · exact .inr small
  · exact absurd same notLongS
  · exact absurd same notKelvin

theorem afterWord?_cons {wanted : Char} {word text rest : Text}
    (found : Text.afterWord? (wanted :: word) text = some rest) :
    ∃ head tail, text = head :: tail ∧ foldLetter head = foldLetter wanted ∧
      Text.afterWord? word tail = some rest := by
  cases text with
  | nil => simp [Text.afterWord?] at found
  | cons head tail =>
      rw [Text.afterWord?] at found
      split at found
      · next same => exact ⟨head, tail, rfl, same, found⟩
      · simp at found

theorem afterWord?_of_ne {head wanted : Char} {word tail : Text}
    (other : foldLetter head ≠ foldLetter wanted) :
    Text.afterWord? (wanted :: word) (head :: tail) = none :=
  if_neg other

theorem Text.takeWhile_before {takes : Char → Bool} {stop : Char}
    (stops : takes stop = false) (front rest : Text) :
    (front ++ stop :: rest).takeWhile takes = front.takeWhile takes ∧
      (front ++ stop :: rest).dropWhile takes = front.dropWhile takes ++
        stop :: rest := by
  induction front with
  | nil => simp [stops]
  | cons head front ih =>
      cases taken : takes head with
      | false => simp [taken]
      | true => simp [taken, ih]

def blankCodes : List Nat :=
  [9, 10, 11, 12, 13, 0x20, 0x85, 0xA0, 0x1680, 0x2000, 0x2001, 0x2002, 0x2003,
    0x2004, 0x2005,
    0x2006, 0x2007, 0x2008, 0x2009, 0x200A, 0x2028, 0x2029, 0x202F,
      0x205F, 0x3000]

theorem toNat_mem_blankCodes {character : Char}
    (blank : isBlank character = true) :
    character.toNat ∈ blankCodes := by
  simp only [isBlank, Bool.or_eq_true, Bool.and_eq_true, decide_eq_true_eq,
    beq_iff_eq] at blank
  simp only [blankCodes, List.mem_cons, List.not_mem_nil, or_false]
  omega

theorem not_isWord_of_isBlank {character : Char}
    (blank : isBlank character = true) :
    isWord character = false := by
  have noWords : blankCodes.all (fun code =>
      !(if code < 128 then (Char.ofNat code).isAlphanum ||
        Char.ofNat code == '_'
        else wordRanges.toList.any fun range => range.1 ≤ code &&
          code ≤ range.2)) = true := by
    decide +kernel
  have noWord := List.all_eq_true.mp noWords _ (toNat_mem_blankCodes blank)
  rw [Char.ofNat_toNat, Array.any_toList, Bool.not_eq_true'] at noWord
  exact noWord

private theorem covers_digitRanges : digitRanges.toList.all (fun digits =>
    wordRanges.toList.any fun word =>
      Nat.ble word.1 digits.1 && Nat.ble digits.2 word.2) = true := by
  decide +kernel

theorem isWord_of_isDecimalDigit {character : Char}
    (digit : isDecimalDigit character = true) :
    isWord character = true := by
  by_cases ascii : character.toNat < 128
  · rw [isDecimalDigit, if_pos ascii] at digit
    rw [isWord, if_pos ascii, Char.isAlphanum, digit, Bool.or_true,
      Bool.true_or]
  · rw [isDecimalDigit, if_neg ascii, ← Array.any_toList] at digit
    rw [isWord, if_neg ascii, ← Array.any_toList]
    obtain ⟨digits, member, inDigits⟩ := List.any_eq_true.mp digit
    have covered := List.all_eq_true.mp covers_digitRanges digits member
    obtain ⟨word, wordMember, covers⟩ := List.any_eq_true.mp covered
    refine List.any_eq_true.mpr ⟨word, wordMember, ?_⟩
    simp only [Bool.and_eq_true, decide_eq_true_eq, Nat.ble_eq]
      at inDigits covers ⊢
    omega

/-- The text is the word in some letter case. -/
def IsWord (word text : Text) : Prop :=
  text.map foldLetter = word.map foldLetter

theorem afterWord?_spec {word text rest : Text}
    (found : Text.afterWord? word text = some rest) :
    ∃ read, text = read ++ rest ∧ IsWord word read := by
  fun_induction Text.afterWord? word text with
  | case1 text =>
      simp only [Option.some.injEq] at found
      exact ⟨[], found, rfl⟩
  | case2 => simp at found
  | case3 wanted word head text same ih =>
      obtain ⟨read, textEq, isWord⟩ := ih found
      refine ⟨head :: read, by rw [textEq, List.cons_append], ?_⟩
      rw [IsWord, List.map_cons, List.map_cons, same, isWord]
  | case4 => simp at found

theorem afterWord?_iff {word text rest : Text} :
    Text.afterWord? word text = some rest ↔ ∃ read, text = read ++ rest ∧
    IsWord word read := by
  constructor
  · exact afterWord?_spec
  · rintro ⟨read, rfl, isWord⟩
    induction word generalizing read with
    | nil =>
        obtain rfl : read = [] := List.map_eq_nil_iff.mp isWord
        rfl
    | cons wanted word ih =>
        cases read with
        | nil => simp [IsWord] at isWord
        | cons head read =>
            obtain ⟨same, later⟩ := List.cons.inj isWord
            rw [List.cons_append, Text.afterWord?, if_pos same]
            exact ih read later

theorem visible_of_isWord {word read : Text} (isWord : IsWord word read)
    (letters : blankCodes.all (fun code =>
      !(word.map foldLetter).contains (foldLetter (Char.ofNat code))) = true) :
    ∀ character ∈ read, isBlank character = false := by
  intro character member
  rw [Bool.eq_false_iff]
  intro blank
  have folded : foldLetter character ∈ word.map foldLetter := by
    rw [← isWord]
    exact List.mem_map_of_mem member
  have absent := List.all_eq_true.mp letters _ (toNat_mem_blankCodes blank)
  rw [Char.ofNat_toNat] at absent
  simp [folded] at absent

theorem trimStart_spec (text : Text) :
    ∃ blanks, text = blanks ++ text.trimStart ∧ blanks.isAllBlank = true :=
  ⟨text.takeWhile isBlank, List.takeWhile_append_dropWhile.symm,
    List.all_takeWhile⟩

theorem trimStart_append {blanks rest : Text} (blank : blanks.isAllBlank = true)
    (visible : ∀ head ∈ rest.head?, isBlank head = false) :
    Text.trimStart (blanks ++ rest) = rest := by
  unfold Text.trimStart
  rw [List.dropWhile_append_of_pos (List.all_eq_true.mp blank)]
  cases rest with
  | nil => rfl
  | cons head tail =>
      rw [List.dropWhile_cons_of_neg
        (by rw [visible head rfl]; exact Bool.false_ne_true)]

theorem afterBlanks?_spec {text rest : Text}
    (found : Text.afterBlanks? text = some rest) :
    ∃ blanks, text = blanks ++ rest ∧ blanks ≠ [] ∧
      blanks.isAllBlank = true := by
  unfold Text.afterBlanks? at found
  split at found
  · simp at found
  · next head tail =>
      split at found
      · next blank =>
          simp only [Option.some.injEq] at found
          obtain ⟨blanks, tailEq, allBlank⟩ := trimStart_spec tail
          refine ⟨head :: blanks, ?_, List.cons_ne_nil _ _, ?_⟩
          · rw [List.cons_append, ← found, ← tailEq]
          · simpa [Text.isAllBlank, blank] using allBlank
      · simp at found

theorem afterBlanks?_append {blanks rest : Text} (nonempty : blanks ≠ [])
    (blank : blanks.isAllBlank = true)
    (visible : ∀ head ∈ rest.head?, isBlank head = false) :
    Text.afterBlanks? (blanks ++ rest) = some rest := by
  cases blanks with
  | nil => exact absurd rfl nonempty
  | cons head tail =>
      obtain ⟨headBlank, tailBlank⟩ : isBlank head = true ∧
        Text.isAllBlank tail = true := by
        simpa [Text.isAllBlank] using blank
      rw [List.cons_append, Text.afterBlanks?, if_pos headBlank,
        trimStart_append tailBlank visible]

end SqlDump
