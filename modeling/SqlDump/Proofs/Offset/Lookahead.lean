import SqlDump.Proofs.Offset.Search
import SqlDump.Proofs.Statement.Pushes
import SqlDump.Proofs.Statement.Terminator
import SqlDump.Proofs.Text.Letter

/-!
# Looking ahead by bytes

Before the assembler lexes a byte it looks for a directive, for the terminator
and for what still belongs to a unit behind its terminator.  The bytes of a text
answer as its characters do.  A terminator may hold longer characters, but none
of its encodings begins inside a character.
-/

namespace SqlDump

open Text

namespace Text

def isContinuation (octet : Char) : Bool :=
  128 ≤ octet.toNat && octet.toNat < 192

theorem isContinuation_ofNat {code : Nat} (small : code < 256) :
    isContinuation (Char.ofNat (UInt8.ofNat code).toNat) =
      (decide (128 ≤ code) && decide (code < 192)) := by
  rw [isContinuation, toNat_ofNat_byte, Utf8.toNat_ofNat_of_lt small]

/-- The bytes of a character: one that continues none, and others that do. -/
theorem octets_spec (head : Char) :
    ∃ first others, octets [head] = first :: others ∧
    isContinuation first = false ∧
      ∀ octet ∈ others, isContinuation octet = true := by
  have begins {code : Nat} (small : code < 256) (outside : code < 128 ∨
      192 ≤ code) :
      isContinuation (Char.ofNat (UInt8.ofNat code).toNat) = false := by
    rw [isContinuation_ofNat small, Bool.and_eq_false_iff,
      decide_eq_false_iff_not, decide_eq_false_iff_not]
    omega
  have continues (code : Nat) :
      isContinuation (Char.ofNat (UInt8.ofNat (code % 64 + 128)).toNat) =
        true := by
    rw [isContinuation_ofNat (by omega), Bool.and_eq_true, decide_eq_true_eq,
      decide_eq_true_eq]
    omega
  simp only [octets, encode, List.flatMap_cons, List.flatMap_nil,
    List.append_nil]
  unfold String.utf8EncodeChar
  dsimp only
  generalize head.val.toNat = code
  split
  · exact ⟨_, [], rfl, begins (by omega) (.inl (by omega)), by simp⟩
  · split
    · refine ⟨_, _, rfl, begins (by omega) (.inr (by omega)), ?_⟩
      simp only [List.map_cons, List.map_nil, List.mem_singleton, forall_eq]
      exact continues code
    · split
      · refine ⟨_, _, rfl, begins (by omega) (.inr (by omega)), ?_⟩
        simp only [List.map_cons, List.map_nil, List.mem_cons, List.not_mem_nil,
          or_false, forall_eq_or_imp, forall_eq]
        exact ⟨continues (code / 64), continues code⟩
      · refine ⟨_, _, rfl, begins (by omega) (.inr (by omega)), ?_⟩
        simp only [List.map_cons, List.map_nil, List.mem_cons, List.not_mem_nil,
          or_false, forall_eq_or_imp, forall_eq]
        exact ⟨continues (code / 4096), continues (code / 64), continues code⟩

/-- Between the bytes of a character the rest begins with one that continues
it. -/
theorem drop_octets_inside {front : Text} (tail : Text) {head : Char}
    {place : Nat} (above : front.size < place)
    (below : place < front.size + head.utf8Size) :
    ∃ octet others, (octets (front ++ head :: tail)).drop place =
      octet :: others ∧
      isContinuation octet = true := by
  obtain ⟨first, others, octetsEq, -, continues⟩ := octets_spec head
  have sizeEq : head.utf8Size = others.length + 1 := by
    have lengths := length_octets [head]
    rw [octetsEq, List.length_cons, size_cons, size_nil] at lengths
    omega
  obtain ⟨inside, rfl⟩ : ∃ inside, place = front.size + (1 + inside) :=
    ⟨place - front.size - 1, by omega⟩
  have within : inside < others.length := by omega
  obtain ⟨octet, rest, split⟩ := List.exists_cons_of_ne_nil
    (fun empty => Nat.not_le_of_lt within (List.drop_eq_nil_iff.mp empty) :
      others.drop inside ≠ [])
  have member : octet ∈ others := by
    apply List.mem_of_mem_drop
    rw [split]
    exact List.mem_cons_self
  refine ⟨octet, rest ++ octets tail, ?_, continues octet member⟩
  rw [← List.drop_drop, drop_octets, octets_cons, octetsEq, List.cons_append,
    Nat.add_comm, List.drop_succ_cons,
    List.drop_append_of_le_length (Nat.le_of_lt within), split,
    List.cons_append]

theorem not_prefix_inside {front word : Text} (tail : Text) {head : Char}
    {place : Nat} (nonempty : word ≠ []) (above : front.size < place)
    (below : place < front.size + head.utf8Size) :
    ¬octets word <+: (octets (front ++ head :: tail)).drop place ∧
      ¬(octets (front ++ head :: tail)).drop place <+: octets word := by
  obtain ⟨octet, others, dropEq, continues⟩ :=
    drop_octets_inside tail above below
  obtain ⟨head, rest, rfl⟩ := List.exists_cons_of_ne_nil nonempty
  obtain ⟨begun, more, octetsEq, begins, -⟩ := octets_spec head
  have other : begun ≠ octet := by
    rintro rfl
    exact Bool.false_ne_true (begins.symm.trans continues)
  rw [dropEq, octets_cons, octetsEq, List.cons_append, List.cons_prefix_cons,
    List.cons_prefix_cons]
  exact ⟨fun same => other same.1, fun same => other same.1.symm⟩

theorem take_octets {text : Text} {count : Nat}
    (ascii : ∀ octet ∈ (octets text).take count, isAscii octet = true) :
    (octets text).take count = text.take count ∧
      (octets text).drop count = octets (text.drop count) := by
  induction count generalizing text with
  | zero => simp
  | succ count ih =>
      obtain ⟨rfl, octetsEq⟩ | ⟨head, tail, -, rfl, octetsEq⟩ |
        ⟨head, tail, octet, others, -, wide, rfl, octetsEq⟩ := octets_cases text
      · simp [octetsEq]
      · rw [octetsEq, List.take_succ_cons] at ascii
        obtain ⟨takeEq, dropEq⟩ := ih fun octet member =>
          ascii octet (List.mem_cons_of_mem head member)
        rw [octetsEq]
        simp only [List.take_succ_cons, List.drop_succ_cons, takeEq,
          dropEq, and_self]
      · rw [octetsEq, List.take_succ_cons] at ascii
        have narrow := ascii octet List.mem_cons_self
        exact absurd (wide.symm.trans narrow) Bool.false_ne_true

theorem isAscii_toLower (character : Char) :
    isAscii character.toLower = isAscii character := by
  have number := toNat_toLower character
  rw [isAscii, isAscii, number]
  split
  · next upper =>
      have bounds := toNat_of_isUpper upper
      rw [decide_eq_decide]
      omega
  · rfl

/-- Only a word of ASCII equals one up to the case of its letters. -/
theorem isAscii_of_sameAsciiWord {word text : Text}
    (same : sameAsciiWord word text = true)
    (ascii : ∀ character ∈ word, isAscii character = true) :
    ∀ character ∈ text, isAscii character = true := by
  intro character member
  rw [sameAsciiWord, beq_iff_eq] at same
  have lower : character.toLower ∈ word.map Char.toLower := by
    rw [same]
    exact List.mem_map_of_mem member
  obtain ⟨letter, letterMember, letterEq⟩ := List.mem_map.mp lower
  rw [← isAscii_toLower, ← letterEq, isAscii_toLower]
  exact ascii letter letterMember

/-- As far as the characters are ASCII they are the bytes. -/
theorem take_octets_of_ascii {text : Text} {count : Nat}
    (whole : count ≤ text.length)
    (ascii : ∀ character ∈ text.take count, isAscii character = true) :
    (octets text).take count = text.take count := by
  conv => lhs; rw [← List.take_append_drop count text]
  rw [octets_append, octets_of_ascii ascii]
  apply List.take_left'
  rw [List.length_take, Nat.min_eq_left whole]

/-- The bytes start with a word of ASCII exactly if the characters do. -/
theorem sameAsciiWord_take_octets {word text : Text}
    (whole : word.length ≤ text.length)
    (ascii : ∀ character ∈ word, isAscii character = true) :
    sameAsciiWord word ((octets text).take word.length) =
      sameAsciiWord word (text.take word.length) := by
  rw [Bool.eq_iff_iff]
  constructor
  · intro same
    rwa [← (take_octets (isAscii_of_sameAsciiWord same ascii)).1]
  · intro same
    rwa [take_octets_of_ascii whole (isAscii_of_sameAsciiWord same ascii)]

end Text

namespace Probe

def map {α β : Type} (change : α → β) : Probe α → Probe β
  | .found value => .found (change value)
  | .absent => .absent
  | .needMore => .needMore

end Probe

namespace Offset

def directiveSize (atEnd : Bool) (text : Text) : Checked (Probe Nat) :=
  let octets := text.octets
  if octets.length ≤ directiveKeyword.length then do
    let word ← directiveKeyword.octetsUpTo octets.length
    .ok (if sameAsciiWord word octets && !atEnd then .needMore else .absent)
  else do
    let word ← octets.octetsUpTo directiveKeyword.length
    let separator ← octets.octetAt directiveKeyword.length
    if sameAsciiWord directiveKeyword word && isPadding separator then
      let line := (octets.takeWhile (· != '\n')).length
      .ok (if line < octets.length then .found (line + 1)
        else if atEnd then .found octets.length
        else .needMore)
    else .ok .absent

theorem isAscii_directiveKeyword :
    ∀ character ∈ directiveKeyword, isAscii character = true :=
  List.all_eq_true.mp (by decide)

theorem isAscii_of_isPadding {character : Char}
    (padding : isPadding character = true) :
    isAscii character = true := by
  simp only [isPadding, Bool.or_eq_true, beq_iff_eq] at padding
  rcases padding with rfl | rfl <;> decide

private theorem isAscii_of_octets {text : Text}
    (ascii : ∀ octet ∈ text.octets, isAscii octet = true) :
    ∀ character ∈ text, isAscii character = true := by
  intro character member
  obtain ⟨front, tail, rfl⟩ := List.append_of_mem member
  obtain ⟨first, others, octetsEq, -, -⟩ := octets_spec character
  cases wide : isAscii character with
  | true => rfl
  | false =>
      have inWide : first ∈ octets [character] := by
        rw [octetsEq]
        exact List.mem_cons_self
      have inText : first ∈ octets (front ++ character :: tail) := by
        rw [octets_append, octets_cons]
        exact List.mem_append_right _ (List.mem_append_left _ inWide)
      exact absurd ((octets_wide wide first inWide).symm.trans
        (ascii first inText))
        Bool.false_ne_true

private theorem sameAsciiWord_octets (text : Text) :
    sameAsciiWord (directiveKeyword.take text.octets.length) text.octets =
      sameAsciiWord (directiveKeyword.take text.length) text := by
  have narrow {count : Nat} {found : Text}
      (same : sameAsciiWord (directiveKeyword.take count) found = true) :
      ∀ character ∈ found, isAscii character = true :=
    isAscii_of_sameAsciiWord same fun character member =>
      isAscii_directiveKeyword character (List.mem_of_mem_take member)
  have alike (ascii : ∀ character ∈ text, isAscii character = true) :
      sameAsciiWord (directiveKeyword.take text.octets.length) text.octets =
        sameAsciiWord (directiveKeyword.take text.length) text := by
    rw [octets_of_ascii ascii]
  rw [Bool.eq_iff_iff]
  constructor
  · intro same
    rwa [← alike (isAscii_of_octets (narrow same))]
  · intro same
    rwa [alike (narrow same)]

private theorem lineSize_eq (atEnd : Bool) (text : Text) :
    (if (text.octets.takeWhile (· != '\n')).length < text.octets.length then
        Probe.found ((text.octets.takeWhile (· != '\n')).length + 1)
      else if atEnd then .found text.octets.length
      else .needMore) =
      (if (text.takeWhile (· != '\n')).length < text.length then
          Probe.found ((text.takeWhile (· != '\n')).length + 1)
        else if atEnd then .found (text.takeWhile (· != '\n')).length
        else .needMore).map fun length => size (text.take length) := by
  rw [takeWhile_ne_octets (by decide), length_octets, length_octets]
  obtain ⟨line, lineEq⟩ : ∃ line : Text, text.takeWhile (· != '\n') = line :=
    ⟨_, rfl⟩
  have parts : text = line ++ text.dropWhile (· != '\n') := by
    rw [← lineEq, List.takeWhile_append_dropWhile]
  rw [lineEq]
  cases behind : text.dropWhile (· != '\n') with
  | nil =>
      rw [behind, List.append_nil] at parts
      subst parts
      simp only [Nat.lt_irrefl, if_false]
      split <;> simp [Probe.map]
  | cons lineBreak rest =>
      have isBreak : lineBreak = '\n' := by
        have stop := List.head?_dropWhile_not (· != '\n') text
        rw [behind, List.head?_cons] at stop
        simpa using stop
      rw [behind, isBreak] at parts
      have shorter : line.length < text.length := by
        rw [parts, List.length_append, List.length_cons]
        omega
      have smaller : line.size < text.size := by
        have positive := size_pos (List.cons_ne_nil '\n' rest)
        rw [parts, size_append]
        omega
      have taken : text.take (line.length + 1) = line ++ ['\n'] := by
        rw [parts, List.take_append, List.take_of_length_le (Nat.le_succ _),
          Nat.add_sub_cancel_left]
        rfl
      simp only [if_pos shorter, if_pos smaller, Probe.map, taken, size_append]
      rfl

/-- A text with more bytes than the keyword, but no more characters, does not
start as the keyword does. -/
theorem not_sameAsciiWord_of_wide {text : Text}
    (few : text.drop directiveKeyword.length = [])
    (many : directiveKeyword.length < text.octets.length) :
    sameAsciiWord directiveKeyword (text.octets.take directiveKeyword.length) =
      false ∧
      sameAsciiWord (directiveKeyword.take text.length) text = false := by
  constructor
  · rw [Bool.eq_false_iff]
    intro same
    obtain ⟨-, dropEq⟩ :=
      take_octets (isAscii_of_sameAsciiWord same isAscii_directiveKeyword)
    rw [few] at dropEq
    exact absurd (List.drop_eq_nil_iff.mp dropEq) (Nat.not_le.mpr many)
  · rw [Bool.eq_false_iff]
    intro same
    have narrow := isAscii_of_sameAsciiWord same fun character member =>
      isAscii_directiveKeyword character (List.mem_of_mem_take member)
    rw [octets_of_ascii narrow] at many
    exact absurd (List.drop_eq_nil_iff.mp few) (Nat.not_le.mpr many)

private theorem isPadding_octetAt {text rest : Text} {count : Nat}
    {separator octet : Char}
    (ascii : ∀ octet ∈ text.octets.take count, isAscii octet = true)
    (behind : text.drop count = separator :: rest)
    (found : text.octets.octetAt count = .ok octet) :
    isPadding octet = isPadding separator := by
  have dropEq := (take_octets ascii).2
  rw [behind] at dropEq
  obtain ⟨empty, -⟩ | ⟨head, tail, -, headEq, octetsEq⟩ |
    ⟨head, tail, first, others, wideHead, wide, headEq, octetsEq⟩ :=
      octets_cases (separator :: rest)
  · exact absurd empty (List.cons_ne_nil _ _)
  · obtain ⟨rfl, rfl⟩ := List.cons.inj headEq
    have here := Lexer.octetAt_of_drop (dropEq.trans octetsEq)
    rw [Except.ok.inj (found.symm.trans here)]
  · obtain ⟨rfl, rfl⟩ := List.cons.inj headEq
    have here := Lexer.octetAt_of_drop (dropEq.trans octetsEq)
    have noPadding {character : Char} (wide : isAscii character = false) :
        isPadding character = false := by
      rw [Bool.eq_false_iff]
      intro padding
      exact Bool.false_ne_true (wide.symm.trans (isAscii_of_isPadding padding))
    rw [Except.ok.inj (found.symm.trans here), noPadding wide,
      noPadding wideHead]

theorem directiveSize_eq (atEnd : Bool) (text : Text) :
    directiveSize atEnd text =
      .ok ((directiveLength atEnd text).map fun length =>
        size (text.take length)) := by
  have sizeLe := length_le_size text
  rw [← length_octets] at sizeLe
  unfold directiveSize directiveLength
  dsimp only
  by_cases short : text.octets.length ≤ directiveKeyword.length
  · have ended : text.drop directiveKeyword.length = [] :=
      List.drop_eq_nil_iff.mpr (Nat.le_trans sizeLe short)
    simp only [if_pos short, octetsUpTo, Checked.ok_bind, ended,
      sameAsciiWord_octets]
    split <;> rfl
  · have many : directiveKeyword.length < text.octets.length :=
      Nat.lt_of_not_le short
    obtain ⟨octet, octetEq⟩ :
        ∃ octet, text.octets.octetAt directiveKeyword.length = .ok octet :=
      ⟨_, by rw [octetAt, List.getElem?_eq_getElem many]⟩
    simp only [if_neg short, octetsUpTo, if_pos (Nat.le_of_lt many),
      Checked.ok_bind, octetEq]
    cases behind : text.drop directiveKeyword.length with
    | nil =>
        obtain ⟨noWord, noPart⟩ := not_sameAsciiWord_of_wide behind many
        simp only [noWord, noPart, Bool.false_and, Bool.false_eq_true, if_false]
        rfl
    | cons separator rest =>
        have whole : directiveKeyword.length ≤ text.length := by
          have lengths := congrArg List.length behind
          rw [List.length_drop, List.length_cons] at lengths
          omega
        have sameWord :=
          sameAsciiWord_take_octets whole isAscii_directiveKeyword
        rw [sameWord]
        cases matched : sameAsciiWord directiveKeyword
          (text.take directiveKeyword.length) with
        | false => rfl
        | true =>
            have narrow :=
              isAscii_of_sameAsciiWord (sameWord.trans matched)
                isAscii_directiveKeyword
            simp only [isPadding_octetAt narrow behind octetEq, Bool.true_and,
              lineSize_eq]
            split <;> rfl

/-- The bytes behind a terminator say what belongs to its unit. -/
theorem unitTail?_octets (atEnd : Bool) (behind : Text) :
    unitTail? atEnd behind.octets = unitTail? atEnd behind := by
  have padding : behind.octets.takeWhile isPadding =
      behind.takeWhile isPadding :=
    takeWhile_octets (fun _ => isAscii_of_isPadding) behind
  have narrow :
      ∀ octet ∈ behind.octets.take (behind.takeWhile isPadding).length,
      isAscii octet = true := by
    intro octet member
    have front : behind.octets.take (behind.takeWhile isPadding).length =
        behind.octets.takeWhile isPadding := by
      rw [← padding]
      exact (List.prefix_iff_eq_take.mp (List.takeWhile_prefix isPadding)).symm
    rw [front] at member
    exact isAscii_of_isPadding
      (List.all_eq_true.mp List.all_takeWhile octet member)
  obtain ⟨-, dropEq⟩ := take_octets narrow
  simp only [unitTail?, padding, dropEq]
  generalize behind.drop (behind.takeWhile isPadding).length = rest
  obtain ⟨rfl, octetsEq⟩ | ⟨head, tail, -, rfl, octetsEq⟩ |
    ⟨head, tail, octet, others, wideHead, wide, rfl, octetsEq⟩ :=
      octets_cases rest
  · rw [octetsEq]
  · rw [octetsEq]
    obtain ⟨rfl, tailEq⟩ | ⟨next, later, -, rfl, tailEq⟩ |
      ⟨next, later, octet, others, wideNext, wide, rfl, tailEq⟩ :=
        octets_cases tail
    · rw [tailEq]
    · rw [tailEq]
      grind
    · have noBreak : octet ≠ '\n' := ne_of_wide wide (by decide)
      have noBreakNext : next ≠ '\n' := ne_of_wide wideNext (by decide)
      rw [tailEq]
      grind
  · have noBreak : octet ≠ '\n' := ne_of_wide wide (by decide)
    have noBreakHead : head ≠ '\n' := ne_of_wide wideHead (by decide)
    have noReturn : octet ≠ '\r' := ne_of_wide wide (by decide)
    have noReturnHead : head ≠ '\r' := ne_of_wide wideHead (by decide)
    rw [octetsEq]
    grind

theorem size_unitTail? {atEnd : Bool} {behind : Text} {count : Nat}
    (found : unitTail? atEnd behind = some count) :
    size (behind.take count) = count := by
  have narrow : ∀ character ∈ behind.take count, isAscii character = true :=
    fun character member =>
      isAscii_of_isAsciiBlank (unitTail?_plain found character member)
  rw [size_of_ascii narrow, List.length_take,
    Nat.min_eq_left (unitTail?_le found)]

end Offset

end SqlDump
