import SqlDump.Proofs.Line.Decoding
import SqlDump.Proofs.Line.Encoding
import SqlDump.Proofs.Session.Streaming

/-!
# Byte offsets

A program that counts bytes cuts a text at a byte offset, and it stops where the
offset lies behind the end of the text or between the bytes of a character.
Here a cut either gives the two parts or names the fault.  The bytes of a text
are a text again: the characters with their numbers.
-/

namespace SqlDump

/-- What stops a program that works with byte offsets. -/
inductive OffsetFault where
  /-- An offset or a range that is not in the text. -/
  | outside
  /-- A cut between the bytes of a character. -/
  | insideCharacter
  /-- A difference below zero. -/
  | underflow
  /-- A count that 32 bits do not hold. -/
  | overflow
  /-- A loop that does not come forward. -/
  | stuck
deriving DecidableEq, Repr

abbrev Checked := Except OffsetFault

def Checked.minus (whole part : Nat) : Checked Nat :=
  if part ≤ whole then .ok (whole - part) else .error .underflow

theorem Checked.ok_bind {α β : Type} (value : α) (next : α → Checked β) :
    (Except.ok value >>= next : Checked β) = next value := rfl

theorem Checked.minus_add (first second : Nat) :
    Checked.minus (first + second) first = .ok second := by
  rw [minus, if_pos (Nat.le_add_right first second), Nat.add_sub_cancel_left]

theorem Checked.minus_add_right (first second : Nat) :
    Checked.minus (first + second) second = .ok first := by
  rw [Nat.add_comm, minus_add]

def isAscii (character : Char) : Bool :=
  character.toNat < 128

theorem ne_of_wide {character other : Char} (wide : isAscii character = false)
    (ascii : isAscii other = true) : character ≠ other := by
  rintro rfl
  exact Bool.false_ne_true (wide.symm.trans ascii)

namespace Text

/-- The parts in front of a byte offset and behind it. -/
def cutAt : Text → Nat → Checked (Text × Text)
  | text, 0 => .ok ([], text)
  | [], _ + 1 => .error .outside
  | head :: tail, offset + 1 =>
      if head.utf8Size ≤ offset + 1 then
        (cutAt tail (offset + 1 - head.utf8Size)).map fun (front, behind) =>
          (head :: front, behind)
      else .error .insideCharacter

/-- The part in front of a byte offset. -/
def upTo (text : Text) (offset : Nat) : Checked Text :=
  (text.cutAt offset).map Prod.fst

/-- The part behind a byte offset. -/
def since (text : Text) (offset : Nat) : Checked Text :=
  (text.cutAt offset).map Prod.snd

def between (text : Text) (start stop : Nat) : Checked Text :=
  if start ≤ stop then (text.upTo stop).bind fun front => front.since start
  else .error .outside

/-- The bytes of the text, as the characters with their numbers. -/
def octets (text : Text) : Text :=
  text.encode.map fun byte => Char.ofNat byte.toNat

def octetAt (octets : Text) (place : Nat) : Checked Char :=
  match octets[place]? with
  | some octet => .ok octet
  | none => .error .outside

def octetsUpTo (octets : Text) (place : Nat) : Checked Text :=
  if place ≤ octets.length then .ok (octets.take place) else .error .outside

/-- The bytes from an offset on. -/
def octetsSince (octets : Text) (place : Nat) : Checked Text :=
  if place ≤ octets.length then .ok (octets.drop place) else .error .outside

@[simp] theorem size_nil : size [] = 0 := rfl

@[simp] theorem size_cons (head : Char) (tail : Text) :
    size (head :: tail) = head.utf8Size + size tail := rfl

theorem size_pos {text : Text} (nonempty : text ≠ []) : 0 < text.size := by
  cases text with
  | nil => exact absurd rfl nonempty
  | cons head tail => exact Nat.add_pos_left head.utf8Size_pos _

theorem size_reverse (text : Text) : size text.reverse = text.size := by
  induction text with
  | nil => rfl
  | cons head tail ih =>
      rw [List.reverse_cons, size_append, ih, size_cons, size_cons, size_nil]
      omega

theorem cutAt_append (front behind : Text) :
    cutAt (front ++ behind) front.size = .ok (front, behind) := by
  induction front with
  | nil => cases behind <;> rfl
  | cons head front ih =>
      obtain ⟨before, sizeEq⟩ : ∃ before, head.utf8Size + size front =
        before + 1 :=
        Nat.exists_eq_add_one.mpr (Nat.add_pos_left head.utf8Size_pos _)
      have fits : head.utf8Size ≤ before + 1 := sizeEq ▸ Nat.le_add_right _ _
      have rest : before + 1 - head.utf8Size = size front := by
        rw [← sizeEq, Nat.add_sub_cancel_left]
      rw [List.cons_append, size_cons, sizeEq, cutAt, if_pos fits, rest, ih]
      rfl

/-- A text can be cut between its characters only. -/
theorem cutAt_eq_ok_iff {text front behind : Text} {offset : Nat} :
    text.cutAt offset = .ok (front, behind) ↔ text = front ++ behind ∧
    offset = front.size := by
  constructor
  · intro cut
    induction text generalizing offset front with
    | nil =>
        cases offset with
        | zero =>
            obtain ⟨rfl, rfl⟩ := Prod.mk.inj (Except.ok.inj cut)
            exact ⟨rfl, rfl⟩
        | succ offset => simp [cutAt] at cut
    | cons head tail ih =>
        cases offset with
        | zero =>
            obtain ⟨rfl, rfl⟩ := Prod.mk.inj (Except.ok.inj cut)
            exact ⟨rfl, rfl⟩
        | succ offset =>
            rw [cutAt] at cut
            split at cut
            · next fits =>
                cases rest : cutAt tail (offset + 1 - head.utf8Size) with
                | error fault => simp [rest, Except.map] at cut
                | ok parts =>
                    rw [rest] at cut
                    obtain ⟨rfl, rfl⟩ := Prod.mk.inj (Except.ok.inj cut)
                    obtain ⟨rfl, sizeEq⟩ := ih rest
                    refine ⟨rfl, ?_⟩
                    rw [size_cons, ← sizeEq, Nat.add_sub_cancel' fits]
            · simp at cut
  · rintro ⟨rfl, rfl⟩
    exact cutAt_append front behind

example : cutAt ['ü', ';'] 1 = .error .insideCharacter := rfl

example : cutAt ['ü', ';'] 4 = .error .outside := rfl

theorem upTo_append (front behind : Text) :
    upTo (front ++ behind) front.size = .ok front := by
  rw [upTo, cutAt_append]
  rfl

theorem since_append (front behind : Text) :
    since (front ++ behind) front.size = .ok behind := by
  rw [since, cutAt_append]
  rfl

theorem between_append (front piece behind : Text) :
    between (front ++ (piece ++ behind)) front.size (front ++ piece).size =
      .ok piece := by
  have ordered : front.size ≤ (front ++ piece).size := by
    rw [size_append]
    exact Nat.le_add_right _ _
  rw [between, if_pos ordered, ← List.append_assoc, upTo_append]
  exact since_append front piece

theorem octets_append (first second : Text) :
    octets (first ++ second) = octets first ++ octets second := by
  rw [octets, encode_append, List.map_append]
  rfl

theorem length_octets (text : Text) : (octets text).length = text.size := by
  rw [octets, List.length_map, size_eq_length_encode]

theorem drop_octets (front rest : Text) :
    (octets (front ++ rest)).drop front.size = octets rest := by
  rw [octets_append, ← length_octets, List.drop_left]

theorem octetsSince_append (front rest : Text) :
    (octets (front ++ rest)).octetsSince front.size = .ok rest.octets := by
  have fits : front.size ≤ (octets (front ++ rest)).length := by
    rw [length_octets, size_append]
    exact Nat.le_add_right _ _
  rw [octetsSince, if_pos fits, drop_octets]

theorem octets_cons (head : Char) (tail : Text) :
    octets (head :: tail) = octets [head] ++ octets tail :=
  octets_append [head] tail

theorem octets_ascii {head : Char} (ascii : isAscii head = true) :
    octets [head] = [head] := by
  have small : head.val.toNat ≤ 0x7f := by
    simp only [isAscii, decide_eq_true_eq] at ascii
    exact Nat.le_of_lt_succ ascii
  have number : (UInt8.ofNat head.val.toNat).toNat = head.toNat :=
    Utf8.toNat_ofNat_of_lt (by omega)
  have encoded : String.utf8EncodeChar head = [UInt8.ofNat head.val.toNat] := by
    unfold String.utf8EncodeChar
    exact if_pos small
  simp only [octets, encode, List.flatMap_cons, List.flatMap_nil, encoded,
    List.append_nil, List.map_cons, List.map_nil, number]
  rw [Char.ofNat_toNat]

/-- No byte of a longer character is ASCII. -/
theorem toNat_encodeChar {head : Char} (wide : isAscii head = false) :
    ∀ byte ∈ String.utf8EncodeChar head, 128 ≤ byte.toNat := by
  have large : ¬head.val.toNat ≤ 0x7f := by
    simp only [isAscii, decide_eq_false_iff_not, Nat.not_lt] at wide
    exact Nat.not_le_of_lt wide
  have number {code : Nat} (above : 128 ≤ code) (small : code < 256) :
      128 ≤ (UInt8.ofNat code).toNat := by
    rw [Utf8.toNat_ofNat_of_lt small]
    exact above
  intro byte member
  unfold String.utf8EncodeChar at member
  dsimp only at member
  rw [if_neg large] at member
  generalize head.val.toNat = code at member
  split at member
  · simp only [List.mem_cons, List.not_mem_nil, or_false] at member
    rcases member with rfl | rfl <;> exact number (by omega) (by omega)
  · split at member
    · simp only [List.mem_cons, List.not_mem_nil, or_false] at member
      rcases member with rfl | rfl | rfl <;> exact number (by omega) (by omega)
    · simp only [List.mem_cons, List.not_mem_nil, or_false] at member
      rcases member with rfl | rfl | rfl | rfl <;>
        exact number (by omega) (by omega)

theorem toNat_ofNat_byte (byte : UInt8) :
    (Char.ofNat byte.toNat).toNat = byte.toNat := by
  have below := byte.toNat_lt
  have valid : byte.toNat.isValidChar := .inl (by omega)
  rw [Char.ofNat, dif_pos valid]
  rfl

theorem octets_wide {head : Char} (wide : isAscii head = false) :
    ∀ octet ∈ octets [head], isAscii octet = false := by
  intro octet member
  simp only [octets, encode, List.flatMap_cons, List.flatMap_nil,
    List.append_nil, List.mem_map] at member
  obtain ⟨byte, member, rfl⟩ := member
  have above := toNat_encodeChar wide byte member
  simp only [isAscii, toNat_ofNat_byte, decide_eq_false_iff_not]
  omega

/-- One text begins another exactly if its bytes begin those of the other. -/
theorem octets_prefix_iff {word text : Text} :
    octets word <+: octets text ↔ word <+: text := by
  constructor
  · rintro ⟨others, split⟩
    obtain ⟨front, rest, encoded, frontEq, -⟩ :=
      List.map_eq_append_iff.mp split.symm
    have injective (first second : UInt8)
        (same : Char.ofNat first.toNat = Char.ofNat second.toNat) :
        first = second := by
      have numbers := congrArg Char.toNat same
      rw [toNat_ofNat_byte, toNat_ofNat_byte] at numbers
      exact UInt8.toNat_inj.mp numbers
    have frontIs : front = word.encode :=
      (List.map_inj_right injective).mp frontEq
    -- Reading the bytes back gives the word first.
    have read := Utf8.decodeLossy_encode text
    have earlier : (⟨word.reverse ++ [], none⟩ : Utf8.Reading) =
        ({} : Utf8.Reading).withEarlier word := by
      simp [Utf8.Reading.withEarlier]
    rw [encoded, frontIs, Utf8.decodeLossy, List.foldl_append] at read
    have begun := Utf8.Reading.foldl_encode [] word
    rw [begun, earlier, Utf8.Reading.foldl_withEarlier,
      Utf8.Reading.finish_withEarlier] at read
    exact ⟨_, read⟩
  · rintro ⟨rest, rfl⟩
    rw [octets_append]
    exact List.prefix_append _ _

end Text

end SqlDump
