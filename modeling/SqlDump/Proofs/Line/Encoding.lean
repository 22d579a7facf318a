import SqlDump.Text.Utf8

/-!
# Reading back what was encoded

The lenient reading of an encoded text is the text.
-/

namespace SqlDump

theorem Text.encode_append (first second : Text) :
    Text.encode (first ++ second) = first.encode ++ second.encode := by
  simp only [Text.encode, List.flatMap_append]

namespace Utf8

theorem toNat_ofNat_of_lt {number : Nat} (small : number < 256) :
    (UInt8.ofNat number).toNat = number := by
  rw [UInt8.toNat_ofNat']
  exact Nat.mod_eq_of_lt small

namespace Reading

variable {low high bits owed lead part : Nat}

theorem take_lead (read : Text) (small : lead < 256) :
    take ⟨read, none⟩ (UInt8.ofNat lead) = .start read lead := by
  simp only [take, toNat_ofNat_of_lt small]

theorem take_last (read : Text) (small : part < 64) (above : low ≤ part + 0x80)
    (below : part + 0x80 ≤ high) :
    take ⟨read, some ⟨1, low, high, bits⟩⟩ (UInt8.ofNat (part + 0x80)) =
      ⟨Char.ofNat (bits * 64 + part) :: read, none⟩ := by
  have byte : (UInt8.ofNat (part + 0x80)).toNat = part + 0x80 :=
    toNat_ofNat_of_lt (by omega)
  simp only [take, byte]
  rw [if_pos ⟨above, below⟩, if_pos (Nat.le_refl 1), Nat.add_sub_cancel]

/-- A byte inside a character leaves the whole range to the next one. -/
theorem take_more (read : Text) (small : part < 64) (above : low ≤ part + 0x80)
    (below : part + 0x80 ≤ high) :
    take ⟨read, some ⟨owed + 2, low, high, bits⟩⟩ (UInt8.ofNat (part + 0x80)) =
      ⟨read, some ⟨owed + 1, 0x80, 0xBF, bits * 64 + part⟩⟩ := by
  have byte : (UInt8.ofNat (part + 0x80)).toNat = part + 0x80 :=
    toNat_ofNat_of_lt (by omega)
  simp only [take, byte]
  rw [if_pos ⟨above, below⟩, if_neg (by omega), Nat.add_sub_cancel]
  rfl

private theorem start_two (read : Text) (above : 2 ≤ lead)
    (below : lead ≤ 0x1F) :
    start read (lead + 0xC0) = ⟨read, some ⟨1, 0x80, 0xBF, lead⟩⟩ := by
  unfold start
  rw [if_neg (by omega), if_pos (by omega), Nat.add_sub_cancel]

/-- The first byte of three limits the second one, so that no character has a
longer encoding and no surrogate has any. -/
theorem start_three (read : Text) (small : lead < 16) (partSmall : part < 64)
    (shortest : lead = 0 → 0x20 ≤ part)
    (noSurrogate : lead = 0xD → part < 0x20) :
    ∃ low high, start read (lead + 0xE0) = ⟨read, some ⟨2, low, high, lead⟩⟩ ∧
      low ≤ part + 0x80 ∧ part + 0x80 ≤ high := by
  unfold start
  rw [if_neg (by omega), if_neg (by omega)]
  by_cases first : lead = 0
  · subst first
    exact ⟨0xA0, 0xBF, rfl, by omega, by omega⟩
  · by_cases last : lead = 0xD
    · subst last
      exact ⟨0x80, 0x9F, rfl, by omega, by omega⟩
    · rw [if_neg (by omega), if_neg (by omega), if_pos (by omega),
        Nat.add_sub_cancel]
      exact ⟨0x80, 0xBF, rfl, by omega, by omega⟩

private theorem start_four (read : Text) (small : lead < 5)
    (partSmall : part < 64) (shortest : lead = 0 → 0x10 ≤ part)
    (valid : lead = 4 → part < 0x10) :
    ∃ low high, start read (lead + 0xF0) = ⟨read, some ⟨3, low, high, lead⟩⟩ ∧
      low ≤ part + 0x80 ∧ part + 0x80 ≤ high := by
  unfold start
  rw [if_neg (by omega), if_neg (by omega), if_neg (by omega),
    if_neg (by omega), if_neg (by omega)]
  by_cases first : lead = 0
  · subst first
    exact ⟨0x90, 0xBF, rfl, by omega, by omega⟩
  · by_cases last : lead = 4
    · subst last
      exact ⟨0x80, 0x8F, rfl, by omega, by omega⟩
    · rw [if_neg (by omega), if_pos (by omega), Nat.add_sub_cancel]
      exact ⟨0x80, 0xBF, rfl, by omega, by omega⟩

private theorem foldl_encodeChar (read : Text) (character : Char) :
    (String.utf8EncodeChar character).foldl take ⟨read, none⟩ =
      ⟨character :: read, none⟩ := by
  have same : Char.ofNat character.val.toNat = character :=
    Char.ofNat_toNat character
  have valid : character.val.toNat < 0xD800 ∨
      (0xDFFF < character.val.toNat ∧ character.val.toNat < 0x110000) :=
        character.valid
  have last {code : Nat} : code % 64 < 64 := Nat.mod_lt _ (by decide)
  unfold String.utf8EncodeChar
  dsimp only
  generalize character.val.toNat = code at same valid ⊢
  split
  · next one =>
      rw [List.foldl_cons, List.foldl_nil, take_lead read (by omega), start,
        if_pos (by omega), same]
  · split
    · next more two =>
        have bits : code / 64 % 32 * 64 + code % 64 = code := by omega
        rw [List.foldl_cons, List.foldl_cons, List.foldl_nil,
          take_lead read (by omega), start_two read (by omega) (by omega),
          take_last read last (by omega) (by omega), bits, same]
    · split
      · next more stillMore three =>
          obtain ⟨low, high, begins, above, below⟩ : ∃ low high,
              start read (code / 4096 % 16 + 0xE0) =
                ⟨read, some ⟨2, low, high, code / 4096 % 16⟩⟩ ∧
              low ≤ code / 64 % 64 + 0x80 ∧ code / 64 % 64 + 0x80 ≤ high :=
            start_three read (by omega) last (by omega) (by omega)
          have bits : (code / 4096 % 16 * 64 + code / 64 % 64) * 64 +
              code % 64 = code := by omega
          rw [List.foldl_cons, List.foldl_cons, List.foldl_cons, List.foldl_nil,
            take_lead read (by omega), begins, take_more read last above below,
            take_last read last (by omega) (by omega), bits, same]
      · next more stillMore mostly =>
          obtain ⟨low, high, begins, above, below⟩ : ∃ low high,
              start read (code / 262144 % 8 + 0xF0) =
                ⟨read, some ⟨3, low, high, code / 262144 % 8⟩⟩ ∧
              low ≤ code / 4096 % 64 + 0x80 ∧ code / 4096 % 64 + 0x80 ≤ high :=
            start_four read (by omega) last (by omega) (by omega)
          have bits :
              ((code / 262144 % 8 * 64 + code / 4096 % 64) * 64 +
                  code / 64 % 64) * 64 + code % 64 = code := by omega
          rw [List.foldl_cons, List.foldl_cons, List.foldl_cons,
            List.foldl_cons, List.foldl_nil, take_lead read (by omega), begins,
            take_more read last above below,
            take_more read last (by omega) (by omega),
            take_last read last (by omega) (by omega), bits, same]

theorem foldl_encode (read text : Text) :
    text.encode.foldl take ⟨read, none⟩ = ⟨text.reverse ++ read, none⟩ := by
  induction text generalizing read with
  | nil => rfl
  | cons head tail ih =>
      rw [Text.encode, List.flatMap_cons, List.foldl_append, foldl_encodeChar]
      exact (ih (head :: read)).trans (by simp)

end Reading

/-- Reading gives back every text that was encoded. -/
theorem decodeLossy_encode (text : Text) : decodeLossy text.encode = text := by
  unfold decodeLossy
  rw [Reading.foldl_encode]
  simp [Reading.finish]

end Utf8

end SqlDump
