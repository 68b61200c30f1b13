import LeadSheet.Text.Utf8

/-!
# Text survives its encoding

What is written as UTF-8 is read back (`decode_encode`). A character of one byte is read at once. Of
any other one the first byte announces how many bytes follow and, by the range of the next one, that
the number is neither overlong nor a surrogate nor too large; all further bytes are alike. So there
is one lemma for the first byte of each size and two for the bytes behind it.
-/

namespace LeadSheet.Text.Utf8

/-! ## First bytes -/

section

variable {bits : Nat}

theorem lead?_one (h : bits < 0x80) : lead? bits = some ⟨bits, 0, 0x80, 0xBF⟩ := if_pos h

theorem lead?_two (hlow : 2 ≤ bits) (hhigh : bits < 0x20) :
    lead? (0xC0 + bits) = some ⟨bits, 1, 0x80, 0xBF⟩ := by
  unfold lead?
  grind

theorem lead?_three (h : bits < 0x10) :
    lead? (0xE0 + bits) = some ⟨bits, 2, if bits = 0 then 0xA0 else 0x80,
      if bits = 0xD then 0x9F else 0xBF⟩ := by
  unfold lead?
  grind

theorem lead?_four (h : bits ≤ 4) :
    lead? (0xF0 + bits) = some ⟨bits, 3, if bits = 0 then 0x90 else 0x80,
      if bits = 4 then 0x8F else 0xBF⟩ := by
  unfold lead?
  grind

end

theorem decodeFrom_first {byte : UInt8} {n : Nat} {lead : Lead} (rest : List UInt8)
    (hbyte : byte.toNat = n) (h : lead? n = some lead) (htails : 0 < lead.tails) :
    decodeFrom none (byte :: rest) = decodeFrom (some lead) rest := by
  rw [decodeFrom, decodeFrom.begin, hbyte]
  simp [h, Nat.ne_of_gt htails]

/-! ## Bytes behind the first -/

theorem toNat_tailByte (n unit : Nat) : (tailByte n unit).toNat = 0x80 + n / unit % 0x40 :=
  UInt8.toNat_ofNat_of_lt' (by rw [UInt8.size]; omega)

section

variable {bits tails low high n : Nat} {byte : UInt8} (rest : List UInt8)

/-- A byte in range that is not the last one adds its six bits. -/
theorem decodeFrom_inner (hlow : low ≤ byte.toNat) (hhigh : byte.toNat ≤ high)
    (hn : bits * 64 + (byte.toNat - 0x80) = n) :
    decodeFrom (some ⟨bits, tails + 2, low, high⟩) (byte :: rest)
      = decodeFrom (some ⟨n, tails + 1, 0x80, 0xBF⟩) rest := by
  rw [decodeFrom]
  simp [hlow, hhigh, hn]

/-- The last byte ends the character. -/
theorem decodeFrom_last (hlow : low ≤ byte.toNat) (hhigh : byte.toNat ≤ high)
    (hn : bits * 64 + (byte.toNat - 0x80) = n) :
    decodeFrom (some ⟨bits, 1, low, high⟩) (byte :: rest)
      = Char.ofNat n :: decodeFrom none rest := by
  rw [decodeFrom]
  simp [hlow, hhigh, hn]

end

/-! ## Characters -/

section

variable {n : Nat} (rest : List UInt8)

theorem decodeFrom_one (h : n < 0x80) :
    decodeFrom none (UInt8.ofNat n :: rest) = Char.ofNat n :: decodeFrom none rest := by
  have hbyte : (UInt8.ofNat n).toNat = n := UInt8.toNat_ofNat_of_lt' (by rw [UInt8.size]; omega)
  rw [decodeFrom, decodeFrom.begin, hbyte, lead?_one h]
  rfl

theorem decodeFrom_two (hlow : 0x80 ≤ n) (hhigh : n < 0x800) :
    decodeFrom none (UInt8.ofNat (0xC0 + n / 0x40) :: tailByte n 1 :: rest)
      = Char.ofNat n :: decodeFrom none rest := by
  have hbyte : (UInt8.ofNat (0xC0 + n / 0x40)).toNat = 0xC0 + n / 0x40 :=
    UInt8.toNat_ofNat_of_lt' (by rw [UInt8.size]; omega)
  have hlast := toNat_tailByte n 1
  have hlead := lead?_two (show 2 ≤ n / 0x40 by omega) (by omega)
  rw [decodeFrom_first _ hbyte hlead Nat.one_pos]
  exact decodeFrom_last rest (by omega) (by omega) (by omega)

theorem decodeFrom_three (hlow : 0x800 ≤ n) (hhigh : n < 0x10000)
    (hsurrogate : n < 0xD800 ∨ 0xDFFF < n) :
    decodeFrom none (UInt8.ofNat (0xE0 + n / 0x1000) :: tailByte n 0x40 :: tailByte n 1 :: rest)
      = Char.ofNat n :: decodeFrom none rest := by
  have hbyte : (UInt8.ofNat (0xE0 + n / 0x1000)).toNat = 0xE0 + n / 0x1000 :=
    UInt8.toNat_ofNat_of_lt' (by rw [UInt8.size]; omega)
  have hsecond := toNat_tailByte n 0x40
  have hlast := toNat_tailByte n 1
  have hlead := lead?_three (show n / 0x1000 < 0x10 by omega)
  -- the second byte is in range since the number is neither overlong nor a surrogate
  rw [decodeFrom_first _ hbyte hlead Nat.two_pos,
    decodeFrom_inner _ (n := n / 0x40) (by split <;> omega) (by split <;> omega) (by omega)]
  exact decodeFrom_last rest (by omega) (by omega) (by omega)

theorem decodeFrom_four (hlow : 0x10000 ≤ n) (hhigh : n < 0x110000) :
    decodeFrom none (UInt8.ofNat (0xF0 + n / 0x40000) :: tailByte n 0x1000 :: tailByte n 0x40
        :: tailByte n 1 :: rest)
      = Char.ofNat n :: decodeFrom none rest := by
  have hbyte : (UInt8.ofNat (0xF0 + n / 0x40000)).toNat = 0xF0 + n / 0x40000 :=
    UInt8.toNat_ofNat_of_lt' (by rw [UInt8.size]; omega)
  have hsecond := toNat_tailByte n 0x1000
  have hthird := toNat_tailByte n 0x40
  have hlast := toNat_tailByte n 1
  have hlead := lead?_four (show n / 0x40000 ≤ 4 by omega)
  rw [decodeFrom_first _ hbyte hlead (Nat.succ_pos 2),
    decodeFrom_inner _ (n := n / 0x1000) (by split <;> omega) (by split <;> omega) (by omega),
    decodeFrom_inner _ (n := n / 0x40) (by omega) (by omega) (by omega)]
  exact decodeFrom_last rest (by omega) (by omega) (by omega)

/-- A character's bytes are read as the character, whatever stands behind them. -/
theorem decodeFrom_encodeChar (c : Char) :
    decodeFrom none (encodeChar c ++ rest) = c :: decodeFrom none rest := by
  have hvalid : c.toNat < 0xD800 ∨ 0xDFFF < c.toNat ∧ c.toNat < 0x110000 := c.valid
  have hchar : Char.ofNat c.toNat = c := Char.ofNat_toNat c
  unfold encodeChar
  dsimp only
  split
  · next hone => exact (decodeFrom_one rest hone).trans (by rw [hchar])
  · next hone =>
    split
    · next htwo => exact (decodeFrom_two rest (by omega) htwo).trans (by rw [hchar])
    · next htwo =>
      split
      · next hthree =>
        exact (decodeFrom_three rest (by omega) hthree (by omega)).trans (by rw [hchar])
      · next hthree => exact (decodeFrom_four rest (by omega) (by omega)).trans (by rw [hchar])

end

/-- **A text is read back from its bytes.** -/
theorem decode_encode (text : List Char) : decode (encode text) = text := by
  unfold decode encode
  induction text with
  | nil => rw [List.flatMap_nil, decodeFrom]; rfl
  | cons c text ih => rw [List.flatMap_cons, decodeFrom_encodeChar, ih]

end LeadSheet.Text.Utf8
