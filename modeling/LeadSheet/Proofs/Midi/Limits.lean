import LeadSheet.Proofs.Midi.Quantity
import LeadSheet.Proofs.Number.Doubles

/-!
# Which quantities are read back

A quantity is written of every integer that is not negative, and keeps 32 bits of it; a reader takes
four bytes, which hold 28. So a number below `2 ^ 28` is read back wherever its quantity stands, and
it is the only one that is: of a greater number the lower 32 bits are read as if they were the
number, and where these do not fit into four bytes there is a fifth one, at which the reader gives
up (`readsAs_iff_of_encode?`).
-/

namespace LeadSheet.Midi.Quantity

variable {α : Type} [Scalar α]

/-- One to four bytes that are read as the number, whatever stands before and behind them. -/
structure ReadsAs (bytes : List UInt8) (n : Nat) : Prop where
  pos : 1 ≤ bytes.length
  le_four : bytes.length ≤ 4
  read : ∀ before after : List UInt8,
    readAt? (before ++ bytes ++ after) before.length = some ⟨n, bytes.length⟩

/-- Five bytes that are refused, whatever stands before and behind them. -/
structure Refused (bytes : List UInt8) : Prop where
  length : bytes.length = 5
  read : ∀ before after : List UInt8, readAt? (before ++ bytes ++ after) before.length = none

theorem readAt?_append (before bytes after : List UInt8) :
    readAt? (before ++ bytes ++ after) before.length = read? (bytes ++ after) := by
  rw [readAt?, List.append_assoc, List.drop_left]

theorem readsAs_encode {n : Nat} (h : n < 2 ^ 28) : ReadsAs (encode n) n where
  pos := encode_length_pos n
  le_four := encode_length_le h
  read before after := by rw [readAt?_append, read?_encode h]

theorem refused_encode {n : Nat} (hlow : 2 ^ 28 ≤ n) (hhigh : n < 2 ^ 32) : Refused (encode n) where
  length := by
    -- four groups stand before the last byte
    have hmost := groups_length_le 4 (n / 128) 4 (by omega)
    have hleast := lt_groups_length 4 (n / 128) 3 (by omega) (by decide)
    rw [encode_eq hhigh, List.length_append, List.length_singleton]
    omega
  read before after := by rw [readAt?_append, read?_encode_eq_none hlow hhigh]

/-- Only the lower 32 bits of a number are written. -/
theorem encode_emod (n : Nat) : encode (n % 2 ^ 32) = encode n := by
  unfold encode
  rw [Nat.pow_eq, Nat.mod_mod]

/-- A number that is written is an integer that is not negative. -/
theorem exists_of_encode? [ExactIntegers α] {x : α} {bytes : List UInt8}
    (h : encode? x = some bytes) :
    ∃ n : Nat, Scalar.integer? x = some (n : Int) ∧ bytes = encode n := by
  unfold encode? at h
  split at h
  · cases h
  · next hnonneg =>
    obtain ⟨k, hk, rfl⟩ := Option.map_eq_some_iff.mp h
    rw [ExactIntegers.lt_iff hk ExactIntegers.integer?_zero, not_lt] at hnonneg
    obtain ⟨n, rfl⟩ := Int.eq_ofNat_of_zero_le hnonneg
    exact ⟨n, hk, rfl⟩

/-- **Which numbers are read back.** Of a number that is written, an integer that is not negative,
the bytes are one to four that are read as the number if and only if it is below `2 ^ 28`. What is
read at all is what the lower 32 bits say, if that is below `2 ^ 28`; if it is not, there are five
bytes, and they are refused. -/
theorem readsAs_iff_of_encode? [ExactIntegers α] {x : α} {bytes : List UInt8}
    (h : encode? x = some bytes) :
    ∃ n : Nat, Scalar.integer? x = some (n : Int) ∧ (ReadsAs bytes n ↔ n < 2 ^ 28) ∧
      (n % 2 ^ 32 < 2 ^ 28 → ReadsAs bytes (n % 2 ^ 32)) ∧
      (2 ^ 28 ≤ n % 2 ^ 32 → Refused bytes) := by
  obtain ⟨n, hn, rfl⟩ := exists_of_encode? h
  have hword : n % 2 ^ 32 < 2 ^ 32 := Nat.mod_lt n (by decide)
  have hfits (hlt : n % 2 ^ 32 < 2 ^ 28) : ReadsAs (encode n) (n % 2 ^ 32) :=
    encode_emod n ▸ readsAs_encode hlt
  have hrefused (hle : 2 ^ 28 ≤ n % 2 ^ 32) : Refused (encode n) :=
    encode_emod n ▸ refused_encode hle hword
  refine ⟨n, hn, ⟨fun hreads => ?_, readsAs_encode⟩, hfits, hrefused⟩
  rcases lt_or_ge (n % 2 ^ 32) (2 ^ 28) with hlt | hle
  · -- the same bytes are not read as two numbers
    have hsame := (hreads.read [] []).symm.trans ((hfits hlt).read [] [])
    have hvalue : n = n % 2 ^ 32 := congrArg Read.value (Option.some.inj hsame)
    omega
  · have hnone := (hreads.read [] []).symm.trans ((hrefused hle).read [] [])
    cases hnone

/-- The greatest number that is read back, and the least one that is not. -/
theorem readsAs_iff_of_encode?_limits :
    (∃ bytes, encode? (268435455 : Float) = some bytes ∧ ReadsAs bytes 268435455) ∧
    ∃ bytes, encode? (268435456 : Float) = some bytes ∧ Refused bytes := by
  have hmost : encode? (268435455 : Float) = some [0xFF, 0xFF, 0xFF, 0x7F] := by decide +kernel
  have hleast : encode? (268435456 : Float) = some [0x81, 0x80, 0x80, 0x80, 0x00] := by
    decide +kernel
  constructor
  · obtain ⟨n, hn, -, hfits, -⟩ := readsAs_iff_of_encode? hmost
    obtain rfl : n = 268435455 := by
      have hvalue : Scalar.integer? (268435455 : Float) = some 268435455 := by decide +kernel
      rw [hvalue, Option.some.injEq] at hn
      omega
    exact ⟨_, hmost, hfits (by decide)⟩
  · obtain ⟨n, hn, -, -, hrefused⟩ := readsAs_iff_of_encode? hleast
    obtain rfl : n = 268435456 := by
      have hvalue : Scalar.integer? (268435456 : Float) = some 268435456 := by decide +kernel
      rw [hvalue, Option.some.injEq] at hn
      omega
    exact ⟨_, hleast, hrefused (by decide)⟩

/-- **Numbers that do not fit are written all the same.** Of `2 ^ 28` there are five bytes, which
are refused, and `2 ^ 32` is written as zero is. -/
theorem large_numbers_not_read_back :
    (encode? (268435456 : Float) = some [0x81, 0x80, 0x80, 0x80, 0x00] ∧
      readAt? [0x81, 0x80, 0x80, 0x80, 0x00] 0 = none) ∧
    (encode? (4294967296 : Float) = some [0x00] ∧ readAt? [0x00] 0 = some ⟨0, 1⟩) ∧
    ¬ ∀ (x : Float) (bytes : List UInt8), encode? x = some bytes →
      ∃ n : Nat, Scalar.integer? x = some (n : Int) ∧ ReadsAs bytes n := by
  have hwritten : encode? (268435456 : Float) = some [0x81, 0x80, 0x80, 0x80, 0x00] := by
    decide +kernel
  refine ⟨⟨hwritten, by decide⟩, ⟨by decide +kernel, by decide⟩, fun h => ?_⟩
  obtain ⟨n, -, hreads⟩ := h _ _ hwritten
  exact absurd hreads.le_four (by decide)

end LeadSheet.Midi.Quantity
