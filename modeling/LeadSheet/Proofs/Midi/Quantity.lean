import LeadSheet.Midi.Bytes
import Mathlib.Algebra.Ring.Int.Defs
import Mathlib.Algebra.Ring.Nat

/-!
# Quantities and fixed-size numbers read back

A quantity below `2 ^ 28` takes at most four bytes, and reading it gives the number back, whatever
bytes follow. The reader collects groups of seven bits from the front while the writer appends them
at the end, so the statement that carries the induction is about a reader that has already collected
something (`readFrom_groups`).
-/

namespace LeadSheet.Midi

/-! ## Quantities -/

namespace Quantity

theorem groups_length_le : ∀ (count n k : Nat), n < 128 ^ k → (groups count n).length ≤ k
  | 0, _, _, _ => Nat.zero_le _
  | count + 1, n, k, h => by
      rw [groups]
      split
      · exact Nat.zero_le _
      · match k with
        | 0 => omega
        | k + 1 =>
          rw [Nat.pow_succ] at h
          have := groups_length_le count (n / 128) k (by omega)
          rw [List.length_append, List.length_singleton]
          omega

/-- Collecting the groups of a number shifts what was collected before them. -/
theorem readFrom_groups : ∀ (count n value size k : Nat) (rest : List UInt8),
    n < 128 ^ k → k ≤ count → size + k ≤ 3 →
    readFrom value size (groups count n ++ rest)
      = readFrom (value * 128 ^ (groups count n).length + n) (size + (groups count n).length) rest
  | 0, n, value, size, k, rest, hn, hk, _ => by
      have hk0 : k = 0 := by omega
      subst hk0
      have hn0 : n = 0 := by omega
      subst hn0
      simp [groups]
  | count + 1, n, value, size, k, rest, hn, hk, hsize => by
      rw [groups]
      split
      · rename_i h0
        subst h0
        simp
      · match k with
        | 0 => omega
        | k + 1 =>
          have hlt : n / 128 < 128 ^ k := by
            rw [Nat.pow_succ] at hn
            omega
          -- the last group is read last, behind those of `n / 128`
          have hlength := groups_length_le count (n / 128) k hlt
          rw [List.append_assoc,
            readFrom_groups count (n / 128) value size k _ hlt (by omega) (by omega)]
          have hbyte : (UInt8.ofNat (128 + n % 128)).toNat = 128 + n % 128 :=
            UInt8.toNat_ofNat_of_lt' (by rw [UInt8.size]; omega)
          rw [List.singleton_append, readFrom]
          rw [if_neg (by rw [UInt8.lt_iff_toNat_lt, hbyte]; simp), if_neg (by omega), hbyte,
            List.length_append, List.length_singleton, Nat.pow_succ, ← Nat.add_assoc]
          congr 1
          rw [Nat.add_mul, Nat.mul_assoc]
          omega

theorem encode_eq {n : Nat} (h : n < 2 ^ 32) :
    encode n = groups 4 (n / 128) ++ [UInt8.ofNat (n % 128)] := by
  unfold encode
  rw [Nat.mod_eq_of_lt (Nat.lt_of_lt_of_le h (by decide))]

/-- A quantity takes four bytes at most. -/
theorem encode_length_le {n : Nat} (h : n < 2 ^ 28) : (encode n).length ≤ 4 := by
  have := groups_length_le 4 (n / 128) 3 (by omega)
  rw [encode_eq (by omega), List.length_append, List.length_singleton]
  omega

theorem encode_length_pos (n : Nat) : 0 < (encode n).length := by
  simp [encode]

/-- **Reading undoes writing**, up to the four bytes that a reader takes. -/
theorem read?_encode {n : Nat} (h : n < 2 ^ 28) (rest : List UInt8) :
    read? (encode n ++ rest) = some ⟨n, (encode n).length⟩ := by
  have hbyte : (UInt8.ofNat (n % 128)).toNat = n % 128 :=
    UInt8.toNat_ofNat_of_lt' (by rw [UInt8.size]; omega)
  unfold read?
  rw [encode_eq (by omega), List.append_assoc,
    readFrom_groups 4 (n / 128) 0 0 3 _ (by omega) (by omega) (by omega), List.singleton_append,
    readFrom]
  rw [if_pos (by rw [UInt8.lt_iff_toNat_lt, hbyte]; exact Nat.mod_lt _ (by decide)), hbyte,
    List.length_append, List.length_singleton]
  congr 2
  · omega
  · omega

theorem lt_groups_length : ∀ (count n k : Nat), 128 ^ k ≤ n → k < count →
    k < (groups count n).length
  | count + 1, n, 0, h, _ => by
      rw [groups, if_neg (by omega)]
      simp
  | count + 1, n, k + 1, h, hk => by
      rw [Nat.pow_succ] at h
      have := lt_groups_length count (n / 128) k (by omega) (by omega)
      have hpos := Nat.pow_pos (a := 128) (n := k) (by decide)
      rw [groups, if_neg (by omega), List.length_append, List.length_singleton]
      omega

/-- **A quantity of five bytes is refused**: the fourth one does not end it. -/
theorem read?_encode_eq_none {n : Nat} (hlow : 2 ^ 28 ≤ n) (hhigh : n < 2 ^ 32)
    (rest : List UInt8) : read? (encode n ++ rest) = none := by
  have hthree : (groups 3 (n / 128 / 128)).length = 3 := Nat.le_antisymm
    (groups_length_le 3 _ 3 (by omega)) (lt_groups_length 3 _ 2 (by omega) (by decide))
  have hbyte : (UInt8.ofNat (128 + n / 128 % 128)).toNat = 128 + n / 128 % 128 :=
    UInt8.toNat_ofNat_of_lt' (by rw [UInt8.size]; omega)
  unfold read?
  rw [encode_eq hhigh, groups, if_neg (by omega), List.append_assoc, List.append_assoc,
    readFrom_groups 3 (n / 128 / 128) 0 0 3 _ (by omega) (by omega) (by omega), hthree,
    List.singleton_append, readFrom]
  rw [if_neg (by rw [UInt8.lt_iff_toNat_lt, hbyte]; simp), if_pos (by decide)]

end Quantity

/-! ## Fixed-size numbers -/

@[simp] theorem bigEndian_length : ∀ (count : Nat) (n : Int), (bigEndian count n).length = count
  | 0, _ => rfl
  | count + 1, n => by
      rw [bigEndian, List.length_append, bigEndian_length count, List.length_singleton]

theorem toNat_byteOf (n : Int) : ((byteOf n).toNat : Int) = n % 256 := by
  unfold byteOf
  rw [UInt8.toNat_ofNat_of_lt' (by rw [UInt8.size]; omega)]
  omega

/-- The last byte of a number, and the bytes before it. -/
theorem emod_mul_byte (n : Int) {k : Int} (hk : 0 < k) :
    n % (256 * k) = n / 256 % k * 256 + n % 256 := by
  have hquotient := Int.mul_ediv_add_emod (n / 256) k
  have hlow := Int.emod_nonneg (n / 256) (Int.ne_of_gt hk)
  have hhigh := Int.emod_lt_of_pos (n / 256) hk
  have hvalue : n = n / 256 % k * 256 + n % 256 + 256 * k * (n / 256 / k) := by
    rw [Int.mul_assoc]
    omega
  conv => lhs; rw [hvalue, Int.add_mul_emod_self_left]
  exact Int.emod_eq_of_lt (by omega) (by omega)

/-- The number that bytes stand for, the high byte first: what fits of the number written. -/
theorem foldl_bigEndian_emod : ∀ (count : Nat) (n : Int),
    ((bigEndian count n).foldl (fun sum b => sum * 256 + b.toNat) 0 : Nat) = n % 256 ^ count
  | 0, n => by simp [bigEndian]
  | count + 1, n => by
      have hrest := foldl_bigEndian_emod count (n / 256)
      rw [bigEndian, List.foldl_append, List.foldl_cons, List.foldl_nil, Int.pow_succ,
        Int.mul_comm (256 ^ count), emod_mul_byte n (Int.pow_pos (by decide)), Int.natCast_add,
        Int.natCast_mul, hrest, toNat_byteOf]
      rfl

@[simp] theorem ascii_length (text : List Char) : (ascii text).length = text.length :=
  List.length_map ..

end LeadSheet.Midi
