import LeadSheet.Number.Numeral
import Mathlib.Data.List.Basic
import Mathlib.Tactic.Ring

/-!
# Digits

Numbers are written with `Nat.toDigits` and read with `Numeral.ofDigits`. Writing gives as many
digits as the number is great, no zero in front, and what was written is read back; digits that are
read one after the other, as those before and behind a point are, count as one numeral.
-/

namespace LeadSheet

open Numeral

/-! ## How many digits there are -/

theorem lt_ten_pow_length (n : Nat) : n < 10 ^ (Nat.toDigits 10 n).length :=
  (Nat.length_toDigits_le_iff (by decide) Nat.length_toDigits_pos).mp le_rfl

theorem ten_pow_le_of_pos {n : Nat} (hpos : 0 < n) : 10 ^ ((Nat.toDigits 10 n).length - 1) ≤ n := by
  rcases Nat.eq_zero_or_pos ((Nat.toDigits 10 n).length - 1) with hzero | hlength
  · rwa [hzero, Nat.pow_zero]
  · refine not_lt.mp fun hlt => ?_
    have hle := (Nat.length_toDigits_le_iff (by decide) hlength).mpr hlt
    have hpos := Nat.length_toDigits_pos (b := 10) (n := n)
    omega

/-! ## What digits are worth -/

theorem digitValue_of_isDigit {c : Char} (h : c.isDigit = true) :
    digitValue c = c.toNat - '0'.toNat := by
  unfold digitValue
  rw [if_pos h]

theorem ofDigits_singleton (c : Char) : ofDigits 10 [c] = digitValue c := by
  change 10 * 0 + digitValue c = _
  rw [Nat.mul_zero, Nat.zero_add]

theorem ofDigits_append (digits more : List Char) :
    ofDigits 10 (digits ++ more) = 10 ^ more.length * ofDigits 10 digits + ofDigits 10 more := by
  induction more generalizing digits with
  | nil =>
    rw [List.append_nil, List.length_nil, Nat.pow_zero, Nat.one_mul]
    rfl
  | cons c rest ih =>
    have hfirst : ofDigits 10 (digits ++ [c]) = 10 * ofDigits 10 digits + digitValue c :=
      List.foldl_append ..
    have hrest : ofDigits 10 (c :: rest) = 10 ^ rest.length * digitValue c + ofDigits 10 rest := by
      rw [← ofDigits_singleton]
      exact ih [c]
    rw [List.append_cons, ih, hfirst, hrest, List.length_cons, Nat.pow_succ]
    ring

theorem ofDigits_replicate_zero (count : Nat) : ofDigits 10 (List.replicate count '0') = 0 := by
  induction count with
  | zero => rfl
  | succ count ih =>
    rw [List.replicate_succ', ofDigits_append, ih]
    rfl

theorem ofDigits_eq_ofDigitChars {digits : List Char} (h : ∀ c ∈ digits, c.isDigit = true) :
    ofDigits 10 digits = Nat.ofDigitChars 10 digits 0 := by
  rw [Nat.ofDigitChars_eq_foldl]
  exact List.foldl_ext _ _ _ fun _ c hc => by rw [digitValue_of_isDigit (h c hc)]

theorem isDigit_toDigits {n : Nat} : ∀ c ∈ Nat.toDigits 10 n, c.isDigit = true :=
  fun _ hc => Nat.isDigit_of_mem_toDigits (by decide) (by decide) hc

/-- What was written is read back. -/
theorem ofDigits_toDigits (n : Nat) : ofDigits 10 (Nat.toDigits 10 n) = n := by
  rw [ofDigits_eq_ofDigitChars isDigit_toDigits, Nat.ofDigitChars_ten_toDigits]

theorem ofDigits_lt {digits : List Char} (h : ∀ c ∈ digits, c.isDigit = true) :
    ofDigits 10 digits < 10 ^ digits.length := by
  induction digits with
  | nil => exact Nat.one_pos
  | cons c rest ih =>
    have hc : digitValue c < 10 := by
      have hdigit := h c List.mem_cons_self
      rw [digitValue_of_isDigit hdigit]
      have hle : c.toNat ≤ 57 := (Char.isDigit_iff_toNat.mp hdigit).2
      change c.toNat - 48 < 10
      omega
    have hrest := ih fun c hc => h c (List.mem_cons_of_mem _ hc)
    rw [← List.singleton_append, ofDigits_append, ofDigits_singleton, List.length_append,
      List.length_singleton, Nat.add_comm 1, Nat.pow_succ]
    have hle := Nat.mul_le_mul_left (10 ^ rest.length) (Nat.le_of_lt_succ hc)
    omega

/-- No zero stands before the digits of a positive number. -/
theorem head?_toDigits_ne {n : Nat} (hpos : 0 < n) : (Nat.toDigits 10 n).head? ≠ some '0' := by
  intro hhead
  obtain ⟨rest, hrest⟩ := List.head?_eq_some_iff.mp hhead
  have hle := ten_pow_le_of_pos hpos
  have hvalue := ofDigits_toDigits n
  have hlt := ofDigits_lt fun c hc =>
    isDigit_toDigits (n := n) c (hrest ▸ List.mem_cons_of_mem '0' hc)
  -- the other digits are worth less than the first place alone
  rw [hrest, List.length_cons, Nat.add_sub_cancel] at hle
  rw [hrest, ← List.singleton_append, ofDigits_append] at hvalue
  have hzero : ofDigits 10 ['0'] = 0 := rfl
  rw [hzero, Nat.mul_zero, Nat.zero_add] at hvalue
  omega

end LeadSheet
