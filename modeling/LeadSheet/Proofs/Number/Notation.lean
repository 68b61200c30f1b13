import LeadSheet.Json.Reader
import LeadSheet.Number.Notation
import LeadSheet.Proofs.Number.Signs
import LeadSheet.Proofs.Number.Digits
import LeadSheet.Proofs.Number.Shortest

/-!
# What is written for a number is read back as the number

A number is written as digits, perhaps a point and more digits, and perhaps a power of ten, in one
of four forms. All four are texts of the kind `numeralText` describes, and give the digits and the
power of the shortest decimal (`ofDecimal_writtenAs`). A reader takes such a text apart again
(`number?_numeralText`); and since the decimal rounds to the number, the number is what it gives
(`number?_ofFloat`).

The only finite number this does not hold for is negative zero, which is written without its sign.
-/

namespace LeadSheet

open Float.Model (UnpackedFloat)
open Float.Model.Format (binary64)
open Float.Model.UnpackedFloat
open Double

/-! ## Decimals in range -/

section

variable {m : Nat} {e : Int} {x : Rat}

/-- No double is as great as the 309th power of ten. -/
theorem Double.Near.lt_ten_zpow (hheld : Held m e) (hnear : Near m e x) :
    x < 10 ^ (309 : Int) := by
  have hm : (m : Rat) + 1 ≤ 2 ^ 53 := by exact_mod_cast hheld.lt
  have hgreatest : (2 : Rat) ^ e ≤ 2 ^ (971 : Int) := zpow_le_zpow_right₀ one_le_two hheld.greatest
  have hpowers : ((2 : Rat) ^ 93) ^ 11 ≤ (10 ^ 28) ^ 11 :=
    pow_le_pow_left₀ (by positivity) (by norm_num) 11
  calc x ≤ (m + 1 / 2) * 2 ^ e := hnear.bounds.2
    _ ≤ 2 ^ 53 * 2 ^ (971 : Int) :=
      mul_le_mul (by linarith) hgreatest (by positivity) (by positivity)
    _ = (2 ^ 93) ^ 11 * 2 := by
      rw [← pow_mul, ← zpow_natCast, ← zpow_natCast, ← zpow_add₀ two_ne_zero,
        ← zpow_add_one₀ two_ne_zero]
      rfl
    _ ≤ (10 ^ 28) ^ 11 * 2 := mul_le_mul_of_nonneg_right hpowers (by norm_num)
    _ < (10 ^ 28) ^ 11 * 10 := mul_lt_mul_of_pos_left (by norm_num) (by positivity)
    _ = 10 ^ (309 : Int) := by
      rw [← pow_mul, ← zpow_natCast, ← zpow_add_one₀ (by norm_num)]
      rfl

/-- What rounds to a double above zero is not as small as the 330th power of a tenth. -/
theorem Double.Near.ten_zpow_le (hheld : Held m e) (hnear : Near m e x) :
    (10 : Rat) ^ (-330 : Int) ≤ x := by
  have hm : (1 : Rat) ≤ m := by exact_mod_cast hheld.pos
  have hbelow := below_le m e
  have hleast : (2 : Rat) ^ (-1074 : Int) ≤ 2 ^ e := zpow_le_zpow_right₀ one_le_two hheld.least
  have hpowers : ((2 : Rat) ^ 43) ^ 25 ≤ (10 ^ 13) ^ 25 :=
    pow_le_pow_left₀ (by positivity) (by norm_num) 25
  calc (10 : Rat) ^ (-330 : Int) ≤ 10 ^ (-325 : Int) :=
        zpow_le_zpow_right₀ (by norm_num) (by decide)
    _ = ((10 ^ 13) ^ 25)⁻¹ := by
      rw [← pow_mul, ← zpow_natCast, ← zpow_neg]
      rfl
    _ ≤ ((2 ^ 43) ^ 25)⁻¹ := inv_anti₀ (by positivity) hpowers
    _ = 1 / 2 * 2 ^ (-1074 : Int) := by
      rw [← pow_mul, ← zpow_natCast, ← zpow_neg, one_div, mul_comm (2⁻¹ : Rat),
        ← zpow_sub_one₀ two_ne_zero]
      rfl
    _ ≤ (m - below m e / 4) * 2 ^ e :=
      mul_le_mul (by linarith) hleast (zpow_pos two_pos _).le (by linarith)
    _ ≤ x := hnear.bounds.1

/-- A decimal that rounds to a double is not so long that its size alone decides. -/
theorem size_of_near (hheld : Held m e) {digits : Nat} {k : Int} (hpos : 0 < digits)
    (hnear : Near m e (digits * 10 ^ k)) :
    ((Nat.toDigits 10 digits).length : Int) + k ≤ 309 ∧
      -330 ≤ ((Nat.toDigits 10 digits).length : Int) + k := by
  have hten : (0 : Rat) < 10 ^ k := by positivity
  have hlength := Nat.length_toDigits_pos (b := 10) (n := digits)
  have hlow : ((10 ^ ((Nat.toDigits 10 digits).length - 1) : Nat) : Rat) ≤ digits := by
    exact_mod_cast ten_pow_le_of_pos hpos
  have hhigh : (digits : Rat) ≤ (10 ^ (Nat.toDigits 10 digits).length : Nat) := by
    exact_mod_cast (lt_ten_pow_length digits).le
  generalize (Nat.toDigits 10 digits).length = length at hlow hhigh hlength
  constructor
  · have hlt : (10 : Rat) ^ ((length : Int) - 1 + k) < 10 ^ (309 : Int) := by
      calc (10 : Rat) ^ ((length : Int) - 1 + k) = ((10 ^ (length - 1) : Nat) : Rat) * 10 ^ k := by
            rw [zpow_add₀ (by norm_num),
              show (length : Int) - 1 = ((length - 1 : Nat) : Int) by omega, zpow_natCast]
            push_cast
            rfl
        _ ≤ digits * 10 ^ k := mul_le_mul_of_nonneg_right hlow hten.le
        _ < 10 ^ (309 : Int) := hnear.lt_ten_zpow hheld
    have := (zpow_lt_zpow_iff_right₀ (by norm_num : (1 : Rat) < 10)).mp hlt
    omega
  · have hle : (10 : Rat) ^ (-330 : Int) ≤ 10 ^ ((length : Int) + k) := by
      calc (10 : Rat) ^ (-330 : Int) ≤ digits * 10 ^ k := hnear.ten_zpow_le hheld
        _ ≤ (10 ^ length : Nat) * 10 ^ k := mul_le_mul_of_nonneg_right hhigh hten.le
        _ = 10 ^ ((length : Int) + k) := by
          rw [zpow_add₀ (by norm_num), zpow_natCast]
          push_cast
          rfl
    exact (zpow_le_zpow_iff_right₀ (by norm_num : (1 : Rat) < 10)).mp hle

end

/-- **A numeral in the interval of a double gives the double.** -/
theorem unpack_scaled {m : Nat} {e : Int} (hheld : Held m e) {digits : Nat} {k : Int}
    (hpos : 0 < digits) (hnear : Near m e (digits * 10 ^ k)) :
    unpack binary64 (Numeral.scaled digits k).toModel.toBits.toBitVec
      = .finite .positive m e hheld.pos := by
  obtain ⟨hmax, hmin⟩ := size_of_near hheld hpos hnear
  have hlog : (Nat.toDigits 10 digits).length - 1 ≤ digits.log2 := by
    refine (Nat.le_log2 hpos.ne').mpr (le_trans ?_ (ten_pow_le_of_pos hpos))
    exact Nat.pow_le_pow_left (by decide) _
  unfold Numeral.scaled
  dsimp only
  rw [if_neg hpos.ne', if_neg (by omega), if_neg (by omega)]
  refine (ofScientific_rounds hpos _ ?_ ?_ ?_).unpack_of_near hheld hnear
  · by_cases hneg : k < 0
    · rw [if_pos (decide_eq_true hneg)]
      omega
    · rw [if_neg (by rw [decide_eq_false hneg]; exact Bool.false_ne_true)]
      omega
  · omega
  · omega

/-! ## Texts of numbers -/

/-- A numeral: digits, more of them behind a point if there are any, and a power of ten if there is
one. -/
def numeralText (whole fraction : List Char) (power : Option Int) : List Char :=
  whole ++ (if fraction = [] then [] else '.' :: fraction) ++
    match power with
    | none => []
    | some p => 'e' :: (if p < 0 then '-' else '+') :: Nat.toDigits 10 p.natAbs

/-- The digits are digits, at least one before the point, and zero does not stand before others. -/
structure WellFormed (whole fraction : List Char) : Prop where
  ne_nil : whole ≠ []
  digits : ∀ c ∈ whole, c.isDigit = true
  places : ∀ c ∈ fraction, c.isDigit = true
  head : whole.head? = some '0' → whole.length = 1

/-- No number goes on here. -/
structure Stops (rest : List Char) : Prop where
  digit : ∀ c ∈ rest.head?, c.isDigit = false
  point : ∀ c ∈ rest.head?, c ≠ '.'
  power : ∀ c ∈ rest.head?, ¬(c = 'e' ∨ c = 'E')

theorem takeWhile_digits {digits rest : List Char} (h : ∀ c ∈ digits, c.isDigit = true)
    (hrest : ∀ c ∈ rest.head?, c.isDigit = false) :
    (digits ++ rest).takeWhile Char.isDigit = digits ∧
      (digits ++ rest).dropWhile Char.isDigit = rest := by
  rw [List.takeWhile_append_of_pos h, List.dropWhile_append_of_pos h]
  cases rest with
  | nil => exact ⟨List.append_nil _, rfl⟩
  | cons c rest =>
    have hc : ¬c.isDigit = true := Bool.eq_false_iff.mp (hrest c rfl)
    rw [List.takeWhile_cons_of_neg hc, List.dropWhile_cons_of_neg hc]
    exact ⟨List.append_nil _, rfl⟩

/-- The text of a power of ten gives the power. -/
theorem exponentPart?_power (p : Int) {rest : List Char} (hrest : Stops rest) :
    Numeral.exponentPart? ('e' :: (if p < 0 then '-' else '+') :: Nat.toDigits 10 p.natAbs ++ rest)
      = some (p, rest) := by
  obtain ⟨htake, hdrop⟩ := takeWhile_digits (isDigit_toDigits (n := p.natAbs)) hrest.digit
  have hne : Nat.toDigits 10 p.natAbs ≠ [] := Nat.toDigits_ne_nil
  rcases lt_or_ge p 0 with hneg | hpos
  · rw [if_pos hneg]
    unfold Numeral.exponentPart?
    simp only [List.cons_append, true_or, if_true, htake, hdrop, if_neg hne, ofDigits_toDigits]
    exact congrArg (fun k => some (k, rest)) (by omega)
  · rw [if_neg (not_lt.mpr hpos)]
    unfold Numeral.exponentPart?
    simp only [List.cons_append, true_or, if_true, htake, hdrop, if_neg hne, ofDigits_toDigits]
    exact congrArg (fun k => some (k, rest)) (by rw [if_neg Bool.false_ne_true]; omega)

theorem exponentPart?_none {rest : List Char} (hrest : Stops rest) :
    Numeral.exponentPart? rest = some (0, rest) := by
  cases rest with
  | nil => rfl
  | cons c rest =>
    exact if_neg (hrest.power c rfl)

/-- What stands behind the digits of a numeral. -/
def powerText (power : Option Int) : List Char :=
  match power with
  | none => []
  | some p => 'e' :: (if p < 0 then '-' else '+') :: Nat.toDigits 10 p.natAbs

theorem behind_digits (power : Option Int) {rest : List Char} (hrest : Stops rest) :
    Numeral.exponentPart? (powerText power ++ rest) = some (power.getD 0, rest) ∧
      (∀ c ∈ (powerText power ++ rest).head?, c.isDigit = false) ∧
      ∀ c ∈ (powerText power ++ rest).head?, c ≠ '.' := by
  cases power with
  | none => exact ⟨exponentPart?_none hrest, hrest.digit, hrest.point⟩
  | some p =>
    refine ⟨exponentPart?_power p hrest, fun c hc => ?_, fun c hc => ?_⟩
    · cases hc
      rfl
    · cases hc
      decide

/-- Splits off a point and the digits behind it. -/
def places? : List Char → Option (List Char × List Char)
  | '.' :: rest =>
    let fraction := rest.takeWhile Char.isDigit
    if fraction = [] then none else some (fraction, rest.dropWhile Char.isDigit)
  | rest => some ([], rest)

/-- Reads a number from behind its sign. -/
def behindSign? (negative : Bool) (text : List Char) : Option (Float × List Char) :=
  let whole := text.takeWhile Char.isDigit
  if whole = [] ∨ (whole.head? = some '0' ∧ whole.length ≠ 1) then none
  else match places? (text.dropWhile Char.isDigit) with
    | none => none
    | some (fraction, rest) =>
      (Numeral.exponentPart? rest).map fun (exponent, rest) =>
        let size := Numeral.ofParts whole fraction exponent
        (if negative then -size else size, rest)

theorem number?_eq_behindSign? (negative : Bool) {text : List Char}
    (hminus : ∀ c ∈ text.head?, c ≠ '-') :
    Json.number? ((if negative then ['-'] else []) ++ text) = behindSign? negative text := by
  cases negative with
  | true => rfl
  | false =>
    unfold Json.number?
    split
    next heq =>
      split at heq
      · next hsign =>
        exact absurd rfl (hminus '-' (congrArg List.head? hsign))
      · cases heq
        rfl

theorem places?_eq {fraction tail : List Char} (hplaces : ∀ c ∈ fraction, c.isDigit = true)
    (hdigit : ∀ c ∈ tail.head?, c.isDigit = false) (hpoint : ∀ c ∈ tail.head?, c ≠ '.') :
    places? ((if fraction = [] then [] else '.' :: fraction) ++ tail) = some (fraction, tail) := by
  by_cases hfraction : fraction = []
  · rw [if_pos hfraction, List.nil_append, hfraction]
    unfold places?
    split
    · exact absurd rfl (hpoint '.' rfl)
    · rfl
  · obtain ⟨htake, hdrop⟩ := takeWhile_digits hplaces hdigit
    rw [if_neg hfraction]
    change (if (fraction ++ tail).takeWhile Char.isDigit = [] then none
      else some ((fraction ++ tail).takeWhile Char.isDigit,
        (fraction ++ tail).dropWhile Char.isDigit)) = _
    rw [htake, hdrop, if_neg hfraction]

theorem behindSign?_eq {whole fraction tail rest : List Char} (h : WellFormed whole fraction)
    (negative : Bool) {e : Int} (hpower : Numeral.exponentPart? tail = some (e, rest))
    (hdigit : ∀ c ∈ tail.head?, c.isDigit = false) (hpoint : ∀ c ∈ tail.head?, c ≠ '.') :
    behindSign? negative (whole ++ ((if fraction = [] then [] else '.' :: fraction) ++ tail))
      = some (if negative then -Numeral.ofParts whole fraction e
          else Numeral.ofParts whole fraction e, rest) := by
  have hhead : ∀ c ∈ ((if fraction = [] then [] else '.' :: fraction) ++ tail).head?,
      c.isDigit = false := by
    split
    · exact hdigit
    · rintro c hc
      cases hc
      rfl
  have hzero : ¬(whole = [] ∨ whole.head? = some '0' ∧ whole.length ≠ 1) := by
    rintro (hnil | ⟨hzero, hlength⟩)
    · exact h.ne_nil hnil
    · exact hlength (h.head hzero)
  obtain ⟨htake, hdrop⟩ := takeWhile_digits h.digits hhead
  unfold behindSign?
  rw [htake, hdrop, if_neg hzero, places?_eq h.places hdigit hpoint]
  dsimp only
  rw [hpower]
  rfl

/-- **A numeral is taken apart as it was put together.** -/
theorem number?_numeralText {whole fraction : List Char} (h : WellFormed whole fraction)
    (power : Option Int) (negative : Bool) {rest : List Char} (hrest : Stops rest) :
    Json.number? ((if negative then ['-'] else []) ++ numeralText whole fraction power ++ rest)
      = some (if negative then -Numeral.ofParts whole fraction (power.getD 0)
          else Numeral.ofParts whole fraction (power.getD 0), rest) := by
  obtain ⟨hpower, hdigit, hpoint⟩ := behind_digits power hrest
  have htext : numeralText whole fraction power ++ rest = whole
      ++ ((if fraction = [] then [] else '.' :: fraction) ++ (powerText power ++ rest)) := by
    unfold numeralText powerText
    rw [List.append_assoc, List.append_assoc]
  rw [List.append_assoc, number?_eq_behindSign?, htext]
  · exact behindSign?_eq h negative hpower hdigit hpoint
  · obtain ⟨c, digits, rfl⟩ := List.exists_cons_of_ne_nil h.ne_nil
    rintro c' hc' rfl
    cases hc'
    exact absurd (h.digits '-' List.mem_cons_self) (by decide)

/-! ## The four forms -/

/-- The text is a numeral for a decimal. -/
def WrittenAs (text : String) (d : Decimal) : Prop :=
  ∃ whole fraction power, text.toList = numeralText whole fraction power ∧
    WellFormed whole fraction ∧ 0 < Numeral.ofDigits 10 (whole ++ fraction) ∧
    (Numeral.ofDigits 10 (whole ++ fraction) : Rat) * 10 ^ (power.getD 0 - fraction.length)
      = d.digits * 10 ^ d.exponent

section

variable {n : Nat} (hpos : 0 < n)

include hpos

/-- The digits of a positive number may be cut anywhere but in front. -/
theorem wellFormed_take {count : Nat} (hcount : 0 < count) {fraction : List Char}
    (hfraction : ∀ c ∈ fraction, c.isDigit = true) :
    WellFormed ((Nat.toDigits 10 n).take count) fraction where
  ne_nil := by
    rw [Ne, List.take_eq_nil_iff, not_or]
    exact ⟨hcount.ne', Nat.toDigits_ne_nil⟩
  digits c hc := isDigit_toDigits c (List.mem_of_mem_take hc)
  places := hfraction
  head hzero := by
    rw [List.head?_take, if_neg hcount.ne'] at hzero
    exact absurd hzero (head?_toDigits_ne hpos)

theorem wellFormed_append_zeros (count : Nat) :
    WellFormed (Nat.toDigits 10 n ++ List.replicate count '0') [] where
  ne_nil h := Nat.toDigits_ne_nil (List.append_eq_nil_iff.mp h).1
  digits c hc := by
    rcases List.mem_append.mp hc with hc | hc
    · exact isDigit_toDigits c hc
    · rw [List.eq_of_mem_replicate hc]
      rfl
  places _ hc := absurd hc List.not_mem_nil
  head hzero := by
    rw [List.head?_append_of_ne_nil _ Nat.toDigits_ne_nil] at hzero
    exact absurd hzero (head?_toDigits_ne hpos)

end

section

variable {d : Decimal} (hpos : 0 < d.digits)

include hpos

/-- An integer has zeros behind its digits. -/
theorem writtenAs_integer {count : Nat} (hcount : (count : Int) = d.exponent) :
    WrittenAs (String.ofList (Nat.toDigits 10 d.digits) ++ Notation.zeros count) d := by
  have hvalue : Numeral.ofDigits 10 (Nat.toDigits 10 d.digits ++ List.replicate count '0')
      = 10 ^ count * d.digits := by
    rw [ofDigits_append, ofDigits_toDigits, ofDigits_replicate_zero, List.length_replicate,
      Nat.add_zero]
  refine ⟨_, [], none, ?_, wellFormed_append_zeros hpos count, ?_, ?_⟩
  · unfold numeralText Notation.zeros
    rw [if_pos rfl, List.append_nil, List.append_nil, String.toList_append, String.toList_ofList,
      String.toList_ofList]
  · rw [List.append_nil, hvalue]
    positivity
  · rw [List.append_nil, hvalue, ← hcount, zpow_natCast, Option.getD_none, List.length_nil,
      Nat.cast_zero, sub_zero, zpow_zero]
    push_cast
    ring

/-- A point among the digits. -/
theorem writtenAs_point {point : Nat} (hpoint : 0 < point)
    (hvalue : (point : Int) = (Nat.toDigits 10 d.digits).length + d.exponent)
    (hlt : point < (Nat.toDigits 10 d.digits).length) :
    WrittenAs (String.ofList ((Nat.toDigits 10 d.digits).take point) ++ "."
      ++ String.ofList ((Nat.toDigits 10 d.digits).drop point)) d := by
  refine ⟨(Nat.toDigits 10 d.digits).take point, (Nat.toDigits 10 d.digits).drop point, none, ?_,
    wellFormed_take hpos hpoint fun c hc => isDigit_toDigits c (List.mem_of_mem_drop hc), ?_, ?_⟩
  · have hne : (Nat.toDigits 10 d.digits).drop point ≠ [] := by
      rw [Ne, List.drop_eq_nil_iff]
      omega
    unfold numeralText
    simp only [if_neg hne, String.toList_append, String.toList_ofList, List.append_nil,
      List.append_assoc]
    rfl
  · rw [List.take_append_drop, ofDigits_toDigits]
    exact hpos
  · rw [List.take_append_drop, ofDigits_toDigits, List.length_drop, Option.getD_none]
    congr 2
    omega

/-- Zeros between the point and the digits. -/
theorem writtenAs_fraction {count : Nat}
    (hcount : -(count : Int) = (Nat.toDigits 10 d.digits).length + d.exponent) :
    WrittenAs ("0." ++ Notation.zeros count ++ String.ofList (Nat.toDigits 10 d.digits)) d := by
  have hvalue : Numeral.ofDigits 10
      (['0'] ++ (List.replicate count '0' ++ Nat.toDigits 10 d.digits)) = d.digits := by
    rw [← List.append_assoc, ← List.replicate_one, List.replicate_append_replicate,
      ofDigits_append, ofDigits_replicate_zero, ofDigits_toDigits, Nat.mul_zero, Nat.zero_add]
  refine ⟨['0'], List.replicate count '0' ++ Nat.toDigits 10 d.digits, none, ?_,
    ⟨List.cons_ne_nil _ _, ?_, ?_, fun _ => rfl⟩, ?_, ?_⟩
  · have hne : List.replicate count '0' ++ Nat.toDigits 10 d.digits ≠ [] :=
      fun h => Nat.toDigits_ne_nil (List.append_eq_nil_iff.mp h).2
    unfold numeralText Notation.zeros
    simp only [if_neg hne, String.toList_append, String.toList_ofList, List.append_nil,
      List.append_assoc]
    rfl
  · rintro c hc
    rw [List.mem_singleton.mp hc]
    rfl
  · rintro c hc
    rcases List.mem_append.mp hc with hc | hc
    · rw [List.eq_of_mem_replicate hc]
      rfl
    · exact isDigit_toDigits c hc
  · rw [hvalue]
    exact hpos
  · rw [hvalue, List.length_append, List.length_replicate, Option.getD_none]
    congr 2
    omega

/-- One digit before the point, and a power of ten. -/
theorem writtenAs_power {power : Int}
    (hpower : power = (Nat.toDigits 10 d.digits).length + d.exponent - 1) :
    WrittenAs (String.ofList ((Nat.toDigits 10 d.digits).take 1)
      ++ (if (Nat.toDigits 10 d.digits).drop 1 = [] then ""
        else "." ++ String.ofList ((Nat.toDigits 10 d.digits).drop 1))
      ++ "e" ++ (if power < 0 then "-" else "+") ++ toString power.natAbs) d := by
  have hlength : 0 < (Nat.toDigits 10 d.digits).length := Nat.length_toDigits_pos
  refine ⟨(Nat.toDigits 10 d.digits).take 1, (Nat.toDigits 10 d.digits).drop 1, some power, ?_,
    wellFormed_take hpos (by decide) fun c hc => isDigit_toDigits c (List.mem_of_mem_drop hc),
    ?_, ?_⟩
  · have hsign : (if power < 0 then "-" else "+").toList = [if power < 0 then '-' else '+'] := by
      split <;> rfl
    have hfraction : (if (Nat.toDigits 10 d.digits).drop 1 = [] then ""
        else "." ++ String.ofList ((Nat.toDigits 10 d.digits).drop 1)).toList
        = if (Nat.toDigits 10 d.digits).drop 1 = [] then []
          else '.' :: (Nat.toDigits 10 d.digits).drop 1 := by
      split
      · rfl
      · rw [String.toList_append, String.toList_ofList (l := List.drop 1 _)]
        rfl
    have hdigits : (toString power.natAbs).toList = Nat.toDigits 10 power.natAbs := by
      rw [Nat.toString_eq_ofList_toDigits]
      exact String.toList_ofList
    unfold numeralText
    simp only [String.toList_append, String.toList_ofList, hsign, hfraction, hdigits,
      List.append_assoc]
    rfl
  · rw [List.take_append_drop, ofDigits_toDigits]
    exact hpos
  · rw [List.take_append_drop, ofDigits_toDigits, List.length_drop, Option.getD_some]
    congr 2
    omega

/-- **Every form of a decimal is a numeral for it.** -/
theorem ofDecimal_writtenAs : WrittenAs (Notation.ofDecimal d) d := by
  unfold Notation.ofDecimal
  dsimp only
  generalize hpoint : ((Nat.toDigits 10 d.digits).length : Int) + d.exponent = point
  split
  · next hinteger => exact writtenAs_integer hpos (by omega)
  · next hinteger =>
    split
    · next hinside => exact writtenAs_point hpos (by omega) (by omega) (by omega)
    · next hinside =>
      split
      · next hsmall => exact writtenAs_fraction hpos (by omega)
      · exact writtenAs_power hpos (by omega)

end

/-! ## Numbers -/

/-- A number that can be written: finite, and not negative zero. -/
def Writable (x : Float) : Prop :=
  match unpack binary64 x.toModel.toBits.toBitVec with
  | .zero .positive | .finite _ _ _ _ => True
  | _ => False

theorem Double.Unsigned.writable {x : Float} (hx : Unsigned x)
    (hfinite : Scalar.isFinite x = true) : Writable x := by
  unfold Scalar.isFinite at hfinite
  rw [floor?_eq, Option.isSome_map] at hfinite
  unfold Unsigned at hx
  unfold Writable
  unfold valueOf? at hfinite
  match unpack binary64 x.toModel.toBits.toBitVec, hx, hfinite with
  | .zero .positive, _, _ | .finite .positive _ _ _, _, _ => exact True.intro
  | .infinity .positive, _, hfinite => cases hfinite

theorem writable_of_finite {x : Float} (hfinite : Scalar.isFinite x = true) (hzero : x ≠ -0) :
    Writable x := by
  unfold Scalar.isFinite at hfinite
  rw [floor?_eq, Option.isSome_map] at hfinite
  unfold valueOf? at hfinite
  unfold Writable
  have hbits : (-0 : Float).toModel.toBits.toBitVec = 0x8000000000000000#64 := by
    decide +kernel
  have hnegative : unpack binary64 (-0 : Float).toModel.toBits.toBitVec = .zero .negative := by
    rw [hbits]
    rfl
  match hx : unpack binary64 x.toModel.toBits.toBitVec, hfinite with
  | .zero .positive, _ | .finite _ _ _ _, _ => exact True.intro
  | .zero .negative, _ =>
    exact absurd (float_eq_of_unpack (hx ▸ rfl) (hx.trans hnegative.symm)) hzero
  | .infinity _, hfinite => cases hfinite

theorem unpack_float_neg {x : Float} {m : Nat} {e : Int} (hheld : Held m e)
    (hx : unpack binary64 x.toModel.toBits.toBitVec = .finite .positive m e hheld.pos) :
    unpack binary64 (-x).toModel.toBits.toBitVec = .finite .negative m e hheld.pos := by
  change unpack binary64 (pack binary64
    (UnpackedFloat.neg (unpack binary64 x.toModel.toBits.toBitVec))) = _
  rw [hx]
  exact hheld.unpack_pack .negative

/-- The parts of a numeral for the shortest decimal of a double give the double. -/
theorem unpack_ofParts {m : Nat} {e : Int} (hheld : Held m e) {whole fraction : List Char} {k : Int}
    (hpos : 0 < Numeral.ofDigits 10 (whole ++ fraction))
    (hvalue : (Numeral.ofDigits 10 (whole ++ fraction) : Rat) * 10 ^ (k - fraction.length)
      = (Shortest.decimal m e).digits * 10 ^ (Shortest.decimal m e).exponent) :
    unpack binary64 (Numeral.ofParts whole fraction k).toModel.toBits.toBitVec
      = .finite .positive m e hheld.pos :=
  unpack_scaled hheld hpos (hvalue ▸ (near_decimal hheld).2)

theorem unpack_scaled_zero (k : Int) :
    unpack binary64 (Numeral.scaled 0 k).toModel.toBits.toBitVec = .zero .positive := by
  have hbits : (0 : Float).toModel.toBits.toBitVec = 0#64 := by
    decide +kernel
  unfold Numeral.scaled
  dsimp only
  rw [if_pos rfl, hbits]
  rfl

/-- **What is written for a number is read back as the number**, whatever stands behind it. -/
theorem number?_ofFloat {x : Float} (hx : Writable x) {rest : List Char} (hrest : Stops rest) :
    Json.number? ((Notation.ofFloat x).toList ++ rest) = some (x, rest) := by
  have hdecode := decode_eq x
  unfold Writable at hx
  unfold Notation.ofFloat
  match hu : unpack binary64 x.toModel.toBits.toBitVec, hx with
  | .zero .positive, _ =>
    rw [hu] at hdecode
    rw [hdecode]
    have hzero : WellFormed ['0'] [] :=
      ⟨List.cons_ne_nil _ _, fun c hc => by rw [List.mem_singleton.mp hc]; rfl,
        fun c hc => absurd hc List.not_mem_nil, fun _ => rfl⟩
    refine (number?_numeralText hzero none false hrest).trans
      (congrArg (fun y => some (y, rest)) ?_)
    exact (float_eq_of_unpack (hu ▸ rfl) (hu.trans (unpack_scaled_zero 0).symm)).symm
  | .finite s m e hm, _ =>
    rw [hu] at hdecode
    rw [hdecode]
    have hheld : Held m e := held_of_unpack hu
    obtain ⟨whole, fraction, power, htext, hwell, hpos, hvalue⟩ :=
      ofDecimal_writtenAs (near_decimal hheld).1
    have hparts := unpack_ofParts hheld hpos hvalue
    have hnumber := number?_numeralText hwell power (s == .negative) hrest
    dsimp only
    rw [if_neg hm.ne', String.toList_append, htext]
    have hsign : (if (s == .negative) = true then "-" else "").toList
        = if (s == .negative) = true then ['-'] else [] := by
      split <;> rfl
    rw [hsign, hnumber]
    refine congrArg (fun y => some (y, rest)) ?_
    cases s with
    | positive => exact float_eq_of_unpack (hparts ▸ rfl) (hparts.trans hu.symm)
    | negative =>
      have hneg := unpack_float_neg hheld hparts
      exact float_eq_of_unpack (hneg ▸ rfl) (hneg.trans hu.symm)

end LeadSheet
