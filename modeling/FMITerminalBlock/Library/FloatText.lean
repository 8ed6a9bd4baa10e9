import FMITerminalBlock.Library.DecimalText
import Mathlib.Data.Int.Log
import Mathlib.Data.List.DropRight
import Mathlib.Data.Rat.Floor
import Mathlib.Tactic.Positivity
import Mathlib.Tactic.FieldSimp
import Mathlib.Tactic.Ring

/-! Texts of numbers with a fraction and an exponent, and printing with a fixed number of significant
digits. -/
namespace FloatText
open DecimalText

/-- The digits on both sides of the point and the exponent. -/
structure Literal where
  whole : List UInt8
  fraction : List UInt8 := []
  exponent : Int := 0

def Literal.value (l : Literal) : ℚ := DecimalText.value (l.whole ++ l.fraction) * 10 ^ (l.exponent - l.fraction.length)

/-- The nearest integer, and the even one of two that are equally near. -/
def roundEven (q : ℚ) : Int :=
  if 2 * (q - ⌊q⌋) < 1 ∨ 2 * (q - ⌊q⌋) = 1 ∧ ⌊q⌋ % 2 = 0 then ⌊q⌋ else ⌊q⌋ + 1

theorem le_roundEven {n : Int} {q : ℚ} (h : n ≤ q) : n ≤ roundEven q := by
  have hfloor : n ≤ ⌊q⌋ := Int.le_floor.mpr h
  rw [roundEven]
  split
  · exact hfloor
  · omega

theorem roundEven_le {n : Int} {q : ℚ} (h : q ≤ n) : roundEven q ≤ n := by
  have hfloor : ⌊q⌋ ≤ n := Int.floor_le_iff.mpr (by linarith)
  rw [roundEven]
  split
  · exact hfloor
  · rename_i hup
    have hne : ⌊q⌋ ≠ n := by
      rintro rfl
      have heq : q - ⌊q⌋ = 0 := by linarith [Int.floor_le q]
      exact hup (.inl (by rw [heq]; norm_num))
    omega

theorem roundEven_intCast (n : Int) : roundEven n = n :=
  le_antisymm (roundEven_le le_rfl) (le_roundEven le_rfl)

/-! ### Significant digits -/

/-- A positive number in units of its last significant digit. -/
def scaled (precision : Nat) (q : ℚ) : ℚ := q / 10 ^ (Int.log 10 q + 1 - precision)

/-- The significant digits of a positive number as one natural number, and the exponent of the first
of them. Rounding may carry into one more digit. -/
def significant (precision : Nat) (q : ℚ) : Nat × Int :=
  let m := (roundEven (scaled precision q)).toNat
  if m = 10 ^ precision then (10 ^ (precision - 1), Int.log 10 q + 1) else (m, Int.log 10 q)

/-- What is left of a positive number after rounding. -/
def rounded (precision : Nat) (q : ℚ) : ℚ :=
  (significant precision q).1 * 10 ^ ((significant precision q).2 + 1 - precision)

theorem scaled_mul (precision : Nat) (q : ℚ) : scaled precision q * 10 ^ (Int.log 10 q + 1 - precision) = q :=
  div_mul_cancel₀ q (zpow_ne_zero _ (by norm_num))

section
variable {precision : Nat} {q : ℚ}

theorem pow_le_scaled (hprecision : 0 < precision) (hq : 0 < q) : (10 : ℚ) ^ (precision - 1) ≤ scaled precision q := by
  have hlow : (10 : ℚ) ^ Int.log 10 q ≤ q := by exact_mod_cast Int.zpow_log_le_self (by decide : 1 < 10) hq
  rw [scaled, le_div_iff₀ (zpow_pos (by norm_num) _), ← zpow_natCast, ← zpow_add₀ (by norm_num)]
  have hexponent : ((precision - 1 : Nat) : Int) + (Int.log 10 q + 1 - precision) = Int.log 10 q := by omega
  rwa [hexponent]

theorem scaled_lt_pow (precision : Nat) (q : ℚ) : scaled precision q < (10 : ℚ) ^ precision := by
  have hhigh : q < (10 : ℚ) ^ (Int.log 10 q + 1) := by
    exact_mod_cast Int.lt_zpow_succ_log_self (by decide : 1 < 10) q
  rw [scaled, div_lt_iff₀ (zpow_pos (by norm_num) _), ← zpow_natCast, ← zpow_add₀ (by norm_num)]
  have hexponent : (precision : Int) + (Int.log 10 q + 1 - precision) = Int.log 10 q + 1 := by omega
  rwa [hexponent]

theorem roundEven_scaled (hprecision : 0 < precision) (hq : 0 < q) :
    ∃ m : Nat, roundEven (scaled precision q) = m ∧ 10 ^ (precision - 1) ≤ m ∧ m ≤ 10 ^ precision := by
  have hlow : ((10 ^ (precision - 1) : Nat) : Int) ≤ roundEven (scaled precision q) :=
    le_roundEven (by exact_mod_cast pow_le_scaled hprecision hq)
  have hhigh : roundEven (scaled precision q) ≤ ((10 ^ precision : Nat) : Int) :=
    roundEven_le (by exact_mod_cast (scaled_lt_pow precision q).le)
  obtain ⟨m, hm⟩ := Int.eq_ofNat_of_zero_le ((Int.natCast_nonneg _).trans hlow)
  rw [hm] at hlow hhigh
  exact ⟨m, hm, Int.ofNat_le.mp hlow, Int.ofNat_le.mp hhigh⟩

theorem significant_bounds (hprecision : 0 < precision) (hq : 0 < q) :
    10 ^ (precision - 1) ≤ (significant precision q).1 ∧ (significant precision q).1 < 10 ^ precision := by
  obtain ⟨m, hm, hlow, hhigh⟩ := roundEven_scaled hprecision hq
  have hgrows : 10 ^ (precision - 1) < 10 ^ precision := Nat.pow_lt_pow_right (by decide) (by omega)
  simp only [significant, hm, Int.toNat_natCast]
  split
  · exact ⟨le_rfl, hgrows⟩
  · rename_i hcarry
    exact ⟨hlow, lt_of_le_of_ne hhigh hcarry⟩

/-- A carry does not change the number. -/
theorem rounded_eq (hprecision : 0 < precision) (hq : 0 < q) :
    rounded precision q = roundEven (scaled precision q) * 10 ^ (Int.log 10 q + 1 - precision) := by
  obtain ⟨m, hm, -, -⟩ := roundEven_scaled hprecision hq
  simp only [rounded, significant, hm, Int.toNat_natCast]
  split
  · rename_i hcarry
    rw [hcarry]
    push_cast
    rw [← zpow_natCast, ← zpow_natCast, ← zpow_add₀ (by norm_num), ← zpow_add₀ (by norm_num)]
    congr 1
    omega
  · push_cast
    rfl

/-- Rounding keeps exactly the numbers that have no more significant digits. -/
theorem rounded_eq_self (hprecision : 0 < precision) (hq : 0 < q) :
    rounded precision q = q ↔ ∃ (n : Nat) (e : Int), n < 10 ^ precision ∧ q = n * 10 ^ e := by
  constructor
  · intro h
    exact ⟨_, _, (significant_bounds hprecision hq).2, h.symm⟩
  · rintro ⟨n, e, hn, rfl⟩
    have hlog : Int.log 10 ((n : ℚ) * 10 ^ e) < precision + e := by
      have hlt : (n : ℚ) * 10 ^ e < ((10 : Nat) : ℚ) ^ ((precision : Int) + e) := by
        rw [Nat.cast_ofNat, zpow_add₀ (by norm_num), zpow_natCast]
        apply mul_lt_mul_of_pos_right _ (zpow_pos (by norm_num) e)
        exact_mod_cast hn
      exact (Int.lt_zpow_iff_log_lt (by decide) hq).mp hlt
    obtain ⟨k, hk⟩ := Int.le.dest (Int.add_one_le_of_lt hlog)
    have hscaled : scaled precision ((n : ℚ) * 10 ^ e) = ((n * 10 ^ k : Nat) : Int) := by
      rw [scaled, mul_div_assoc, ← zpow_sub₀ (by norm_num)]
      have hexponent : e - (Int.log 10 ((n : ℚ) * 10 ^ e) + 1 - precision) = k := by omega
      rw [hexponent, zpow_natCast]
      push_cast
      rfl
    rw [rounded_eq hprecision hq, hscaled, roundEven_intCast, ← hscaled, scaled_mul]

end

/-! ### Printing -/

/-- Zeros at the end of a fraction are not printed. -/
def dropZeros (digits : List UInt8) : List UInt8 := digits.rdropWhile (· = 48)

def pointText (fraction : List UInt8) : List UInt8 := if fraction = [] then [] else 46 :: fraction

/-- An exponent has a sign and at least two digits. -/
def exponentText (e : Int) : List UInt8 :=
  101 :: (if e < 0 then 45 else 43) :: (if e.natAbs < 10 then 48 :: decimal e.natAbs else decimal e.natAbs)

/-- A literal without an exponent. -/
def fixedLiteral (digits : List UInt8) (e : Int) : Literal :=
  if 0 ≤ e then { whole := digits.take (e.toNat + 1), fraction := dropZeros (digits.drop (e.toNat + 1)) }
  else { whole := [48], fraction := dropZeros (List.replicate ((-e).toNat - 1) 48 ++ digits) }

def scientificLiteral (digits : List UInt8) (e : Int) : Literal :=
  { whole := digits.take 1, fraction := dropZeros (digits.drop 1), exponent := e }

/-- Printing with `%g`: the exponent decides whether the number is written with it or without it. -/
def general (precision : Nat) (q : ℚ) : List UInt8 :=
  if q = 0 then [48]
  else
    let (m, e) := significant precision |q|
    let text :=
      if -4 ≤ e ∧ e < precision then
        let l := fixedLiteral (decimal m) e
        l.whole ++ pointText l.fraction
      else
        let l := scientificLiteral (decimal m) e
        l.whole ++ pointText l.fraction ++ exponentText l.exponent
    if q < 0 then 45 :: text else text

/-! ### Values of the printed literals -/

theorem dropZeros_append (digits : List UInt8) : ∃ n, dropZeros digits ++ List.replicate n 48 = digits := by
  induction digits using List.reverseRecOn with
  | nil => exact ⟨0, rfl⟩
  | append_singleton digits b ih =>
    by_cases hb : b = 48
    · obtain ⟨n, hn⟩ := ih
      refine ⟨n + 1, ?_⟩
      rw [dropZeros, List.rdropWhile_concat_pos _ _ _ (by simpa using hb), ← dropZeros, List.replicate_succ', hb,
        ← List.append_assoc, hn]
    · refine ⟨0, ?_⟩
      rw [dropZeros, List.rdropWhile_concat_neg _ _ _ (by simpa using hb), List.replicate_zero, List.append_nil]

theorem value_dropZeros (whole fraction : List UInt8) (e : Int) :
    Literal.value { whole, fraction := dropZeros fraction, exponent := e } =
      Literal.value { whole, fraction, exponent := e } := by
  obtain ⟨n, hn⟩ := dropZeros_append fraction
  conv_rhs => rw [← hn]
  simp only [Literal.value, ← List.append_assoc]
  rw [value_append (whole ++ dropZeros fraction), value_replicate_zero, List.length_append, List.length_replicate]
  push_cast
  rw [add_zero, mul_assoc, ← zpow_natCast, ← zpow_add₀ (by norm_num)]
  congr 2
  omega

theorem value_fixedLiteral {digits : List UInt8} {e : Int} (h : e < digits.length) :
    (fixedLiteral digits e).value = DecimalText.value digits * 10 ^ (e + 1 - digits.length) := by
  rw [fixedLiteral]
  split
  · rw [value_dropZeros, Literal.value, List.take_append_drop, List.length_drop]
    congr 2
    dsimp only
    omega
  · rw [value_dropZeros, Literal.value, ← List.append_assoc, ← List.replicate_one, ← List.replicate_add, value_append,
      value_replicate_zero, List.length_append, List.length_replicate, zero_mul, zero_add]
    congr 2
    dsimp only
    omega

theorem value_scientificLiteral {digits : List UInt8} (h : digits ≠ []) (e : Int) :
    (scientificLiteral digits e).value = DecimalText.value digits * 10 ^ (e + 1 - digits.length) := by
  have hlength := List.length_pos_iff.mpr h
  rw [scientificLiteral, value_dropZeros, Literal.value, List.take_append_drop, List.length_drop]
  congr 2
  dsimp only
  omega

/-! ### Texts of literals -/

def Digits (text : List UInt8) : Prop := ∀ b ∈ text, isDigit b = true

/-- The text has the digits of the literal, and no exponent if it is zero. -/
inductive Writes : Literal → List UInt8 → Prop where
  | fixed {whole fraction : List UInt8} : whole ≠ [] → Digits whole → Digits fraction →
      Writes { whole, fraction } (whole ++ pointText fraction)
  | scientific {whole fraction : List UInt8} (e : Int) : whole ≠ [] → Digits whole → Digits fraction →
      Writes { whole, fraction, exponent := e } (whole ++ pointText fraction ++ exponentText e)

private theorem digits_dropZeros {digits : List UInt8} (h : Digits digits) : Digits (dropZeros digits) := by
  obtain ⟨n, hn⟩ := dropZeros_append digits
  intro b hb
  exact h b (hn ▸ List.mem_append_left _ hb)

theorem writes_fixedLiteral {digits : List UInt8} (hne : digits ≠ []) (h : Digits digits) (e : Int) :
    Writes (fixedLiteral digits e) ((fixedLiteral digits e).whole ++ pointText (fixedLiteral digits e).fraction) := by
  rw [fixedLiteral]
  split
  · refine .fixed ?_ (fun b hb => h b (List.mem_of_mem_take hb))
      (digits_dropZeros fun b hb => h b (List.mem_of_mem_drop hb))
    rw [ne_eq, List.take_eq_nil_iff]
    exact fun hnil => hnil.elim (Nat.succ_ne_zero _) hne
  · refine .fixed (List.cons_ne_nil _ _) (fun b hb => ?_) (digits_dropZeros fun b hb => ?_)
    · cases List.mem_singleton.mp hb
      rfl
    · rcases List.mem_append.mp hb with hb | hb
      · cases (List.mem_replicate.mp hb).2
        rfl
      · exact h b hb

theorem writes_scientificLiteral {digits : List UInt8} (hne : digits ≠ []) (h : Digits digits) (e : Int) :
    Writes (scientificLiteral digits e) ((scientificLiteral digits e).whole ++
      pointText (scientificLiteral digits e).fraction ++ exponentText e) := by
  refine .scientific e ?_ (fun b hb => h b (List.mem_of_mem_take hb))
    (digits_dropZeros fun b hb => h b (List.mem_of_mem_drop hb))
  rw [ne_eq, List.take_eq_nil_iff]
  exact fun hnil => hnil.elim Nat.one_ne_zero hne

theorem general_zero (precision : Nat) : Writes { whole := [48] } (general precision 0) := by
  rw [general, if_pos rfl]
  exact .fixed (List.cons_ne_nil _ _) (fun b hb => by cases List.mem_singleton.mp hb; rfl) (fun _ hb => by cases hb)

/-- The printed text stands for the rounded number. -/
theorem general_writes {precision : Nat} {q : ℚ} (hprecision : 0 < precision) (hq : 0 < q) :
    ∃ l, Writes l (general precision q) ∧ l.value = rounded precision q := by
  obtain ⟨hlow, hhigh⟩ := significant_bounds hprecision hq
  obtain ⟨p, rfl⟩ := Nat.exists_eq_add_one.mpr hprecision
  have hlength : (decimal (significant (p + 1) q).1).length = p + 1 := length_decimal hlow hhigh
  have hne := decimal_ne_nil (significant (p + 1) q).1
  have hdigits : Digits (decimal (significant (p + 1) q).1) := fun _ hb => isDigit_of_mem_decimal hb
  simp only [general, if_neg hq.ne', if_neg hq.not_gt, abs_of_pos hq]
  split
  · rename_i hfixed
    refine ⟨_, writes_fixedLiteral hne hdigits _, ?_⟩
    rw [value_fixedLiteral (by rw [hlength]; exact hfixed.2), hlength, value_decimal]
    rfl
  · refine ⟨_, writes_scientificLiteral hne hdigits _, ?_⟩
    rw [value_scientificLiteral hne, hlength, value_decimal]
    rfl

end FloatText
