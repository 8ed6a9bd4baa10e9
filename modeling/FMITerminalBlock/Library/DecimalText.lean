import Mathlib.Data.Nat.Digits.Lemmas
import Mathlib.Tactic.Ring

/-! Decimal number texts as byte strings. -/
namespace DecimalText

def digit (d : Nat) : UInt8 := UInt8.ofNat (48 + d)

def isDigit (b : UInt8) : Bool := 48 ≤ b && b ≤ 57

/-- The shortest decimal text of a natural number. -/
def decimal (n : Nat) : List UInt8 :=
  if n = 0 then [48] else (Nat.digits 10 n).reverse.map digit

/-- The number a text of decimal digits stands for. -/
def value (text : List UInt8) : Nat := text.foldl (fun n b => 10 * n + (b.toNat - 48)) 0

theorem value_concat (text : List UInt8) (b : UInt8) : value (text ++ [b]) = 10 * value text + (b.toNat - 48) := by
  rw [value, List.foldl_append, ← value]
  rfl

theorem value_append (front back : List UInt8) :
    value (front ++ back) = value front * 10 ^ back.length + value back := by
  induction back using List.reverseRecOn with
  | nil => simp [value]
  | append_singleton back b ih =>
    rw [← List.append_assoc, value_concat, ih, value_concat, List.length_append, List.length_singleton, Nat.pow_succ]
    ring

theorem value_replicate_zero (n : Nat) : value (List.replicate n 48) = 0 := by
  induction n with
  | zero => rfl
  | succ n ih => rw [List.replicate_succ', value_append, ih]; rfl

private theorem digit_toNat {d : Nat} (h : d < 10) : (digit d).toNat - 48 = d := by
  rw [digit, UInt8.toNat_ofNat']
  omega

theorem isDigit_digit {d : Nat} (h : d < 10) : isDigit (digit d) = true := by
  have hd : (digit d).toNat = 48 + d := by
    rw [digit, UInt8.toNat_ofNat']
    omega
  simp only [isDigit, Bool.and_eq_true, decide_eq_true_eq, UInt8.le_iff_toNat_le, hd]
  constructor
  · exact Nat.le_add_right 48 d
  · change 48 + d ≤ 57
    omega

private theorem value_reverse (ds : List Nat) (h : ∀ d ∈ ds, d < 10) :
    value (ds.reverse.map digit) = Nat.ofDigits 10 ds := by
  induction ds with
  | nil => rfl
  | cons d ds ih =>
    have htail := ih fun e he => h e (List.mem_cons_of_mem d he)
    rw [List.reverse_cons, List.map_append, List.map_singleton, value_concat, htail, Nat.ofDigits_cons,
      digit_toNat (h d List.mem_cons_self), Nat.add_comm]

theorem value_decimal (n : Nat) : value (decimal n) = n := by
  rw [decimal]
  split
  · rename_i h; subst h; rfl
  · rw [value_reverse _ fun d hd => Nat.digits_lt_base (by decide) hd, Nat.ofDigits_digits]

theorem decimal_injective : Function.Injective decimal :=
  Function.LeftInverse.injective value_decimal

theorem isDigit_of_mem_decimal {n : Nat} {b : UInt8} (h : b ∈ decimal n) : isDigit b = true := by
  unfold decimal at h
  split at h
  · cases List.mem_singleton.mp h; rfl
  · obtain ⟨d, hd, rfl⟩ := List.mem_map.mp h
    exact isDigit_digit (Nat.digits_lt_base (by decide) (List.mem_reverse.mp hd))

theorem length_decimal {n k : Nat} (hlow : 10 ^ k ≤ n) (hhigh : n < 10 ^ (k + 1)) : (decimal n).length = k + 1 := by
  have hne : n ≠ 0 := (lt_of_lt_of_le (Nat.pow_pos (by decide)) hlow).ne'
  rw [decimal, if_neg hne, List.length_map, List.length_reverse, Nat.length_digits 10 n (by decide) hne,
    Nat.log_eq_of_pow_le_of_lt_pow hlow hhigh]

theorem length_decimal_le {n k : Nat} (h : n < 10 ^ (k + 1)) : (decimal n).length ≤ k + 1 := by
  rw [decimal]
  split
  · exact Nat.le_add_left 1 k
  · rw [List.length_map, List.length_reverse, Nat.digits_length_le_iff (by decide)]
    exact h

theorem decimal_ne_nil (n : Nat) : decimal n ≠ [] := by
  rw [decimal]
  split
  · simp
  · simpa [Nat.digits_ne_nil_iff_ne_zero]

/-- Decimal text with a minus sign for negative numbers. -/
def signed (n : Int) : List UInt8 := if n < 0 then 45 :: decimal n.natAbs else decimal n.natAbs

end DecimalText
