import FMITerminalBlock.Library.FloatText
import FMITerminalBlock.Scripts.DataFile

/-! The call `float(text)`. -/
namespace FMITerminalBlock.Scripts
open Base FloatText

/-- A finite number is taken as exact. -/
inductive FloatValue where
  | finite (value : ℚ)
  | infinity (negative : Bool)
  | nan
  deriving DecidableEq

def lower (b : UInt8) : UInt8 := if 65 ≤ b && b ≤ 90 then b + 32 else b

/-- The digits on both sides of the point. One side may be empty, but not both. -/
def mantissa (text : StdString) : Option (StdString × StdString) :=
  match text.span (· ≠ 46) with
  | (whole, []) => (intDigits whole).map (·, [])
  | (whole, _ :: fraction) =>
    if whole = [] then (intDigits fraction).map ([], ·)
    else if fraction = [] then (intDigits whole).map (·, [])
    else do return (← intDigits whole, ← intDigits fraction)

/-- The number behind the letter of an exponent. -/
def exponentValue : StdString → Option Int
  | [] => some 0
  | _ :: rest =>
    match intLiteral rest with
    | (negative, some digits) => some (if negative then -(DecimalText.value digits : Int) else DecimalText.value digits)
    | (_, none) => none

def decimalLiteral (text : StdString) : Option Literal := do
  let parts := text.span fun b => lower b ≠ 101
  let (whole, fraction) ← mantissa parts.1
  let exponent ← exponentValue parts.2
  return { whole, fraction, exponent }

def unsignedFloat (negative : Bool) (text : StdString) : Option FloatValue :=
  if text.map lower = ascii "inf" ∨ text.map lower = ascii "infinity" then some (.infinity negative)
  else if text.map lower = ascii "nan" then some .nan
  else (decimalLiteral text).map fun l => .finite (if negative then -l.value else l.value)

def floatLiteral : StdString → Option FloatValue
  | 45 :: rest => unsignedFloat true rest
  | 43 :: rest => unsignedFloat false rest
  | rest => unsignedFloat false rest

def float (text : StdString) : Except ReaderError FloatValue :=
  match floatLiteral (strip (transformDecimalAndSpaceToASCII text)) with
  | some value => .ok value
  | none => .error (.valueError "could not convert string to float: \x7b\x7d")

/-! ### Printed numbers -/

private theorem span_stop {p : UInt8 → Bool} {front back : StdString} (hfront : ∀ b ∈ front, p b = true)
    (hback : ∀ b ∈ back.head?, p b = false) : (front ++ back).span p = (front, back) := by
  rw [List.span_eq_takeWhile_dropWhile, List.takeWhile_append_of_pos hfront, List.dropWhile_append_of_pos hfront]
  cases back with
  | nil => simp
  | cons b back =>
    have hb := hback b rfl
    rw [List.takeWhile_cons_of_neg (by simp [hb]), List.dropWhile_cons_of_neg (by simp [hb]), List.append_nil]

private theorem lower_of_isDigit {b : UInt8} (h : DecimalText.isDigit b = true) : lower b = b := by
  simp only [DecimalText.isDigit, Bool.and_eq_true, decide_eq_true_eq] at h
  have hlow : ¬ 65 ≤ b := fun hle => absurd (UInt8.le_trans hle h.2) (by decide)
  rw [lower, if_neg (by simp [hlow])]

private theorem ne_of_isDigit {b c : UInt8} (h : DecimalText.isDigit b = true) (hc : DecimalText.isDigit c = false) :
    b ≠ c := by
  rintro rfl
  rw [h] at hc
  cases hc

theorem mantissa_digits {whole fraction : StdString} (hne : whole ≠ []) (hwhole : Digits whole)
    (hfraction : Digits fraction) : mantissa (whole ++ pointText fraction) = some (whole, fraction) := by
  have hplain : ∀ b ∈ whole, decide (b ≠ 46) = true := fun b hb => by
    simpa using ne_of_isDigit (hwhole b hb) (rfl : DecimalText.isDigit 46 = false)
  by_cases hnil : fraction = []
  · have hspan : (whole ++ []).span (fun b => b ≠ 46) = (whole, []) := span_stop hplain fun b hb => by cases hb
    subst hnil
    simp only [mantissa, pointText, if_true, hspan, intDigits_of_digits hne hwhole, Option.map_some]
  · have hspan : (whole ++ 46 :: fraction).span (fun b => b ≠ 46) = (whole, 46 :: fraction) :=
      span_stop hplain fun b hb => by cases hb; rfl
    simp only [mantissa, pointText, if_neg hnil, hspan, if_neg hne, intDigits_of_digits hne hwhole,
      intDigits_of_digits hnil hfraction]
    rfl

private theorem exponentValue_sign {e : Int} {digits : StdString} (hne : digits ≠ []) (hdigits : Digits digits)
    (hvalue : DecimalText.value digits = e.natAbs) :
    exponentValue (101 :: (if e < 0 then 45 else 43) :: digits) = some e := by
  split
  · simp only [exponentValue, intLiteral, intDigits_of_digits hne hdigits, hvalue, if_true, Option.some.injEq]
    omega
  · simp only [exponentValue, intLiteral, intDigits_of_digits hne hdigits, hvalue, Bool.false_eq_true, if_false,
      Option.some.injEq]
    omega

theorem exponentValue_exponentText (e : Int) : exponentValue (exponentText e) = some e := by
  have hdecimal : Digits (DecimalText.decimal e.natAbs) := fun _ hb => DecimalText.isDigit_of_mem_decimal hb
  by_cases hshort : e.natAbs < 10
  · rw [exponentText, if_pos hshort]
    apply exponentValue_sign (List.cons_ne_nil _ _)
    · intro b hb
      rcases List.mem_cons.mp hb with rfl | hb
      · rfl
      · exact hdecimal b hb
    · rw [← List.singleton_append, DecimalText.value_append, DecimalText.value_decimal]
      simp [DecimalText.value]
  · rw [exponentText, if_neg hshort]
    exact exponentValue_sign (DecimalText.decimal_ne_nil _) hdecimal (DecimalText.value_decimal _)

private theorem mem_pointText {fraction : StdString} {b : UInt8} (h : b ∈ pointText fraction) :
    b = 46 ∨ b ∈ fraction := by
  rw [pointText] at h
  split at h
  · cases h
  · exact List.mem_cons.mp h

theorem decimalLiteral_writes {l : Literal} {text : StdString} (h : Writes l text) : decimalLiteral text = some l := by
  have hplain {whole fraction : StdString} (hwhole : Digits whole) (hfraction : Digits fraction) :
      ∀ b ∈ whole ++ pointText fraction, decide (lower b ≠ 101) = true := by
    intro b hb
    have hdigit (hb : DecimalText.isDigit b = true) : decide (lower b ≠ 101) = true := by
      rw [lower_of_isDigit hb]
      simpa using ne_of_isDigit hb (rfl : DecimalText.isDigit 101 = false)
    rcases List.mem_append.mp hb with hb | hb
    · exact hdigit (hwhole b hb)
    · rcases mem_pointText hb with rfl | hb
      · rfl
      · exact hdigit (hfraction b hb)
  cases h with
  | @fixed whole fraction hne hwhole hfraction =>
    have hspan : (whole ++ pointText fraction ++ []).span (fun b => lower b ≠ 101) = (whole ++ pointText fraction, []) :=
      span_stop (hplain hwhole hfraction) fun b hb => by cases hb
    rw [List.append_nil] at hspan
    simp only [decimalLiteral, hspan, mantissa_digits hne hwhole hfraction]
    rfl
  | @scientific whole fraction e hne hwhole hfraction =>
    have hspan : (whole ++ pointText fraction ++ exponentText e).span (fun b => lower b ≠ 101) =
        (whole ++ pointText fraction, exponentText e) :=
      span_stop (hplain hwhole hfraction) fun b hb => by cases hb; rfl
    simp only [decimalLiteral, hspan, mantissa_digits hne hwhole hfraction, exponentValue_exponentText]
    rfl

/-- The bytes a printed number can have. -/
def NumberByte (b : UInt8) : Prop := DecimalText.isDigit b = true ∨ b ∈ [46, 101, 43, 45]

theorem numberByte_of_writes {l : Literal} {text : StdString} (h : Writes l text) : ∀ b ∈ text, NumberByte b := by
  have hfront {whole fraction : StdString} (hwhole : Digits whole) (hfraction : Digits fraction) :
      ∀ b ∈ whole ++ pointText fraction, NumberByte b := by
    intro b hb
    rcases List.mem_append.mp hb with hb | hb
    · exact .inl (hwhole b hb)
    · rcases mem_pointText hb with rfl | hb
      · exact .inr (by decide)
      · exact .inl (hfraction b hb)
  cases h with
  | fixed _ hwhole hfraction => exact hfront hwhole hfraction
  | scientific e _ hwhole hfraction =>
    intro b hb
    rcases List.mem_append.mp hb with hb | hb
    · exact hfront hwhole hfraction b hb
    · rw [exponentText] at hb
      rcases List.mem_cons.mp hb with rfl | hb
      · exact .inr (by decide)
      rcases List.mem_cons.mp hb with rfl | hb
      · refine .inr ?_
        split <;> decide
      · refine .inl ?_
        split at hb
        · rcases List.mem_cons.mp hb with rfl | hb
          · rfl
          · exact DecimalText.isDigit_of_mem_decimal hb
        · exact DecimalText.isDigit_of_mem_decimal hb

/-- A printed number begins with a digit. -/
theorem exists_digit_of_writes {l : Literal} {text : StdString} (h : Writes l text) :
    ∃ b rest, text = b :: rest ∧ DecimalText.isDigit b = true := by
  have hfront {whole : StdString} (hne : whole ≠ []) (hwhole : Digits whole) (rest : StdString) :
      ∃ b back, whole ++ rest = b :: back ∧ DecimalText.isDigit b = true := by
    obtain ⟨b, back, rfl⟩ := List.exists_cons_of_ne_nil hne
    exact ⟨b, back ++ rest, rfl, hwhole b List.mem_cons_self⟩
  cases h with
  | fixed hne hwhole _ => exact hfront hne hwhole _
  | scientific e hne hwhole _ =>
    rw [List.append_assoc]
    exact hfront hne hwhole _

/-- A printed number is read back. -/
theorem float_writes {l : Literal} {text : StdString} (h : Writes l text) : float text = .ok (.finite l.value) := by
  have hstrip : strip (transformDecimalAndSpaceToASCII text) = text := by
    apply strip_transform
    intro b hb
    rcases numberByte_of_writes h b hb with hb | hb
    · exact numeralByte_of_isDigit hb
    · simp only [List.mem_cons, List.not_mem_nil, or_false] at hb
      rcases hb with rfl | rfl | rfl | rfl <;> exact ⟨by decide, rfl⟩
  obtain ⟨b, rest, htext, hb⟩ := exists_digit_of_writes h
  have hsign : floatLiteral text = unsignedFloat false text := by
    rw [htext]
    unfold floatLiteral
    split
    · rename_i heq
      cases heq
      cases hb
    · rename_i heq
      cases heq
      cases hb
    · rfl
  have hname (c : UInt8) (name : StdString) (hc : DecimalText.isDigit c = false) : text.map lower ≠ c :: name := by
    rw [htext, List.map_cons, lower_of_isDigit hb]
    exact fun heq => ne_of_isDigit hb hc (List.cons.inj heq).1
  have hnan : text.map lower ≠ ascii "nan" := hname 110 (ascii "an") rfl
  have hinfinity : ¬ (text.map lower = ascii "inf" ∨ text.map lower = ascii "infinity") := fun hor =>
    hor.elim (hname 105 (ascii "nf") rfl) (hname 105 (ascii "nfinity") rfl)
  have hdecimal : unsignedFloat false text = some (.finite l.value) := by
    rw [unsignedFloat, if_neg hinfinity, if_neg hnan, decimalLiteral_writes h]
    rfl
  rw [float, hstrip, hsign, hdecimal]

end FMITerminalBlock.Scripts
