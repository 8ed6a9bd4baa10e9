import FMITerminalBlock.Scripts.FloatLiteral

/-! Which times survive the way through the data file. A stream prints six significant digits unless
it is told otherwise, and the logger does not tell it. -/
namespace FMITerminalBlock.Scripts
open Base Timing CSVDataLogger FloatText

/-- The format of a stream in its initial state, as far as times are concerned. -/
def streamFormat (real : BitVec 64 → StdString) : NumberFormat := { real, time := general 6 }

/-- The text is added to the destination of some logger for this event. -/
def Written (format : NumberFormat) (ev : StaticEvent) (text : StdString) : Prop :=
  ∃ header out, eventTriggered format { header, outputStream := some out } ev =
    some { header, outputStream := some (out ++ text) }

/-- The first field of the first row. -/
def timeField (text : StdString) : Option StdString :=
  (csvRows text).head?.bind fun row => (Reader.mergeColumns row).head?

/-- The fields of both times differ, and each of them is read as exactly its time. -/
def InstantsKept (k₁ k₂ : Nat) (text₁ text₂ : StdString) : Prop :=
  timeField text₁ ≠ timeField text₂ ∧ (timeField text₁).map float = some (.ok (.finite (k₁ / 1000))) ∧
    (timeField text₂).map float = some (.ok (.finite (k₂ / 1000)))

/-- Not more than six digits are left without the zeros at the end. -/
def SixDigits (k : Nat) : Prop := ∃ n e : Nat, n < 10 ^ 6 ∧ k = n * 10 ^ e

/-! ### The field of a time -/

theorem plainNumber_writes {l : Literal} {text : StdString} (h : Writes l text) : PlainNumber text := by
  have hother {b : UInt8} (hdigit : DecimalText.isDigit b = false) (hb : b ∉ ([46, 101, 43, 45] : StdString)) :
      b ∉ text := by
    intro hmem
    rcases numberByte_of_writes h b hmem with hnumber | hnumber
    · rw [hnumber] at hdigit
      cases hdigit
    · exact hb hnumber
  obtain ⟨b, rest, htext, -⟩ := exists_digit_of_writes h
  exact ⟨htext ▸ List.cons_ne_nil _ _, hother rfl (by decide), hother rfl (by decide), hother rfl (by decide),
    hother rfl (by decide)⟩

/-- What follows the separator does not matter, and it may even contain line breaks. -/
theorem timeField_append {field : StdString} (h : PlainNumber field) (rest : StdString) :
    timeField (field ++ separator :: rest) = some field := by
  obtain ⟨first, lines, hlines⟩ : ∃ first lines, textLines (separator :: rest) = (separator :: first) :: lines := by
    cases hrest : textLines rest with
    | nil => exact ⟨[], [], by simp [textLines, separator, hrest]⟩
    | cons first lines => exact ⟨first, lines, by simp [textLines, separator, hrest]⟩
  have hsplit : csvRow (field ++ separator :: first) = field :: first.splitOn separator := by
    rw [csvRow, if_neg (by simp)]
    change (field ++ separator :: first).splitOn separator = _
    rw [List.splitOn_append_cons_self, List.splitOn_eq_singleton h.noSeparator, List.singleton_append]
  rw [timeField, csvRows, textLines_append h.noBreak hlines, List.map_cons, List.head?_cons, Option.bind_some, hsplit]
  exact QuotedFields.head?_regroup h.noQuote _

/-- The significant digits of a time do not depend on its unit. -/
theorem sixDigits_iff (k : Nat) : SixDigits k ↔ ∃ (n : Nat) (e : Int), n < 10 ^ 6 ∧ (k / 1000 : ℚ) = n * 10 ^ e := by
  have hshift (n : Nat) (e : Int) : (k / 1000 : ℚ) = n * 10 ^ e ↔ (k : ℚ) = n * 10 ^ (e + 3) := by
    rw [zpow_add₀ (by norm_num), ← mul_assoc, div_eq_iff (by norm_num)]
    norm_num
  constructor
  · rintro ⟨n, e, hn, rfl⟩
    refine ⟨n, e - 3, hn, (hshift n _).mpr ?_⟩
    rw [sub_add_cancel, zpow_natCast]
    push_cast
    rfl
  · rintro ⟨n, e, hn, hk⟩
    rw [hshift] at hk
    rcases Int.le_total 0 (e + 3) with he | he
    · obtain ⟨m, hm⟩ := Int.eq_ofNat_of_zero_le he
      rw [hm, zpow_natCast] at hk
      exact ⟨n, m, hn, by exact_mod_cast hk⟩
    · -- Without a power of ten the number itself is small.
      have hle : (k : ℚ) ≤ n := by
        rw [hk]
        exact mul_le_of_le_one_right (Nat.cast_nonneg n) (zpow_le_one_of_nonpos₀ (by norm_num) he)
      have hk' : k ≤ n := by exact_mod_cast hle
      exact ⟨k, 0, lt_of_le_of_lt hk' hn, by simp⟩

/-- The text that is printed for a time stands for this time if there are digits enough. -/
theorem general_milliseconds (k : Nat) : ∃ l, Writes l (general 6 (k / 1000)) ∧
    (l.value = k / 1000 ↔ SixDigits k) := by
  rcases Nat.eq_zero_or_pos k with rfl | hk
  · refine ⟨{ whole := [48] }, ?_, ?_⟩
    · rw [Nat.cast_zero, zero_div]
      exact general_zero 6
    · have hsix : SixDigits 0 := ⟨0, 0, by decide, rfl⟩
      simp [hsix, Literal.value, DecimalText.value]
  · have hq : (0 : ℚ) < k / 1000 := div_pos (by exact_mod_cast hk) (by norm_num)
    obtain ⟨l, hl, hvalue⟩ := general_writes (by decide : 0 < 6) hq
    refine ⟨l, hl, ?_⟩
    rw [hvalue, rounded_eq_self (by decide) hq, sixDigits_iff]

/-- The line of an event begins with its time. -/
theorem Written.field {real : BitVec 64 → StdString} {k : Nat} {ev : StaticEvent} {text : StdString}
    (h : Written (streamFormat real) ev text) (htime : ev.time = k / 1000) :
    timeField text = some (general 6 (k / 1000)) := by
  obtain ⟨header, out, hwritten⟩ := h
  obtain ⟨line, hline, hlogger⟩ := Option.map_eq_some_iff.mp hwritten
  obtain ⟨fields, -, rfl⟩ := Option.map_eq_some_iff.mp hline
  have htext : text = general 6 (k / 1000) ++ separator :: (separated fields ++ [10]) := by
    have hout := Option.some.inj (congrArg CSVDataLogger.outputStream hlogger)
    rw [List.append_assoc] at hout
    rw [← List.append_cancel_left hout, streamFormat, htime]
    simp
  obtain ⟨l, hl, -⟩ := general_milliseconds k
  rw [htext, timeField_append (plainNumber_writes hl)]

/-- Two different instants stay apart in the file and can be read back if and only if both of them
have six significant digits at most. -/
theorem instants_kept_iff_six_digits (real : BitVec 64 → StdString) (k₁ k₂ : Nat) (hne : k₁ ≠ k₂) (ev₁ ev₂ : StaticEvent)
    (htime₁ : ev₁.time = k₁ / 1000) (htime₂ : ev₂.time = k₂ / 1000) (text₁ text₂ : StdString)
    (hwritten₁ : Written (streamFormat real) ev₁ text₁) (hwritten₂ : Written (streamFormat real) ev₂ text₂) :
    InstantsKept k₁ k₂ text₁ text₂ ↔ SixDigits k₁ ∧ SixDigits k₂ := by
  obtain ⟨l₁, hl₁, hexact₁⟩ := general_milliseconds k₁
  obtain ⟨l₂, hl₂, hexact₂⟩ := general_milliseconds k₂
  have hread {q : ℚ} {text : StdString} {l : Literal} (hl : Writes l text) :
      (some text).map float = some (.ok (.finite q)) ↔ l.value = q := by
    rw [Option.map_some, float_writes hl]
    simp
  rw [InstantsKept, hwritten₁.field htime₁, hwritten₂.field htime₂, hread hl₁, hread hl₂, hexact₁, hexact₂]
  constructor
  · exact fun h => h.2
  · intro h
    refine ⟨fun heq => ?_, h⟩
    -- The same text would be read as both of the times.
    have hsame := float_writes hl₁
    rw [Option.some.inj heq, float_writes hl₂, hexact₁.mpr h.1, hexact₂.mpr h.2, Except.ok.injEq,
      FloatValue.finite.injEq, div_left_inj' (by norm_num)] at hsame
    exact hne (by exact_mod_cast hsame.symm)

/-- A line of an event without variables. -/
private theorem written_general {time : ℚ} {text : StdString} (h : general 6 time ++ [separator, 10] = text) :
    Written (streamFormat fun _ => []) ⟨time, []⟩ text := by
  refine ⟨[], [], ?_⟩
  subst h
  simp [eventTriggered, eventLine, separated, streamFormat]

theorem instants_kept_iff_six_digits_short :
    SixDigits 1500 ∧ SixDigits 42000000 ∧ InstantsKept 1500 42000000 (ascii "1.5;\n") (ascii "42000;\n") := by
  have hfirst : SixDigits 1500 := ⟨15, 2, by decide, rfl⟩
  have hsecond : SixDigits 42000000 := ⟨42, 6, by decide, rfl⟩
  have hwritten₁ : Written (streamFormat fun _ => []) ⟨(1500 : Nat) / 1000, []⟩ (ascii "1.5;\n") :=
    written_general (by decide +kernel)
  have hwritten₂ : Written (streamFormat fun _ => []) ⟨(42000000 : Nat) / 1000, []⟩ (ascii "42000;\n") :=
    written_general (by decide +kernel)
  exact ⟨hfirst, hsecond, (instants_kept_iff_six_digits _ 1500 42000000 (by decide) _ _ rfl rfl _ _ hwritten₁
    hwritten₂).mpr ⟨hfirst, hsecond⟩⟩

/-- After a thousand seconds, neighbouring milliseconds are printed alike. -/
theorem instants_coincide_after_thousand_seconds :
    Written (streamFormat fun _ => []) ⟨(1000001 : Nat) / 1000, []⟩ (ascii "1000;\n") ∧
      Written (streamFormat fun _ => []) ⟨(1000002 : Nat) / 1000, []⟩ (ascii "1000;\n") ∧
      ¬ InstantsKept 1000001 1000002 (ascii "1000;\n") (ascii "1000;\n") :=
  ⟨written_general (by decide +kernel), written_general (by decide +kernel), fun h => h.1 rfl⟩

end FMITerminalBlock.Scripts
