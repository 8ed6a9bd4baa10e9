import Mathlib.Data.List.Basic
import Mathlib.Data.UInt

/-! Decoding of UTF-8, one byte at a time. Bytes below 128 are characters of their own wherever they
stand, so that a text can be taken apart at them. -/
namespace Utf8

/-- What is known of a character that has begun: its bits so far, the number of bytes that are missing
and the range of the next one. -/
structure State where
  value : Nat := 0
  missing : Nat := 0
  low : UInt8 := 0x80
  high : UInt8 := 0xbf
  low_ge : 0x80 ≤ low := by decide

/-- The first byte of a character of several bytes. Encodings that are longer than necessary,
surrogates and values beyond the last character are excluded by the range of the second byte. -/
def lead (b : UInt8) : Option State :=
  if 0xc2 ≤ b ∧ b ≤ 0xdf then some { value := b.toNat - 0xc0, missing := 1 }
  else if b = 0xe0 then some { value := 0x0, missing := 2, low := 0xa0 }
  else if b = 0xed then some { value := 0xd, missing := 2, high := 0x9f }
  else if 0xe1 ≤ b ∧ b ≤ 0xef then some { value := b.toNat - 0xe0, missing := 2 }
  else if b = 0xf0 then some { value := 0x0, missing := 3, low := 0x90 }
  else if 0xf1 ≤ b ∧ b ≤ 0xf3 then some { value := b.toNat - 0xf0, missing := 3 }
  else if b = 0xf4 then some { value := 0x4, missing := 3, high := 0x8f }
  else none

/-- The bits of the character with those of one more byte. -/
def State.continued (s : State) (b : UInt8) : Nat := s.value * 64 + (b.toNat - 0x80)

/-- The characters of the rest of a text, if it is well-formed. -/
def decodeFrom : State → List UInt8 → Option (List Nat)
  | s, [] => if s.missing = 0 then some [] else none
  | s, b :: rest =>
    if s.missing = 0 then
      if b < 0x80 then (decodeFrom {} rest).map (b.toNat :: ·)
      else (lead b).bind (decodeFrom · rest)
    else if s.low ≤ b ∧ b ≤ s.high then
      if s.missing = 1 then (decodeFrom {} rest).map (s.continued b :: ·)
      else decodeFrom { value := s.continued b, missing := s.missing - 1 } rest
    else none

def decode (text : List UInt8) : Option (List Nat) := decodeFrom {} text

def WellFormed (text : List UInt8) : Prop := (decode text).isSome = true

instance : DecidablePred WellFormed := fun text => inferInstanceAs (Decidable ((decode text).isSome = true))

/-- The number of characters of a well-formed text. -/
def length (text : List UInt8) : Nat := ((decode text).getD []).length

private theorem length_decodeFrom_le {s : State} {text : List UInt8} {chars : List Nat}
    (h : decodeFrom s text = some chars) : chars.length ≤ text.length := by
  induction text generalizing s chars with
  | nil =>
    rw [decodeFrom] at h
    split at h <;> cases h
    exact le_rfl
  | cons b rest ih =>
    have hone {c : Nat} (hmap : (decodeFrom {} rest).map (c :: ·) = some chars) : chars.length ≤ rest.length + 1 := by
      obtain ⟨others, hothers, rfl⟩ := Option.map_eq_some_iff.mp hmap
      exact Nat.succ_le_succ (ih hothers)
    have hnone {next : State} (hrest : decodeFrom next rest = some chars) : chars.length ≤ rest.length + 1 :=
      (ih hrest).trans (Nat.le_succ _)
    rw [decodeFrom] at h
    split at h
    · split at h
      · exact hone h
      · obtain ⟨next, -, hrest⟩ := Option.bind_eq_some_iff.mp h
        exact hnone hrest
    · split at h
      · split at h
        · exact hone h
        · exact hnone h
      · cases h

theorem length_le (text : List UInt8) : length text ≤ text.length := by
  rw [length]
  cases hdecode : decode text with
  | none => exact Nat.zero_le _
  | some chars => exact length_decodeFrom_le hdecode

/-! ### Taking texts apart -/

/-- A byte below 128 ends whatever stands in front of it. -/
private theorem decodeFrom_append_cons (s : State) (front back : List UInt8) {b : UInt8} (hb : b < 0x80) :
    decodeFrom s (front ++ b :: back) =
      (decodeFrom s front).bind fun chars => (decode back).map fun others => chars ++ b.toNat :: others := by
  induction front generalizing s with
  | nil =>
    rw [List.nil_append, decodeFrom, decodeFrom]
    by_cases hs : s.missing = 0
    · rw [if_pos hs, if_pos hs, if_pos hb, Option.bind_some]
      rfl
    · have hrange : ¬ (s.low ≤ b ∧ b ≤ s.high) := fun h => absurd (UInt8.le_trans s.low_ge h.1) (UInt8.not_le.mpr hb)
      rw [if_neg hs, if_neg hs, if_neg hrange, Option.bind_none]
  | cons c front ih =>
    rw [List.cons_append, decodeFrom, decodeFrom]
    split
    · split
      · rw [ih, Option.map_bind, Option.bind_map]
        congr 1
        funext chars
        rw [Function.comp_apply, Option.map_map]
        rfl
      · rw [Option.bind_assoc]
        congr 1
        funext next
        exact ih next
    · split
      · split
        · rw [ih, Option.map_bind, Option.bind_map]
          congr 1
          funext chars
          rw [Function.comp_apply, Option.map_map]
          rfl
        · exact ih _
      · rfl

theorem wellFormed_nil : WellFormed [] := rfl

theorem wellFormed_append_cons {b : UInt8} (hb : b < 0x80) {front back : List UInt8} :
    WellFormed (front ++ b :: back) ↔ WellFormed front ∧ WellFormed back := by
  rw [WellFormed, decode, decodeFrom_append_cons _ _ _ hb, WellFormed, WellFormed, ← decode]
  cases decode front with
  | none => simp
  | some chars => simp

theorem wellFormed_cons {b : UInt8} (hb : b < 0x80) {text : List UInt8} : WellFormed (b :: text) ↔ WellFormed text := by
  rw [← List.nil_append (b :: text), wellFormed_append_cons hb]
  exact and_iff_right wellFormed_nil

theorem wellFormed_of_ascii {text : List UInt8} (h : ∀ b ∈ text, b < 0x80) : WellFormed text := by
  induction text with
  | nil => exact wellFormed_nil
  | cons b text ih =>
    rw [wellFormed_cons (h b List.mem_cons_self)]
    exact ih fun c hc => h c (List.mem_cons_of_mem _ hc)

/-- Parts with an end of their own. -/
theorem wellFormed_flatMap {b : UInt8} (hb : b < 0x80) {parts : List (List UInt8)} :
    WellFormed (parts.flatMap (· ++ [b])) ↔ ∀ part ∈ parts, WellFormed part := by
  induction parts with
  | nil => simp [wellFormed_nil]
  | cons part parts ih =>
    rw [List.flatMap_cons, List.append_assoc, List.singleton_append, wellFormed_append_cons hb, ih,
      List.forall_mem_cons]

/-- Parts with a separator between them. -/
theorem wellFormed_intercalate {b : UInt8} (hb : b < 0x80) {parts : List (List UInt8)} :
    WellFormed ([b].intercalate parts) ↔ ∀ part ∈ parts, WellFormed part := by
  induction parts with
  | nil => simp [wellFormed_nil]
  | cons part parts ih =>
    cases parts with
    | nil => simp
    | cons next parts =>
      rw [List.intercalate_cons_cons, List.append_assoc, List.singleton_append, wellFormed_append_cons hb, ih,
        ← List.forall_mem_cons]

end Utf8
