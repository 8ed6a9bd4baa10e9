import Mathlib.Data.List.Basic

/-! A temporal pattern over finite histories: what some elements open has to be closed by another
element before an element of a third kind may follow. -/
namespace Obligation
variable {α : Type*} (opens closes bars : α → Prop)

/-- Something was opened and not closed since. -/
def Owed (l : List α) : Prop :=
  ∃ past a rest, l = past ++ a :: rest ∧ opens a ∧ ∀ d ∈ rest, ¬closes d

/-- Between an element that opens and a later one that is barred there is one that closes. -/
def Honoured (l : List α) : Prop :=
  ∀ past a mid b rest, l = past ++ a :: (mid ++ b :: rest) → opens a → bars b → ∃ d ∈ mid, closes d

variable {opens closes bars}

theorem not_owed_nil : ¬Owed opens closes ([] : List α) := by
  rintro ⟨past, a, rest, h, -⟩
  simp at h

theorem Owed.of_snoc {l : List α} {x : α} (h : Owed opens closes (l ++ [x])) :
    opens x ∨ Owed opens closes l ∧ ¬closes x := by
  obtain ⟨past, a, rest, hl, ha, hrest⟩ := h
  rcases List.eq_nil_or_concat' rest with rfl | ⟨rest', y, rfl⟩
  · obtain ⟨-, hx⟩ := List.append_inj' hl rfl
    cases hx
    exact .inl ha
  · rw [← List.cons_append, ← List.append_assoc] at hl
    obtain ⟨rfl, hx⟩ := List.append_inj' hl rfl
    cases hx
    exact .inr ⟨⟨past, a, rest', rfl, ha, fun d hd => hrest d (List.mem_append_left _ hd)⟩,
      hrest x (List.mem_append_right _ List.mem_cons_self)⟩

theorem honoured_nil : Honoured opens closes bars ([] : List α) := by
  intro past a mid b rest h
  simp at h

/-- A barred element may follow only when nothing is owed. -/
theorem Honoured.snoc {l : List α} {x : α} (h : Honoured opens closes bars l)
    (hx : bars x → ¬Owed opens closes l) : Honoured opens closes bars (l ++ [x]) := by
  intro past a mid b rest hl ha hb
  rcases List.eq_nil_or_concat' rest with rfl | ⟨rest', y, rfl⟩
  · rw [← List.cons_append, ← List.append_assoc] at hl
    obtain ⟨rfl, hxb⟩ := List.append_inj' hl rfl
    cases hxb
    by_contra hnone
    exact hx hb ⟨past, a, mid, rfl, ha, fun d hd hclose => hnone ⟨d, hd, hclose⟩⟩
  · have hl' : l ++ [x] = (past ++ a :: (mid ++ b :: rest')) ++ [y] := by rw [hl]; simp
    obtain ⟨rfl, -⟩ := List.append_inj' hl' rfl
    exact h past a mid b rest' rfl ha hb

end Obligation
