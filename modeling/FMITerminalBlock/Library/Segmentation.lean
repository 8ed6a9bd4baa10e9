import Mathlib.Data.List.Basic

/-! A stream of blocks that is cut into chunks anywhere. A machine that absorbs complete blocks
and holds the beginning of an incomplete one reaches the same state for every way of cutting. -/
namespace Segmentation
variable {α β σ : Type*} {bytes : β → List α}

/-- What is left over is nothing or a proper beginning of the next block. -/
def Beginning (bytes : β → List α) (blocks : List β) (tail : List α) : Prop :=
  tail = [] ∨ ∃ block rest back, blocks = block :: rest ∧ bytes block = tail ++ back ∧ tail ≠ [] ∧ back ≠ []

theorem Beginning.of_append {blocks : List β} {front rest : List α} (h : Beginning bytes blocks (front ++ rest)) :
    Beginning bytes blocks front := by
  by_cases hfront : front = []
  · exact .inl hfront
  rcases h with hnil | ⟨block, others, back, rfl, hblock, -, hback⟩
  · exact .inl (List.append_eq_nil_iff.mp hnil).1
  · refine .inr ⟨block, others, rest ++ back, rfl, by rw [hblock, List.append_assoc], hfront, ?_⟩
    exact List.append_ne_nil_of_right_ne_nil rest hback

/-- Every cut through the stream lies between two blocks or inside one. -/
theorem exists_split {blocks future : List β} {last front rest : List α} (hlast : Beginning bytes future last)
    (h : blocks.flatMap bytes ++ last = front ++ rest) :
    ∃ past next tail, blocks = past ++ next ∧ front = past.flatMap bytes ++ tail ∧
      tail ++ rest = next.flatMap bytes ++ last ∧ Beginning bytes (next ++ future) tail := by
  induction blocks generalizing front with
  | nil =>
    rw [List.flatMap_nil, List.nil_append] at h
    exact ⟨[], [], front, rfl, rfl, h.symm, (h ▸ hlast).of_append⟩
  | cons block blocks ih =>
    rw [List.flatMap_cons, List.append_assoc] at h
    rcases List.append_eq_append_iff.mp h with ⟨mid, rfl, hmid⟩ | ⟨back, hblock, hback⟩
    · obtain ⟨past, next, tail, rfl, rfl, hnext, htail⟩ := ih hmid
      exact ⟨block :: past, next, tail, rfl, by simp, hnext, htail⟩
    · by_cases hfront : front = []
      · exact ⟨[], block :: blocks, [], rfl, by simp [hfront], by simp [hblock, hback, hfront], .inl rfl⟩
      by_cases hcomplete : back = []
      · exact ⟨[block], blocks, [], rfl, by simp [hblock, hcomplete], by simp [hback, hcomplete], .inl rfl⟩
      · exact ⟨[], block :: blocks, front, rfl, rfl, by simp [hblock, hback],
          .inr ⟨block, blocks ++ future, back, rfl, hblock, hfront, hcomplete⟩⟩

/-- A proper beginning of the next block holds no complete block. -/
theorem Beginning.eq_of_flatMap {past future : List β} {tail last : List α}
    (hne : ∀ block ∈ past, bytes block ≠ []) (h : Beginning bytes (past ++ future) tail)
    (hall : tail = past.flatMap bytes ++ last) : past = [] ∧ tail = last := by
  cases past with
  | nil => exact ⟨rfl, hall⟩
  | cons block past =>
    rw [List.flatMap_cons, List.append_assoc] at hall
    rcases h with rfl | ⟨next, rest, back, hblocks, hblock, -, hback⟩
    · exact absurd (List.append_eq_nil_iff.mp hall.symm).1 (hne block List.mem_cons_self)
    · rw [List.cons_append, List.cons.injEq] at hblocks
      obtain ⟨rfl, -⟩ := hblocks
      have hlength := congrArg List.length hblock
      have hpos := List.length_pos_iff.mpr hback
      simp only [hall, List.length_append] at hlength
      omega

/-- If one chunk takes the machine from any cut of the stream to any later one, a whole sequence of
chunks leads to the state after all complete blocks, which holds what is left over. -/
theorem foldlM_chunks {Valid : β → Prop} {Inv : σ → Prop} {step : σ → List α → Option σ} {absorb : σ → β → σ}
    (hold : σ → List α → σ) (hne : ∀ block, Valid block → bytes block ≠ [])
    (habsorb : ∀ s block, Inv s → Inv (absorb s block))
    (hstep : ∀ s past future tail tail' data, Inv s → (∀ block ∈ past ++ future, Valid block) →
      tail ++ data = past.flatMap bytes ++ tail' → Beginning bytes (past ++ future) tail →
      Beginning bytes future tail' → step (hold s tail) data = some (hold (past.foldl absorb s) tail'))
    {chunks : List (List α)} {blocks future : List β} {tail last : List α} {s : σ} (hs : Inv s)
    (hvalid : ∀ block ∈ blocks ++ future, Valid block) (htail : Beginning bytes (blocks ++ future) tail)
    (hlast : Beginning bytes future last) (hall : blocks.flatMap bytes ++ last = tail ++ chunks.flatten) :
    chunks.foldlM step (hold s tail) = some (hold (blocks.foldl absorb s) last) := by
  induction chunks generalizing s blocks tail with
  | nil =>
    rw [List.flatten_nil, List.append_nil] at hall
    obtain ⟨rfl, rfl⟩ := htail.eq_of_flatMap
      (fun block hb => hne block (hvalid block (List.mem_append_left future hb))) hall.symm
    rfl
  | cons data chunks ih =>
    rw [List.flatten_cons, ← List.append_assoc] at hall
    obtain ⟨past, next, tail', rfl, hfront, hrest, htail'⟩ := exists_split hlast hall
    rw [List.append_assoc] at hvalid htail
    rw [List.foldlM_cons, hstep s past (next ++ future) tail tail' data hs hvalid hfront htail htail',
      List.foldl_append]
    have hpast : Inv (past.foldl absorb s) := List.foldlRecOn past absorb hs fun s hs block _ => habsorb s block hs
    exact ih hpast (fun block hb => hvalid block (List.mem_append_right past hb)) htail' hrest.symm

end Segmentation
