import Mathlib.Algebra.Order.Group.Defs
import Mathlib.Data.List.Basic
import Mathlib.Data.List.Perm.Basic

/-! Lists that are sorted up to a tolerance. The comparison is not transitive, so the
invariant relates every pair of positions and not only neighbours. -/
namespace NearlySorted
variable {α K : Type*} [AddCommGroup K] [LinearOrder K]

/-- No element is more than `eps` earlier than an element standing before it. -/
def Sorted (eps : K) (key : α → K) (l : List α) : Prop :=
  l.Pairwise fun a b => key a ≤ key b + eps

/-- Puts `x` behind the longest prefix of elements that are at most `eps` later than `x`. -/
def insert (eps : K) (key : α → K) (x : α) (l : List α) : List α :=
  l.takeWhile (fun a => decide (key a ≤ key x + eps)) ++
    x :: l.dropWhile (fun a => decide (key a ≤ key x + eps))

variable {eps : K} {key : α → K} {x y : α} {l : List α}

@[simp] theorem insert_nil : insert eps key x [] = [x] := rfl

theorem insert_cons_of_le (h : key y ≤ key x + eps) :
    insert eps key x (y :: l) = y :: insert eps key x l := by
  simp [insert, h]

theorem insert_cons_of_lt (h : key x + eps < key y) :
    insert eps key x (y :: l) = x :: y :: l := by
  simp [insert, not_le.mpr h]

theorem insert_perm : (insert eps key x l).Perm (x :: l) := by
  rw [insert]
  refine List.perm_middle.trans (List.Perm.cons x ?_)
  rw [List.takeWhile_append_dropWhile]

theorem mem_insert {a : α} : a ∈ insert eps key x l ↔ a = x ∨ a ∈ l := by
  rw [insert_perm.mem_iff, List.mem_cons]

theorem sublist_insert : l.Sublist (insert eps key x l) := by
  have h := (List.Sublist.refl (l.takeWhile fun a => decide (key a ≤ key x + eps))).append
    (List.sublist_cons_self x (l.dropWhile fun a => decide (key a ≤ key x + eps)))
  rwa [List.takeWhile_append_dropWhile] at h

theorem filter_insert_of_neg {p : α → Bool} (hx : ¬p x) : (insert eps key x l).filter p = l.filter p := by
  rw [insert, List.filter_append, List.filter_cons_of_neg hx, ← List.filter_append, List.takeWhile_append_dropWhile]

/-- The new front is `x` itself or the old front, whichever the scan decides for. -/
theorem head?_insert {a : α} (h : a ∈ (insert eps key x l).head?) :
    a = x ∧ (∀ b ∈ l.head?, key x + eps < key b) ∨ a ∈ l.head? ∧ key a ≤ key x + eps := by
  cases l with
  | nil => simp_all
  | cons b l =>
    rcases le_or_gt (key b) (key x + eps) with hle | hlt
    · rw [insert_cons_of_le hle] at h
      cases h
      exact .inr ⟨rfl, hle⟩
    · rw [insert_cons_of_lt hlt] at h
      cases h
      exact .inl ⟨rfl, fun c hc => by cases hc; exact hlt⟩

theorem exists_head?_insert (eps : K) (key : α → K) (x : α) (l : List α) : ∃ a, a ∈ (insert eps key x l).head? := by
  cases h : insert eps key x l with
  | nil => exact absurd (h ▸ mem_insert.mpr (.inl rfl)) List.not_mem_nil
  | cons a rest => exact ⟨a, rfl⟩

theorem Sorted.tail (h : Sorted eps key (y :: l)) : Sorted eps key l :=
  (List.pairwise_cons.mp h).2

variable [IsOrderedAddMonoid K]

/-- Inserting keeps the order up to the tolerance. The element the scan stops at is later than
`x` by more than `eps`, so everything behind it is later than `x`. -/
theorem insert_sorted (he : 0 ≤ eps) (h : Sorted eps key l) : Sorted eps key (insert eps key x l) := by
  induction l with
  | nil => simp [Sorted]
  | cons y l ih =>
    obtain ⟨hy, hl⟩ := List.pairwise_cons.mp h
    rcases le_or_gt (key y) (key x + eps) with hle | hlt
    · rw [insert_cons_of_le hle]
      refine List.pairwise_cons.mpr ⟨fun a ha => ?_, ih hl⟩
      rcases mem_insert.mp ha with rfl | ha
      · exact hle
      · exact hy a ha
    · rw [insert_cons_of_lt hlt]
      refine List.pairwise_cons.mpr ⟨fun a ha => ?_, h⟩
      have hxy : key x ≤ key y := (le_add_of_nonneg_right he).trans hlt.le
      rcases List.mem_cons.mp ha with rfl | ha
      · exact hxy.trans (le_add_of_nonneg_right he)
      · exact hxy.trans (hy a ha)

/-- Inserting also keeps a finer relation between the positions, if `x` bears it to everything that
is later than `x` and the elements that are not clearly later bear it to `x`. -/
theorem insert_pairwise {R : α → α → Prop} (he : 0 ≤ eps) (h : Sorted eps key l) (hl : l.Pairwise R)
    (hbefore : ∀ a ∈ l, key a ≤ key x + eps → R a x) (hafter : ∀ a ∈ l, key x < key a → R x a) :
    (insert eps key x l).Pairwise R := by
  induction l with
  | nil => simp
  | cons y l ih =>
    obtain ⟨hy, hsorted⟩ := List.pairwise_cons.mp h
    obtain ⟨hRy, hRl⟩ := List.pairwise_cons.mp hl
    rcases le_or_gt (key y) (key x + eps) with hle | hlt
    · rw [insert_cons_of_le hle]
      refine List.pairwise_cons.mpr ⟨fun a ha => ?_, ih hsorted hRl ?_ ?_⟩
      · rcases mem_insert.mp ha with rfl | ha
        · exact hbefore y List.mem_cons_self hle
        · exact hRy a ha
      · exact fun a ha => hbefore a (List.mem_cons_of_mem y ha)
      · exact fun a ha => hafter a (List.mem_cons_of_mem y ha)
    · rw [insert_cons_of_lt hlt]
      refine List.pairwise_cons.mpr ⟨fun a ha => hafter a ha ?_, hl⟩
      rcases List.mem_cons.mp ha with rfl | ha
      · exact (le_add_of_nonneg_right he).trans_lt hlt
      · exact lt_of_add_lt_add_right (hlt.trans_le (hy a ha))

/-- Among elements of which none is later than `x` the new one comes last. -/
theorem filter_insert_of_le {p : α → Bool} (he : 0 ≤ eps) (h : Sorted eps key l) (hx : p x)
    (hle : ∀ a ∈ l, p a → key a ≤ key x) : (insert eps key x l).filter p = l.filter p ++ [x] := by
  induction l with
  | nil => simp [hx]
  | cons y l ih =>
    obtain ⟨hy, hl⟩ := List.pairwise_cons.mp h
    rcases le_or_gt (key y) (key x + eps) with hfirst | hlt
    · have hrest := ih hl fun a ha => hle a (List.mem_cons_of_mem y ha)
      rw [insert_cons_of_le hfirst, List.filter_cons, List.filter_cons, hrest]
      split <;> rfl
    · -- Everything behind `y` is later than `x`.
      have hnone : (y :: l).filter p = [] := by
        refine List.filter_eq_nil_iff.mpr fun a ha hp => ?_
        have hax : key a ≤ key x := hle a ha hp
        rcases List.mem_cons.mp ha with rfl | ha
        · exact absurd hlt (not_lt.mpr (hax.trans (le_add_of_nonneg_right he)))
        · have hya := (hy a ha).trans (add_le_add_left hax eps)
          exact absurd hlt (not_lt.mpr hya)
      rw [insert_cons_of_lt hlt, List.filter_cons_of_pos hx, hnone, List.nil_append]

end NearlySorted
