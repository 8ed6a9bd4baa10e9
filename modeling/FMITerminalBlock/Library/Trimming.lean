import Mathlib.Data.List.Sort
import Mathlib.Data.List.Sublists

/-! Trimming a list by an order of its items: as many of the smallest items as of the largest ones are
taken away, and what is kept stays in its place. -/
namespace Trimming
variable {α β : Type*} {r : α → α → Prop} {k m : Nat} {l kept kept' : List α}

/-! ### Items at positions -/

/-- The items at some positions, in the order of the positions. -/
def pick (l : List α) (positions : List Nat) : List α := positions.filterMap (l[·]?)

theorem pick_map (f : α → β) (l : List α) (positions : List Nat) :
    pick (l.map f) positions = (pick l positions).map f := by
  rw [pick, pick, List.map_filterMap]
  apply List.filterMap_congr
  intro i _
  exact List.getElem?_map

theorem pick_append (l : List α) (positions more : List Nat) :
    pick l (positions ++ more) = pick l positions ++ pick l more := List.filterMap_append

theorem pick_range (l : List α) : pick l (List.range l.length) = l := by
  have hpositions : (List.range l.length).map (l[·]?) = l.map some := by
    apply List.ext_getElem?
    intro i
    rw [List.getElem?_map, List.getElem?_map]
    by_cases hi : i < l.length <;> simp [hi]
  calc pick l (List.range l.length)
    _ = ((List.range l.length).map (l[·]?)).filterMap id := by
      rw [List.filterMap_map]
      rfl
    _ = l := by
      rw [hpositions, List.filterMap_map]
      exact List.filterMap_some

theorem length_pick {positions : List Nat} (h : ∀ i ∈ positions, i < l.length) :
    (pick l positions).length = positions.length := by
  induction positions with
  | nil => rfl
  | cons i positions ih =>
    have hi := List.getElem?_eq_getElem (h i List.mem_cons_self)
    rw [pick, List.filterMap_cons_some hi, List.length_cons, List.length_cons]
    exact congrArg Nat.succ (ih fun j hj => h j (List.mem_cons_of_mem i hj))

/-- Distinct positions in ascending order leave the items in their places. -/
theorem pick_sublist {positions : List Nat} (hsorted : positions.Pairwise (· ≤ ·))
    (hpositions : positions.Subperm (List.range l.length)) : (pick l positions).Sublist l := by
  have hrange : (List.range l.length).Pairwise (· ≤ ·) := List.pairwise_le_range
  have hsublist := List.sublist_of_subperm_of_pairwise hpositions hsorted hrange
  have hpicked := hsublist.filterMap (l[·]?)
  rwa [← pick, ← pick, pick_range] at hpicked

/-! ### Trimmed lists -/

/-- All positions of a list, such that the items are sorted. -/
structure Sorts (r : α → α → Prop) (l : List α) (order : List Nat) : Prop where
  perm : order.Perm (List.range l.length)
  sorted : (pick l order).Pairwise r

/-- What is kept has lost the `k` smallest and the `k` largest items. -/
structure Trimmed (r : α → α → Prop) (k : Nat) (l kept : List α) : Prop where
  sublist : kept.Sublist l
  split : ∃ low high, low.length = k ∧ high.length = k ∧ (low ++ kept ++ high).Perm l ∧
    (∀ a ∈ low, ∀ b ∈ kept ++ high, r a b) ∧ ∀ a ∈ kept, ∀ b ∈ high, r a b

theorem Trimmed.refl (r : α → α → Prop) (l : List α) : Trimmed r 0 l l := by
  refine ⟨.refl l, [], [], rfl, rfl, ?_, List.forall_mem_nil _, fun _ _ => List.forall_mem_nil _⟩
  rw [List.nil_append, List.append_nil]

theorem Trimmed.length (h : Trimmed r k l kept) : kept.length + 2 * k = l.length := by
  obtain ⟨low, high, hlow, hhigh, hperm, -⟩ := h.split
  have hlength := hperm.length_eq
  rw [List.length_append, List.length_append] at hlength
  omega

/-- Trimming twice is trimming once. -/
theorem Trimmed.trans (h : Trimmed r k l kept) (h' : Trimmed r m kept kept') : Trimmed r (k + m) l kept' := by
  obtain ⟨low, high, hlow, hhigh, hperm, hbelow, habove⟩ := h.split
  obtain ⟨low', high', hlow', hhigh', hperm', hbelow', habove'⟩ := h'.split
  have hkept {a : α} (ha : a ∈ low' ∨ a ∈ kept' ∨ a ∈ high') : a ∈ kept := by
    apply hperm'.subset
    rw [List.append_assoc, List.mem_append, List.mem_append]
    exact ha
  refine ⟨h'.sublist.trans h.sublist, low ++ low', high' ++ high, ?_, ?_, ?_, ?_, ?_⟩
  · rw [List.length_append, hlow, hlow']
  · rw [List.length_append, hhigh, hhigh', Nat.add_comm]
  · have hmiddle : low ++ low' ++ kept' ++ (high' ++ high) = low ++ (low' ++ kept' ++ high') ++ high := by simp
    rw [hmiddle]
    exact ((hperm'.append_left low).append_right high).trans hperm
  · intro a ha b hb
    rw [List.mem_append] at ha
    rw [List.mem_append, List.mem_append] at hb
    rcases ha with ha | ha
    · apply hbelow a ha b
      rw [List.mem_append]
      rcases hb with hb | hb | hb
      · exact .inl (hkept (.inr (.inl hb)))
      · exact .inl (hkept (.inr (.inr hb)))
      · exact .inr hb
    · rcases hb with hb | hb | hb
      · exact hbelow' a ha b (List.mem_append_left _ hb)
      · exact hbelow' a ha b (List.mem_append_right _ hb)
      · exact habove a (hkept (.inl ha)) b hb
  · intro a ha b hb
    rcases List.mem_append.mp hb with hb | hb
    · exact habove' a ha b hb
    · exact habove a (hkept (.inr (.inl ha))) b hb

theorem Trimmed.map {s : β → β → Prop} {f : α → β} (h : Trimmed r k l kept) (hr : ∀ a b, r a b → s (f a) (f b)) :
    Trimmed s k (l.map f) (kept.map f) := by
  obtain ⟨low, high, hlow, hhigh, hperm, hbelow, habove⟩ := h.split
  refine ⟨h.sublist.map f, low.map f, high.map f, ?_, ?_, ?_, ?_, ?_⟩
  · rw [List.length_map, hlow]
  · rw [List.length_map, hhigh]
  · rw [← List.map_append, ← List.map_append]
    exact hperm.map f
  · rw [← List.map_append, List.forall_mem_map]
    intro a ha
    rw [List.forall_mem_map]
    exact fun b hb => hr a b (hbelow a ha b hb)
  · rw [List.forall_mem_map]
    intro a ha
    rw [List.forall_mem_map]
    exact fun b hb => hr a b (habove a ha b hb)

/-- The middle of a sorted list of positions, put back into ascending order, trims the list. -/
theorem Sorts.trimmed {order : List Nat} (h : Sorts r l order) (hk : 2 * k ≤ l.length) :
    Trimmed r k l (pick l (((order.take (l.length - k)).drop k).insertionSort (· ≤ ·))) := by
  have hlength : order.length = l.length := by rw [h.perm.length_eq, List.length_range]
  have hsplit : order.take k ++ (order.take (l.length - k)).drop k ++ order.drop (l.length - k) = order := by
    have htake : order.take k = (order.take (l.length - k)).take k := by rw [List.take_take, Nat.min_eq_left (by omega)]
    rw [htake, List.take_append_drop, List.take_append_drop]
  have hsort := (((order.take (l.length - k)).drop k).perm_insertionSort (· ≤ ·))
  have hpicked : (pick l (((order.take (l.length - k)).drop k).insertionSort (· ≤ ·))).Perm
      (pick l ((order.take (l.length - k)).drop k)) := hsort.filterMap _
  have hbounded : ∀ i ∈ order, i < l.length := fun i hi => List.mem_range.mp (h.perm.subset hi)
  have hsorted := h.sorted
  rw [← hsplit, pick_append, pick_append, List.append_assoc, List.pairwise_append, List.pairwise_append] at hsorted
  obtain ⟨-, ⟨-, -, habove⟩, hbelow⟩ := hsorted
  refine ⟨?_, pick l (order.take k), pick l (order.drop (l.length - k)), ?_, ?_, ?_, ?_, ?_⟩
  · apply pick_sublist (List.pairwise_insertionSort _ _)
    have hsub : ((order.take (l.length - k)).drop k).Sublist order :=
      (List.drop_sublist _ _).trans (List.take_sublist _ _)
    exact hsort.subperm.trans (hsub.subperm.trans h.perm.subperm)
  · rw [length_pick fun i hi => hbounded i (List.mem_of_mem_take hi), List.length_take]
    omega
  · rw [length_pick fun i hi => hbounded i (List.mem_of_mem_drop hi), List.length_drop]
    omega
  · apply ((hpicked.append_left _).append_right _).trans
    rw [← pick_append, ← pick_append, hsplit]
    have hall : (pick l order).Perm (pick l (List.range l.length)) := h.perm.filterMap _
    rwa [pick_range] at hall
  · intro a ha b hb
    apply hbelow a ha b
    exact (hpicked.append_right _).subset hb
  · exact fun a ha b hb => habove a (hpicked.subset ha) b hb

/-- The items that are kept are determined, however equal ones were sorted. -/
theorem Trimmed.unique [Std.Total r] [IsTrans α r] [Std.Antisymm r] [DecidableRel r] (h : Trimmed r k l kept)
    (h' : Trimmed r k l kept') : kept.Perm kept' := by
  have hsorted {low kept high : List α} (hbelow : ∀ a ∈ low, ∀ b ∈ kept ++ high, r a b)
      (habove : ∀ a ∈ kept, ∀ b ∈ high, r a b) :
      (low.insertionSort r ++ (kept.insertionSort r ++ high.insertionSort r)).Pairwise r := by
    rw [List.pairwise_append, List.pairwise_append]
    refine ⟨List.pairwise_insertionSort r low, ⟨List.pairwise_insertionSort r kept,
      List.pairwise_insertionSort r high, ?_⟩, ?_⟩
    · intro a ha b hb
      exact habove a ((List.mem_insertionSort r).mp ha) b ((List.mem_insertionSort r).mp hb)
    · intro a ha b hb
      apply hbelow a ((List.mem_insertionSort r).mp ha) b
      rw [List.mem_append] at hb ⊢
      exact hb.imp (List.mem_insertionSort r).mp (List.mem_insertionSort r).mp
  have hall {low kept high : List α} (hperm : (low ++ kept ++ high).Perm l) :
      (low.insertionSort r ++ (kept.insertionSort r ++ high.insertionSort r)).Perm l := by
    rw [List.append_assoc] at hperm
    exact ((low.perm_insertionSort r).append
      ((kept.perm_insertionSort r).append (high.perm_insertionSort r))).trans hperm
  obtain ⟨low, high, hlow, -, hperm, hbelow, habove⟩ := h.split
  obtain ⟨low', high', hlow', -, hperm', hbelow', habove'⟩ := h'.split
  have heq := ((hall hperm).trans (hall hperm').symm).eq_of_pairwise' (hsorted hbelow habove) (hsorted hbelow' habove')
  have hrest := (List.append_inj heq (by rw [List.length_insertionSort, List.length_insertionSort, hlow, hlow'])).2
  have hlength : kept.length = kept'.length := by
    have hkept := h.length
    have hkept' := h'.length
    omega
  have hsame := (List.append_inj hrest (by rw [List.length_insertionSort, List.length_insertionSort, hlength])).1
  exact (kept.perm_insertionSort r).symm.trans (hsame ▸ kept'.perm_insertionSort r)

end Trimming
