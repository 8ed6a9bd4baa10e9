import Mathlib.Logic.Relation
import Mathlib.Data.List.Basic

/-! Finite runs of a machine that is driven by labels. A label stands for everything the
machine does not decide itself: the scheduler, the clock and the data that arrives. -/
namespace LabelledRun
variable {σ τ α : Type*}

/-- Executes the labels in order. The result is `none` as soon as a label is not enabled. -/
def exec (step : σ → α → Option σ) : σ → List α → Option σ
  | s, [] => some s
  | s, a :: as => (step s a).bind fun t => exec step t as

@[simp] theorem exec_nil (step : σ → α → Option σ) (s : σ) : exec step s [] = some s := rfl

theorem exec_cons_eq_some {step : σ → α → Option σ} {s t : σ} {a : α} {as : List α} :
    exec step s (a :: as) = some t ↔ ∃ u, step s a = some u ∧ exec step u as = some t := by
  simp [exec, Option.bind_eq_some_iff]

theorem exec_append_of_eq_some {step : σ → α → Option σ} {s t u : σ} {as bs : List α}
    (h : exec step s as = some t) (h' : exec step t bs = some u) : exec step s (as ++ bs) = some u := by
  induction as generalizing s with
  | nil =>
    cases h
    exact h'
  | cons a as ih =>
    obtain ⟨v, hv, ht⟩ := exec_cons_eq_some.mp h
    exact exec_cons_eq_some.mpr ⟨v, hv, ih ht⟩

/-- Evaluating a run shows that it exists. -/
theorem exec_of_any (step : σ → α → Option σ) (s : σ) (as : List α) (P : σ → Prop) [DecidablePred P]
    (h : (exec step s as).any fun t => decide (P t)) : ∃ t, exec step s as = some t ∧ P t := by
  cases ht : exec step s as with
  | none => rw [ht] at h; cases h
  | some t => rw [ht] at h; exact ⟨t, rfl, of_decide_eq_true h⟩

/-- What every step preserves holds at the end of every run. -/
theorem exec_invariant {step : σ → α → Option σ} {Inv : σ → Prop}
    (hstep : ∀ s a t, Inv s → step s a = some t → Inv t) {s t : σ} {as : List α}
    (hs : Inv s) (h : exec step s as = some t) : Inv t := by
  induction as generalizing s with
  | nil => cases h; exact hs
  | cons a as ih =>
    obtain ⟨u, hu, ht⟩ := exec_cons_eq_some.mp h
    exact ih (hstep s a u hs hu) ht

/-- Labels of a kind that makes a measure smaller whenever they are executed cannot go on for long. -/
theorem exec_bounded {step : σ → α → Option σ} (Inv : σ → Prop) {P : α → Prop} {measure : σ → Nat}
    (hstep : ∀ s a t, Inv s → P a → step s a = some t → Inv t ∧ measure t < measure s) {s t : σ} {as : List α}
    (hs : Inv s) (hP : ∀ a ∈ as, P a) (h : exec step s as = some t) : Inv t ∧ as.length + measure t ≤ measure s := by
  induction as generalizing s with
  | nil => cases h; exact ⟨hs, Nat.le_of_eq (Nat.zero_add _)⟩
  | cons a as ih =>
    obtain ⟨u, hu, ht⟩ := exec_cons_eq_some.mp h
    obtain ⟨hinv, hless⟩ := hstep s a u hs (hP a List.mem_cons_self) hu
    obtain ⟨hend, hlength⟩ := ih hinv (fun b hb => hP b (List.mem_cons_of_mem a hb)) ht
    refine ⟨hend, ?_⟩
    rw [List.length_cons]
    omega

/-- The same rule for an invariant that also speaks about the labels executed so far. -/
theorem exec_history {step : σ → α → Option σ} (Inv : List α → σ → Prop)
    (hstep : ∀ past s a t, Inv past s → step s a = some t → Inv (past ++ [a]) t)
    {s t : σ} {as : List α} (hs : Inv [] s) (h : exec step s as = some t) : Inv as t := by
  suffices hpast : ∀ past s, Inv past s → exec step s as = some t → Inv (past ++ as) t from hpast [] s hs h
  clear hs h
  induction as with
  | nil => intro past s hs h; cases h; simpa using hs
  | cons a as ih =>
    intro past s hs h
    obtain ⟨u, hu, ht⟩ := exec_cons_eq_some.mp h
    simpa using ih _ _ (hstep past s a u hs hu) ht

/-- Every transition the labels make from `s` satisfies `R`. -/
def Along (step : σ → α → Option σ) (R : σ → α → σ → Prop) : σ → List α → Prop
  | _, [] => True
  | s, a :: as => ∀ t, step s a = some t → R s a t ∧ Along step R t as

instance decidableAlong {step : σ → α → Option σ} {R : σ → α → σ → Prop} [∀ s a t, Decidable (R s a t)] :
    (s : σ) → (as : List α) → Decidable (Along step R s as)
  | _, [] => isTrue trivial
  | s, a :: as =>
    match h : step s a with
    | none => isTrue fun _ ht => nomatch h.symm.trans ht
    | some t =>
      have : Decidable (Along step R t as) := decidableAlong t as
      decidable_of_iff (R s a t ∧ Along step R t as)
        ⟨fun hR _ ht => Option.some.inj (h.symm.trans ht) ▸ hR, fun hR => hR t h⟩

/-- Two properties that agree on the transitions from invariant states agree on every run, if the
first of them keeps the invariant. -/
theorem along_iff {step : σ → α → Option σ} (Inv : σ → Prop) {R R' : σ → α → σ → Prop}
    (hstep : ∀ s a t, Inv s → step s a = some t → (R s a t ↔ R' s a t) ∧ (R s a t → Inv t))
    {s : σ} {as : List α} (hs : Inv s) : Along step R s as ↔ Along step R' s as := by
  induction as generalizing s with
  | nil => exact Iff.rfl
  | cons a as ih =>
    refine forall_congr' fun t => imp_congr_right fun h => ?_
    obtain ⟨hiff, hinv⟩ := hstep s a t hs h
    constructor
    · rintro ⟨hr, has⟩
      exact ⟨hiff.mp hr, (ih (hinv hr)).mp has⟩
    · rintro ⟨hr, has⟩
      exact ⟨hiff.mpr hr, (ih (hinv (hiff.mpr hr))).mpr has⟩

/-- An invariant that only the transitions with `R` keep holds at the end of a run made of them. -/
theorem along_invariant {step : σ → α → Option σ} (Inv : σ → Prop) {R : σ → α → σ → Prop}
    (hstep : ∀ s a t, Inv s → R s a t → step s a = some t → Inv t) {s t : σ} {as : List α}
    (hs : Inv s) (hR : Along step R s as) (h : exec step s as = some t) : Inv t := by
  induction as generalizing s with
  | nil => cases h; exact hs
  | cons a as ih =>
    obtain ⟨u, hu, ht⟩ := exec_cons_eq_some.mp h
    obtain ⟨hr, has⟩ := hR u hu
    exact ih (hstep s a u hs hr hu) has ht

/-- A property that a transition from a good state keeps exactly if it satisfies `R` holds in every
state on the way exactly if all transitions satisfy `R`. -/
theorem forall_past_iff_along {step : σ → α → Option σ} (Inv Q : σ → Prop) {R : σ → α → σ → Prop}
    (hstep : ∀ s a t, Inv s → Q s → step s a = some t → Inv t ∧ (Q t ↔ R s a t)) (s : σ) (as : List α)
    (hs : Inv s) (hq : Q s) :
    (∀ past later, as = past ++ later → ∀ t, exec step s past = some t → Q t) ↔ Along step R s as := by
  induction as generalizing s with
  | nil =>
    refine ⟨fun _ => trivial, fun _ past later heq t ht => ?_⟩
    obtain ⟨rfl, rfl⟩ := List.append_eq_nil_iff.mp heq.symm
    cases ht
    exact hq
  | cons a as ih =>
    constructor
    · intro h t ht
      obtain ⟨hinv, hiff⟩ := hstep s a t hs hq ht
      have hqt := h [a] as rfl t (exec_cons_eq_some.mpr ⟨t, ht, rfl⟩)
      refine ⟨hiff.mp hqt, (ih t hinv hqt).mp fun past later heq u hu => ?_⟩
      exact h (a :: past) later (by rw [heq]; rfl) u (exec_cons_eq_some.mpr ⟨t, ht, hu⟩)
    · intro h past later heq u hu
      cases past with
      | nil =>
        cases hu
        exact hq
      | cons b past =>
        obtain ⟨rfl, rfl⟩ := List.cons_eq_cons.mp heq
        obtain ⟨t, ht, hu⟩ := exec_cons_eq_some.mp hu
        obtain ⟨hr, has⟩ := h t ht
        obtain ⟨hinv, hiff⟩ := hstep s a t hs hq ht
        exact (ih t hinv (hiff.mpr hr)).mpr has past later rfl u hu

end LabelledRun
