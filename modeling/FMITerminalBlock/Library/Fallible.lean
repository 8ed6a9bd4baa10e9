import Mathlib.Data.List.Basic
import Mathlib.Data.List.Forall2

/-! Inversion of computations that may end by an exception. -/
namespace Fallible
universe u v
variable {ε : Type u} {α β : Type v}

theorem bind_eq_ok {x : Except ε α} {f : α → Except ε β} {r : β} :
    (x >>= f) = .ok r ↔ ∃ a, x = .ok a ∧ f a = .ok r := by
  cases x with
  | error e => exact ⟨fun h => (nomatch h), fun ⟨_, h, _⟩ => (nomatch h)⟩
  | ok a => exact ⟨fun h => ⟨a, rfl, h⟩, fun ⟨_, h, hf⟩ => by cases h; exact hf⟩

theorem map_eq_ok {x : Except ε α} {f : α → β} {r : β} :
    x.map f = .ok r ↔ ∃ a, x = .ok a ∧ f a = r := by
  cases x with
  | error e => exact ⟨fun h => (nomatch h), fun ⟨_, h, _⟩ => (nomatch h)⟩
  | ok a => simp [Except.map]

theorem mapM_eq_ok {γ : Type u} {f : γ → Except ε α} {l : List γ} {r : List α} :
    l.mapM f = .ok r ↔ List.Forall₂ (fun c a => f c = .ok a) l r := by
  induction l generalizing r with
  | nil =>
    constructor
    · intro h
      cases h
      exact .nil
    · intro h
      cases h
      rfl
  | cons c l ih =>
    rw [List.mapM_cons, bind_eq_ok]
    constructor
    · rintro ⟨a, ha, h⟩
      obtain ⟨as, has, h⟩ := bind_eq_ok.mp h
      cases h
      exact .cons ha (ih.mp has)
    · intro h
      cases h with
      | cons ha has => exact ⟨_, ha, bind_eq_ok.mpr ⟨_, ih.mpr has, rfl⟩⟩

theorem mapM_congr {γ : Type u} {f g : γ → Except ε α} {l : List γ} (h : ∀ c ∈ l, f c = g c) :
    l.mapM f = l.mapM g := by
  induction l with
  | nil => rfl
  | cons c l ih =>
    rw [List.mapM_cons, List.mapM_cons, h c List.mem_cons_self, ih fun d hd => h d (List.mem_cons_of_mem c hd)]

theorem exists_mapM_eq_ok {γ : Type u} {f : γ → Except ε α} {l : List γ} (h : ∀ c ∈ l, ∃ a, f c = .ok a) :
    ∃ r, l.mapM f = .ok r := by
  induction l with
  | nil => exact ⟨[], rfl⟩
  | cons c l ih =>
    obtain ⟨a, ha⟩ := h c List.mem_cons_self
    obtain ⟨r, hr⟩ := ih fun d hd => h d (List.mem_cons_of_mem c hd)
    exact ⟨a :: r, mapM_eq_ok.mpr (.cons ha (mapM_eq_ok.mp hr))⟩

theorem exists_of_mem_right {γ : Type u} {R : γ → α → Prop} {l : List γ} {r : List α} (h : List.Forall₂ R l r)
    {a : α} (ha : a ∈ r) : ∃ c ∈ l, R c a := by
  induction h with
  | nil => cases ha
  | cons hc _ ih =>
    rcases List.mem_cons.mp ha with rfl | ha
    · exact ⟨_, List.mem_cons_self, hc⟩
    · obtain ⟨c, hc, hR⟩ := ih ha
      exact ⟨c, List.mem_cons_of_mem _ hc, hR⟩

theorem exists_of_mem_left {γ : Type u} {R : γ → α → Prop} {l : List γ} {r : List α} (h : List.Forall₂ R l r)
    {c : γ} (hc : c ∈ l) : ∃ a ∈ r, R c a := by
  induction h with
  | nil => cases hc
  | cons ha _ ih =>
    rcases List.mem_cons.mp hc with rfl | hc
    · exact ⟨_, List.mem_cons_self, ha⟩
    · obtain ⟨a, ha, hR⟩ := ih hc
      exact ⟨a, List.mem_cons_of_mem _ ha, hR⟩

theorem mem_of_mapM_eq_ok {γ : Type u} {f : γ → Except ε α} {l : List γ} {r : List α} (h : l.mapM f = .ok r)
    {a : α} (ha : a ∈ r) : ∃ c ∈ l, f c = .ok a :=
  exists_of_mem_right (mapM_eq_ok.mp h) ha

theorem exists_of_mapM_eq_ok {γ : Type u} {f : γ → Except ε α} {l : List γ} {r : List α} (h : l.mapM f = .ok r)
    {c : γ} (hc : c ∈ l) : ∃ a ∈ r, f c = .ok a :=
  exists_of_mem_left (mapM_eq_ok.mp h) hc

theorem eq_ok_get {x : Except ε α} (h : x.toOption.isSome) : x = .ok (x.toOption.get h) := by
  cases x with
  | error e => cases h
  | ok a => rfl

theorem toOption_eq_some {x : Except ε α} {a : α} : x.toOption = some a ↔ x = .ok a := by
  cases x with
  | error e => simp [Except.toOption]
  | ok b => simp [Except.toOption]

/-- The computation ends with a result in `P` or by an exception in `E`. -/
def Outcome (x : Except ε α) (P : α → Prop) (E : ε → Prop) : Prop :=
  match x with
  | .ok a => P a
  | .error e => E e

namespace Outcome
variable {x : Except ε α} {P P' : α → Prop} {E : ε → Prop}

theorem ok {a : α} (h : P a) : Outcome (Except.ok a : Except ε α) P E := h

theorem error {e : ε} (h : E e) : Outcome (Except.error e : Except ε α) P E := h

theorem of_ok (h : Outcome x P E) {a : α} (hx : x = .ok a) : P a := by subst hx; exact h

theorem of_error (h : Outcome x P E) {e : ε} (hx : x = .error e) : E e := by subst hx; exact h

theorem mono (h : Outcome x P E) (hP : ∀ a, P a → P' a) : Outcome x P' E := by
  cases x with
  | ok a => exact hP a h
  | error e => exact h

theorem excuse {E' : ε → Prop} (h : Outcome x P E) (hE : ∀ e, E e → E' e) : Outcome x P E' := by
  cases x with
  | ok a => exact h
  | error e => exact hE e h

theorem bind {f : α → Except ε β} {Q : β → Prop} (h : Outcome x P E)
    (hf : ∀ a, P a → Outcome (f a) Q E) : Outcome (x >>= f) Q E := by
  cases x with
  | ok a => exact hf a h
  | error e => exact h

theorem map {f : α → β} {Q : β → Prop} (h : Outcome x P E) (hf : ∀ a, P a → Q (f a)) :
    Outcome (x.map f) Q E := by
  cases x with
  | ok a => exact hf a h
  | error e => exact h

theorem mapM {γ : Type u} {f : γ → Except ε α} {l : List γ} (h : ∀ c ∈ l, Outcome (f c) (fun _ => True) E) :
    Outcome (l.mapM f) (fun _ => True) E := by
  induction l with
  | nil => trivial
  | cons c l ih =>
    rw [List.mapM_cons]
    apply (h c List.mem_cons_self).bind
    intro a _
    exact (ih fun d hd => h d (List.mem_cons_of_mem c hd)).bind fun _ _ => trivial

/-- The rule for loops. The invariant may speak about the elements already visited. -/
theorem foldlM {γ : Type*} {f : α → γ → Except ε α} (Inv : List γ → α → Prop) {l : List γ} {a : α}
    (hstep : ∀ past b c, Inv past b → c ∈ l → Outcome (f b c) (Inv (past ++ [c])) E) (ha : Inv [] a) :
    Outcome (l.foldlM f a) (Inv l) E := by
  suffices hpast : ∀ past b, Inv past b → Outcome (l.foldlM f b) (Inv (past ++ l)) E from hpast [] a ha
  clear ha
  induction l with
  | nil => intro past b hb; rw [List.append_nil]; exact hb
  | cons c l ih =>
    intro past b hb
    rw [List.foldlM_cons]
    apply (hstep past b c hb List.mem_cons_self).bind
    intro b' hb'
    have hrest := ih (fun past b d hd hmem => hstep past b d hd (List.mem_cons_of_mem c hmem))
      (past ++ [c]) b' hb'
    rwa [List.append_assoc, List.singleton_append] at hrest

end Outcome
end Fallible
