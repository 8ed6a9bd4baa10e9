import Mathlib.Logic.Relation
import Mathlib.Order.Basic

/-! While loops whose body may leave the loop or fail. Nothing bounds the number of turns, so a loop
without an end has no run. -/
namespace WhileLoop
variable {σ ε : Type*}

/-- How the body of a loop ends. -/
inductive Turn (σ ε : Type*) where
  | next (s : σ)
  | leave (s : σ)
  | fail (e : ε)

def Turn.ofExcept : Except ε σ → Turn σ ε
  | .ok s => .next s
  | .error e => .fail e

theorem Turn.next_eq_ofExcept {x : Except ε σ} {s : σ} : Turn.next s = .ofExcept x ↔ x = .ok s := by
  cases x with
  | ok t => simp [ofExcept, eq_comm]
  | error e => simp [ofExcept]

theorem Turn.leave_ne_ofExcept (x : Except ε σ) (s : σ) : Turn.leave s ≠ .ofExcept x := by
  cases x <;> exact fun h => by cases h

/-- The condition is tested before every turn. The body is a relation, because it may contain loops
of its own. -/
structure Loop (σ ε : Type*) where
  condition : σ → Prop
  body : σ → Turn σ ε → Prop

namespace Loop

/-- The finite executions of a loop and their results. -/
inductive Runs (loop : Loop σ ε) : σ → Except ε σ → Prop where
  | done {s} : ¬loop.condition s → Runs loop s (.ok s)
  | leave {s t} : loop.condition s → loop.body s (.leave t) → Runs loop s (.ok t)
  | fail {s e} : loop.condition s → loop.body s (.fail e) → Runs loop s (.error e)
  | next {s t r} : loop.condition s → loop.body s (.next t) → Runs loop t r → Runs loop s r

/-- The states before the turns of an execution. -/
def Visits (loop : Loop σ ε) : σ → σ → Prop :=
  Relation.ReflTransGen fun s t => loop.condition s ∧ loop.body s (.next t)

variable {loop : Loop σ ε}

/-- A deterministic body leaves room for one run only. -/
theorem Runs.unique (hbody : ∀ s o o', loop.body s o → loop.body s o' → o = o') {s : σ} {r r' : Except ε σ}
    (h : loop.Runs s r) (h' : loop.Runs s r') : r = r' := by
  induction h with
  | done hdone =>
    cases h' with
    | done => rfl
    | leave hcond => exact absurd hcond hdone
    | fail hcond => exact absurd hcond hdone
    | next hcond => exact absurd hcond hdone
  | leave hcond hturn =>
    cases h' with
    | done hdone => exact absurd hcond hdone
    | leave _ hturn' =>
      cases hbody _ _ _ hturn hturn'
      rfl
    | fail _ hturn' => cases hbody _ _ _ hturn hturn'
    | next _ hturn' => cases hbody _ _ _ hturn hturn'
  | fail hcond hturn =>
    cases h' with
    | done hdone => exact absurd hcond hdone
    | leave _ hturn' => cases hbody _ _ _ hturn hturn'
    | fail _ hturn' =>
      cases hbody _ _ _ hturn hturn'
      rfl
    | next _ hturn' => cases hbody _ _ _ hturn hturn'
  | next hcond hturn _ ih =>
    cases h' with
    | done hdone => exact absurd hcond hdone
    | leave _ hturn' => cases hbody _ _ _ hturn hturn'
    | fail _ hturn' => cases hbody _ _ _ hturn hturn'
    | next _ hturn' hrest =>
      cases hbody _ _ _ hturn hturn'
      exact ih hrest

/-- What a turn from an invariant state has to do for a loop to end without a failure: it leaves the loop
with the postcondition, or it keeps the invariant and either gets smaller or is the last one. -/
inductive Proceeds (loop : Loop σ ε) (Inv Post : σ → Prop) (size : σ → Nat) (s : σ) : Turn σ ε → Prop where
  | leave {t} : Post t → Proceeds loop Inv Post size s (.leave t)
  | next {t} : Inv t → size t < size s ∨ ¬loop.condition t → Proceeds loop Inv Post size s (.next t)

/-- The loop ends, because the size cannot decrease forever. -/
theorem exists_run (loop : Loop σ ε) (Inv Post : σ → Prop) (size : σ → Nat)
    (hdone : ∀ s, Inv s → ¬loop.condition s → Post s)
    (hturn : ∀ s, Inv s → loop.condition s → ∃ o, loop.body s o ∧ loop.Proceeds Inv Post size s o)
    (s : σ) (hs : Inv s) : ∃ t, loop.Runs s (.ok t) ∧ Post t := by
  induction hsize : size s using Nat.strongRecOn generalizing s with
  | ind n ih =>
    subst hsize
    by_cases hcond : loop.condition s
    · obtain ⟨o, hbody, hproceeds⟩ := hturn s hs hcond
      cases hproceeds with
      | leave hpost => exact ⟨_, .leave hcond hbody, hpost⟩
      | @next t hinv hprogress =>
        rcases hprogress with hless | hlast
        · obtain ⟨r, hr, hpost⟩ := ih (size t) hless t hinv rfl
          exact ⟨r, .next hcond hbody hr, hpost⟩
        · exact ⟨t, .next hcond hbody (.done hlast), hdone t hinv hlast⟩
    · exact ⟨s, .done hcond, hdone s hs hcond⟩

/-- The invariant holds before every turn. -/
theorem Visits.invariant (Inv : σ → Prop)
    (hturn : ∀ s t, Inv s → loop.condition s → loop.body s (.next t) → Inv t) {s t : σ} (hs : Inv s)
    (h : loop.Visits s t) : Inv t := by
  induction h with
  | refl => exact hs
  | tail _ hstep ih => exact hturn _ _ ih hstep.1 hstep.2

end Loop
end WhileLoop
