import Mathlib.Data.List.Basic

/-! A loop that executes posted handlers in their order. Once stopped, it returns at once whenever it
is run, and what is still posted stays. -/
namespace EventLoop
variable {η σ : Type*}

structure Loop (η : Type*) where
  stopped : Bool := false
  posted : List η := []
  deriving DecidableEq

def Loop.post (loop : Loop η) (handler : η) : Loop η := { loop with posted := loop.posted ++ [handler] }

/-- Executes handlers until one of them stops the loop or there are no more. -/
def drain (perform : η → σ → Bool × σ) : List η → σ → Loop η × σ
  | [], s => ({}, s)
  | handler :: handlers, s =>
    match perform handler s with
    | (true, s) => ({ stopped := true, posted := handlers }, s)
    | (false, s) => drain perform handlers s

def Loop.run (perform : η → σ → Bool × σ) (loop : Loop η) (s : σ) : Loop η × σ :=
  if loop.stopped then (loop, s) else drain perform loop.posted s

/-- A handler that stops leaves the loop stopped. -/
theorem drain_stopped {perform : η → σ → Bool × σ} {handlers : List η} {handler : η} (hmem : handler ∈ handlers)
    (hstops : ∀ s, (perform handler s).1 = true) (s : σ) : (drain perform handlers s).1.stopped = true := by
  induction handlers generalizing s with
  | nil => cases hmem
  | cons first handlers ih =>
    rw [drain]
    split
    · rfl
    · rename_i next hnext
      rcases List.mem_cons.mp hmem with rfl | hmem
      · have hstop := hstops s
        rw [hnext] at hstop
        cases hstop
      · exact ih hmem next

/-- So does running a loop that holds such a handler, or one that was stopped before. -/
theorem Loop.run_stopped {perform : η → σ → Bool × σ} {loop : Loop η}
    (h : loop.stopped = true ∨ ∃ handler ∈ loop.posted, ∀ s, (perform handler s).1 = true) (s : σ) :
    (loop.run perform s).1.stopped = true := by
  rw [run]
  split
  · assumption
  · rename_i hrunning
    obtain ⟨handler, hmem, hstops⟩ := h.resolve_left hrunning
    exact drain_stopped hmem hstops s

/-- What every handler keeps, a run keeps. -/
theorem Loop.run_invariant {perform : η → σ → Bool × σ} (Inv : σ → Prop)
    (hperform : ∀ handler s, Inv s → Inv (perform handler s).2) (loop : Loop η) {s : σ} (hs : Inv s) :
    Inv (loop.run perform s).2 := by
  have hdrain (handlers : List η) : ∀ s, Inv s → Inv (drain perform handlers s).2 := by
    induction handlers with
    | nil => exact fun s hs => hs
    | cons handler handlers ih =>
      intro s hs
      have hnext := hperform handler s hs
      rw [drain]
      split
      · rename_i next heq
        rw [heq] at hnext
        exact hnext
      · rename_i next heq
        rw [heq] at hnext
        exact ih next hnext
  rw [run]
  split
  · exact hs
  · exact hdrain _ s hs

end EventLoop
