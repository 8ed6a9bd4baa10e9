import FMITerminalBlock.Network.Transmission

/-! The decoder on a stream of arbitrary values. Two runs over the same stream differ in the time
stamps of their events at most, however the stream is cut. -/
namespace FMITerminalBlock.Network
open Base Timing ASN1Commons

/-! ### Forgetting the time stamps -/

def Surroundings.untimed (env : Surroundings) : Surroundings := { env with getTimeStampNow := fun _ => 0 }

def PartialEvent.untimed (ev : PartialEvent) : PartialEvent := { ev with time := 0 }

theorem PartialEvent.accept_untimed (env : Surroundings) (ev : PartialEvent) (value : Received) :
    (ev.accept env value).untimed = ev.untimed.accept env.untimed value := by
  have hconvert : env.untimed.convert ev.untimed.getNextPortType value = env.convert ev.getNextPortType value := rfl
  rw [accept, accept, hconvert]
  cases env.convert ev.getNextPortType value with
  | none => rfl
  | some converted => rfl

namespace CompactASN1Subscriber

/-- The subscriber without the time stamps of its events. -/
def untimed (s : CompactASN1Subscriber) : CompactASN1Subscriber :=
  { s with
    partialData := s.partialData.map PartialEvent.untimed
    pushed := s.pushed.map fun pushed => { pushed with event := pushed.event.untimed } }

theorem startEvent_untimed (env : Surroundings) (s : CompactASN1Subscriber) :
    (s.startEvent env).untimed = s.untimed.startEvent env.untimed := by
  obtain ⟨portIDs, partialData, _⟩ := s
  cases partialData with
  | none => rfl
  | some ev => rfl

theorem pushPartialEvent_untimed (s : CompactASN1Subscriber) :
    s.pushPartialEvent.untimed = s.untimed.pushPartialEvent := by
  obtain ⟨portIDs, partialData, remainingRawData, pushed, _⟩ := s
  cases partialData with
  | none => rfl
  | some ev => simp [pushPartialEvent, untimed]

theorem absorbBlock_untimed (env : Surroundings) (s : CompactASN1Subscriber) (block : List UInt8 × Received) :
    (s.absorbBlock env block).untimed = s.untimed.absorbBlock env.untimed block := by
  obtain ⟨ev, hev, -⟩ := startEvent_spec env (s.withData block.1)
  have hstart : (s.untimed.withData block.1).startEvent env.untimed =
      ((s.withData block.1).startEvent env).untimed := (startEvent_untimed env (s.withData block.1)).symm
  have hev' : ((s.untimed.withData block.1).startEvent env.untimed).partialData = some ev.untimed := by
    rw [hstart, untimed, hev]
    rfl
  have hprogress (next : PartialEvent) : (((s.withData block.1).startEvent env).progress next []).untimed =
      ((s.untimed.withData block.1).startEvent env.untimed).progress next.untimed [] := by
    rw [hstart]
    rfl
  have hopen : (ev.untimed.accept env.untimed block.2).hasRemainingElements =
      (ev.accept env block.2).hasRemainingElements := by
    rw [← PartialEvent.accept_untimed]
    rfl
  rw [absorbBlock, absorbBlock, absorb_of_some hev, absorb_of_some hev', hopen,
    ← PartialEvent.accept_untimed, ← hprogress]
  split
  · rfl
  · exact pushPartialEvent_untimed _

theorem foldl_absorbBlock_untimed (env : Surroundings) (blocks : List (List UInt8 × Received))
    (s : CompactASN1Subscriber) :
    (blocks.foldl (absorbBlock env) s).untimed = blocks.foldl (absorbBlock env.untimed) s.untimed := by
  induction blocks generalizing s with
  | nil => rfl
  | cons block blocks ih => rw [List.foldl_cons, ih, absorbBlock_untimed, List.foldl_cons]

theorem hold_untimed (env : Surroundings) (s : CompactASN1Subscriber) (tail : List UInt8) :
    (s.hold env tail).untimed = s.untimed.hold env.untimed tail := by
  rw [hold, hold]
  split
  · rfl
  · rw [← startEvent_untimed]
    rfl

/-! ### Any two ways of cutting -/

/-- The variables of the pushed events, the buffered bytes, and how far the event under construction
has been filled with which variables. -/
def content (s : CompactASN1Subscriber) : List (List Variable) × List UInt8 × Option (List Variable × Nat) :=
  (s.pushed.map fun pushed => pushed.event.var, s.remainingRawData,
    s.partialData.map fun ev => (ev.var, ev.nextTemplateIndex))

theorem content_untimed (s : CompactASN1Subscriber) : s.untimed.content = s.content := by
  simp only [content, untimed, List.map_map, Option.map_map]
  rfl

theorem beginning_of_properBeginning {last : List UInt8} (h : ProperBeginning last) :
    ∃ future : List (List UInt8 × Received), (∀ block ∈ future, Framed block.1 block.2) ∧
      Segmentation.Beginning Prod.fst future last := by
  obtain ⟨back, hvalue, hback⟩ := h
  by_cases hlast : last = []
  · exact ⟨[], List.forall_mem_nil _, .inl hlast⟩
  · obtain ⟨value, hframed⟩ := hvalue.exists_framed
    exact ⟨[(last ++ back, value)], List.forall_mem_singleton.mpr hframed,
      .inr ⟨_, [], back, rfl, rfl, hlast, hback⟩⟩

/-- The result of decoding complete values and a proper beginning of one more does not depend on how
the bytes are cut, nor on the clock. -/
theorem decoding_independent_of_cutting {settings : TransmissionChannel} {s : CompactASN1Subscriber}
    (hinit : init { portIDs := [] } settings = .ok s)
    (convert : (type : FMIVariableType) → Received → Option (Carrier type)) (clock clock' : Nat → ℚ)
    {values : List (List UInt8)} {last : List UInt8} (hvalues : ∀ bytes ∈ values, WireValue bytes)
    (hlast : ProperBeginning last) {chunks chunks' : List (List UInt8)}
    (hchunks : chunks.flatten = values.flatten ++ last) (hchunks' : chunks'.flatten = values.flatten ++ last) :
    ∃ r r', commitAll ⟨convert, clock⟩ s chunks = some r ∧ commitAll ⟨convert, clock'⟩ s chunks' = some r' ∧
      r.content = r'.content := by
  obtain ⟨rfl, hready⟩ := init_eq hinit
  obtain ⟨blocks, hblocks, hframed⟩ := exists_blocks hvalues
  obtain ⟨future, hfuture, hbeginning⟩ := beginning_of_properBeginning hlast
  have hall : ∀ block ∈ blocks ++ future, Framed block.1 block.2 := List.forall_mem_append.mpr ⟨hframed, hfuture⟩
  rw [← hblocks] at hchunks hchunks'
  -- Without the time stamps every run is the run with a clock that stands still.
  have hcontent (time : Nat → ℚ) (start : CompactASN1Subscriber) :
      ((blocks.foldl (absorbBlock ⟨convert, time⟩) start).hold ⟨convert, time⟩ last).content =
        ((blocks.foldl (absorbBlock ⟨convert, fun _ => 0⟩) start.untimed).hold ⟨convert, fun _ => 0⟩ last).content := by
    rw [← content_untimed, hold_untimed, foldl_absorbBlock_untimed]
    rfl
  refine ⟨_, _, commitAll_beginning _ hready rfl hall hbeginning hchunks,
    commitAll_beginning _ hready rfl hall hbeginning hchunks', ?_⟩
  exact (hcontent clock _).trans (hcontent clock' _).symm

/-- Two truth values with a number between them that no port takes, and the beginning of a text. -/
theorem decoding_independent_of_cutting_mixed :
    ∃ r r', commitAll ⟨Surroundings.exact.convert, fun _ => 0⟩ { portIDs := pairChannel.portIDs }
        [[0x41], [0x44, 0, 0], [], [0, 5, 0x40], [0x50, 0]] = some r ∧
      commitAll ⟨Surroundings.exact.convert, fun n => n⟩ { portIDs := pairChannel.portIDs }
        [[0x41, 0x44, 0, 0, 0, 5, 0x40, 0x50, 0]] = some r' ∧
      r.content = r'.content := by
  have hvalues : ∀ bytes ∈ ([[0x41], [0x44, 0, 0, 0, 5], [0x40]] : List (List UInt8)), WireValue bytes :=
    List.forall_mem_cons.mpr ⟨.bool1, List.forall_mem_cons.mpr ⟨.dint rfl, List.forall_mem_singleton.mpr .bool0⟩⟩
  have htext : WireValue ([0x50, 0] ++ [1, 0x61]) := @WireValue.string [0, 1] [0x61] rfl rfl
  have hlast : ProperBeginning [0x50, 0] := ⟨[1, 0x61], htext, List.cons_ne_nil _ _⟩
  have hinit : init { portIDs := [] } pairChannel = .ok { portIDs := pairChannel.portIDs } := rfl
  exact decoding_independent_of_cutting hinit _ _ _ hvalues hlast rfl rfl

end CompactASN1Subscriber
end FMITerminalBlock.Network
