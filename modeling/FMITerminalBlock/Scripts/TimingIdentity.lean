import FMITerminalBlock.Library.Fallible
import FMITerminalBlock.Scripts.TimingReader
import FMITerminalBlock.Timing.EventLedger

/-! The reader of timing files knows an event by its simulation time only. It simulates a reader that
can tell all events apart, but gives up those that have shared their time. -/
namespace FMITerminalBlock.Scripts
namespace TimingReader
open Timing

/-- An event that is registered and not yet finished, under the address of its object. -/
structure Tracked where
  address : Nat
  entry : TimingEntry
  clashed : Bool

/-- The events with one simulation time. -/
def group (opened : List Tracked) (tSim : ℚ) : List Tracked := opened.filter (·.entry.simulationTime = tSim)

/-- A new event clashes with all events of its time. -/
def register (opened : List Tracked) (address : Nat) (entry : TimingEntry) : List Tracked :=
  opened.map (fun o => if o.entry.simulationTime = entry.simulationTime then { o with clashed := true } else o) ++
    [⟨address, entry, !(group opened entry.simulationTime).isEmpty⟩]

def change (opened : List Tracked) (address : Nat) (f : TimingEntry → TimingEntry) : List Tracked :=
  opened.map fun o => if o.address = address then { o with entry := f o.entry } else o

def close (opened : List Tracked) (address : Nat) : List Tracked := opened.filter (·.address ≠ address)

/-- An event without a clash is open; the others of a time are only counted. -/
def SimulatesAt (opened : List Tracked) (r : TimingReader) (tSim : ℚ) : Prop :=
  (∃ o, group opened tSim = [o] ∧ o.clashed = false ∧ r.openEvents tSim = some o.entry ∧ r.duplicates tSim = none) ∨
  ((∀ o ∈ group opened tSim, o.clashed = true) ∧ r.openEvents tSim = none ∧
    r.duplicates tSim = if (group opened tSim).length = 0 then none else some (group opened tSim).length)

def Simulates (opened : List Tracked) (r : TimingReader) : Prop := ∀ tSim, SimulatesAt opened r tSim

theorem simulates_nil : Simulates [] {} := fun _ => .inr ⟨nofun, rfl, rfl⟩

variable {opened : List Tracked} {r : TimingReader} {o : Tracked}

theorem mem_group {tSim : ℚ} : o ∈ group opened tSim ↔ o ∈ opened ∧ o.entry.simulationTime = tSim := by
  simp [group]

/-- Which of the two cases holds is up to the event. -/
theorem Simulates.cases (h : Simulates opened r) (ho : o ∈ opened) :
    (o.clashed = false ∧ group opened o.entry.simulationTime = [o] ∧
      r.openEvents o.entry.simulationTime = some o.entry ∧ r.duplicates o.entry.simulationTime = none) ∨
    (o.clashed = true ∧ (∀ x ∈ group opened o.entry.simulationTime, x.clashed = true) ∧
      r.openEvents o.entry.simulationTime = none ∧
      r.duplicates o.entry.simulationTime = some (group opened o.entry.simulationTime).length) := by
  have hmem : o ∈ group opened o.entry.simulationTime := mem_group.mpr ⟨ho, rfl⟩
  rcases h o.entry.simulationTime with ⟨x, hgroup, hclashed, hopen, hdup⟩ | ⟨hall, hopen, hdup⟩
  · rw [hgroup, List.mem_singleton] at hmem
    subst hmem
    exact .inl ⟨hclashed, hgroup, hopen, hdup⟩
  · have hlength : (group opened o.entry.simulationTime).length ≠ 0 := (List.length_pos_of_mem hmem).ne'
    rw [if_neg hlength] at hdup
    exact .inr ⟨hall o hmem, hall, hopen, hdup⟩

private theorem filter_map_of_unchanged {α : Type} {l : List α} {f : α → α} {p : α → Bool}
    (hp : ∀ x ∈ l, p (f x) = p x) (hf : ∀ x ∈ l, p x = true → f x = x) : (l.map f).filter p = l.filter p := by
  induction l with
  | nil => rfl
  | cons x l ih =>
    have hrest := ih (fun y hy => hp y (List.mem_cons_of_mem _ hy)) fun y hy => hf y (List.mem_cons_of_mem _ hy)
    rw [List.map_cons, List.filter_cons, List.filter_cons, hp x List.mem_cons_self, hrest]
    split
    · rename_i hx
      rw [hf x List.mem_cons_self hx]
    · rfl

/-! ### Registration -/

theorem group_register_self (opened : List Tracked) (address : Nat) (entry : TimingEntry) :
    group (register opened address entry) entry.simulationTime =
      (group opened entry.simulationTime).map ({ · with clashed := true }) ++
        [⟨address, entry, !(group opened entry.simulationTime).isEmpty⟩] := by
  rw [register]
  generalize (!(group opened entry.simulationTime).isEmpty) = clashed
  induction opened with
  | nil => simp [group]
  | cons x opened ih =>
    by_cases hx : x.entry.simulationTime = entry.simulationTime
    · simp only [group, List.map_cons, hx, if_true, List.cons_append, List.filter_cons, decide_true] at ih ⊢
      rw [ih]
    · simp only [group, List.map_cons, hx, if_false, List.cons_append, List.filter_cons, decide_false,
        Bool.false_eq_true] at ih ⊢
      exact ih

theorem group_register_of_ne (opened : List Tracked) (address : Nat) (entry : TimingEntry) {tSim : ℚ}
    (h : tSim ≠ entry.simulationTime) :
    group (register opened address entry) tSim = group opened tSim := by
  rw [register, group, List.filter_append, filter_map_of_unchanged]
  · simp [group, h.symm]
  · intro x _
    split
    · rfl
    · rfl
  · intro x _ hx
    rw [if_neg]
    rw [of_decide_eq_true hx]
    exact h

theorem map_address_register (opened : List Tracked) (address : Nat) (entry : TimingEntry) :
    (register opened address entry).map (·.address) = opened.map (·.address) ++ [address] := by
  rw [register, List.map_append, List.map_map]
  congr 1
  apply List.map_congr_left
  intro x _
  dsimp only [Function.comp]
  split
  · rfl
  · rfl

/-- The new event comes to the old ones, which may clash with it. -/
theorem mem_register {address : Nat} {entry : TimingEntry} (h : o ∈ register opened address entry) :
    (∃ x ∈ opened, o.address = x.address ∧ o.entry = x.entry ∧
      (o.clashed = true → x.clashed = true ∨ x.entry.simulationTime = entry.simulationTime)) ∨
    o = ⟨address, entry, !(group opened entry.simulationTime).isEmpty⟩ := by
  rcases List.mem_append.mp h with h | h
  · obtain ⟨x, hx, rfl⟩ := List.mem_map.mp h
    refine .inl ⟨x, hx, ?_⟩
    split
    · rename_i htime
      exact ⟨rfl, rfl, fun _ => .inr htime⟩
    · exact ⟨rfl, rfl, .inl⟩
  · exact .inr (List.mem_singleton.mp h)

theorem exists_mem_register (ho : o ∈ opened) (address : Nat) (entry : TimingEntry) :
    ∃ o' ∈ register opened address entry, o'.address = o.address ∧ o'.entry = o.entry := by
  refine ⟨_, List.mem_append_left _ (List.mem_map_of_mem ho), ?_⟩
  split
  · exact ⟨rfl, rfl⟩
  · exact ⟨rfl, rfl⟩

/-- The events of one time do not see what happens at other times. -/
theorem Simulates.of_frame {opened' : List Tracked} {r' : TimingReader} (h : Simulates opened r) (tSim : ℚ)
    (hgroup : ∀ t ≠ tSim, group opened' t = group opened t) (hopen : ∀ t ≠ tSim, r'.openEvents t = r.openEvents t)
    (hdup : ∀ t ≠ tSim, r'.duplicates t = r.duplicates t) (hself : SimulatesAt opened' r' tSim) :
    Simulates opened' r' := by
  intro t
  by_cases ht : t = tSim
  · exact ht ▸ hself
  · have hold := h t
    rw [SimulatesAt] at hold ⊢
    rw [hgroup t ht, hopen t ht, hdup t ht]
    exact hold

/-- A new event leads to a duplicate or to a new entry. -/
theorem addNewEvent_register (h : Simulates opened r) (address : Nat) (tSim tReal : ℚ) (predicted : Bool) :
    ∃ r', r.addNewEvent false tSim tReal predicted = .ok r' ∧
      Simulates (register opened address ⟨tSim, tReal, predicted, false, none, none⟩) r' := by
  have hgroup := group_register_self opened address ⟨tSim, tReal, predicted, false, none, none⟩
  have hframe (t : ℚ) (ht : t ≠ tSim) :=
    group_register_of_ne opened address ⟨tSim, tReal, predicted, false, none, none⟩ ht
  dsimp only at hgroup
  rcases h tSim with ⟨o, ho, -, hopen, hdup⟩ | ⟨hall, hopen, hdup⟩
  · -- The event that was open is given up together with the new one.
    have hadd : r.addNewEvent false tSim tReal predicted = .ok {
        openEvents := Function.update r.openEvents tSim none
        duplicates := Function.update r.duplicates tSim (some 2) } := by
      rw [addNewEvent, hopen]
      rfl
    rw [ho] at hgroup
    refine ⟨_, hadd, h.of_frame tSim hframe ?_ ?_ (.inr ⟨?_, ?_, ?_⟩)⟩
    · exact fun t ht => Function.update_of_ne ht _ _
    · exact fun t ht => Function.update_of_ne ht _ _
    · rw [hgroup]
      simp
    · exact Function.update_self _ _ _
    · rw [hgroup]
      exact Function.update_self _ _ _
  · by_cases hnone : (group opened tSim).length = 0
    · rw [if_pos hnone] at hdup
      rw [List.length_eq_zero_iff.mp hnone] at hgroup
      have hadd : r.addNewEvent false tSim tReal predicted = .ok { r with
          openEvents := Function.update r.openEvents tSim (some ⟨tSim, tReal, predicted, false, none, none⟩) } := by
        rw [addNewEvent, hopen, hdup]
        rfl
      refine ⟨_, hadd, h.of_frame tSim hframe ?_ (fun _ _ => rfl) (.inl ⟨_, hgroup, rfl, ?_, hdup⟩)⟩
      · exact fun t ht => Function.update_of_ne ht _ _
      · exact Function.update_self _ _ _
    · rw [if_neg hnone] at hdup
      have hadd : r.addNewEvent false tSim tReal predicted = .ok { r with
          duplicates := Function.update r.duplicates tSim (some ((group opened tSim).length + 1)) } := by
        rw [addNewEvent, hopen, hdup]
        rfl
      refine ⟨_, hadd, h.of_frame tSim hframe (fun _ _ => rfl) ?_ (.inr ⟨?_, hopen, ?_⟩)⟩
      · exact fun t ht => Function.update_of_ne ht _ _
      · rw [hgroup]
        intro o ho
        rcases List.mem_append.mp ho with ho | ho
        · obtain ⟨x, -, rfl⟩ := List.mem_map.mp ho
          rfl
        · rw [List.mem_singleton.mp ho]
          simpa using fun hnil => hnone (by rw [hnil]; rfl)
      · rw [hgroup]
        simp

/-! ### Later records -/

theorem update_openEvents_self (r : TimingReader) (tSim : ℚ) (f : TimingEntry → TimingEntry) :
    (r.update tSim f).openEvents tSim = (r.openEvents tSim).map f := Function.update_self _ _ _

theorem mem_change {address : Nat} {f : TimingEntry → TimingEntry} (h : o ∈ change opened address f) :
    ∃ x ∈ opened, o.address = x.address ∧ o.clashed = x.clashed ∧
      o.entry = if x.address = address then f x.entry else x.entry := by
  obtain ⟨x, hx, rfl⟩ := List.mem_map.mp h
  refine ⟨x, hx, ?_⟩
  split
  · exact ⟨rfl, rfl, rfl⟩
  · exact ⟨rfl, rfl, rfl⟩

theorem mem_change_of_ne (ho : o ∈ opened) {address : Nat} (h : o.address ≠ address) (f : TimingEntry → TimingEntry) :
    o ∈ change opened address f := List.mem_map.mpr ⟨o, ho, if_neg h⟩

theorem mem_close {address : Nat} : o ∈ close opened address ↔ o ∈ opened ∧ o.address ≠ address := by
  simp [close]

theorem map_address_change (opened : List Tracked) (address : Nat) (f : TimingEntry → TimingEntry) :
    (change opened address f).map (·.address) = opened.map (·.address) := by
  rw [change, List.map_map]
  apply List.map_congr_left
  intro x _
  dsimp only [Function.comp]
  split
  · rfl
  · rfl

/-- A change of an event that is closed does not show. -/
theorem close_change (opened : List Tracked) (address : Nat) (f : TimingEntry → TimingEntry) :
    close (change opened address f) address = close opened address := by
  rw [close, change, filter_map_of_unchanged]
  · rfl
  · intro x _
    split
    · rfl
    · rfl
  · intro x _ hx
    rw [if_neg (of_decide_eq_true hx)]

theorem group_change (opened : List Tracked) (address : Nat) (tSim : ℚ) {f : TimingEntry → TimingEntry}
    (hf : ∀ entry, (f entry).simulationTime = entry.simulationTime) :
    group (change opened address f) tSim = change (group opened tSim) address f := by
  rw [change, group, List.filter_map, change, group]
  congr 1
  apply List.filter_congr
  intro x _
  dsimp only [Function.comp]
  split
  · rw [hf]
  · rfl

section Later
variable (hnodup : (opened.map (·.address)).Nodup) (ho : o ∈ opened)
include hnodup ho

theorem eq_of_address {x : Tracked} (hx : x ∈ opened) (h : x.address = o.address) : x = o :=
  List.inj_on_of_nodup_map hnodup hx ho h

theorem group_change_of_ne (f : TimingEntry → TimingEntry)
    (hf : ∀ entry, (f entry).simulationTime = entry.simulationTime) {tSim : ℚ} (h : tSim ≠ o.entry.simulationTime) :
    group (change opened o.address f) tSim = group opened tSim := by
  rw [change, group, filter_map_of_unchanged]
  · rfl
  · intro x _
    split
    · rw [hf]
    · rfl
  · intro x hx hgroup
    rw [if_neg]
    intro haddress
    rw [eq_of_address hnodup ho hx haddress] at hgroup
    exact h (of_decide_eq_true hgroup).symm

theorem group_close_of_ne {tSim : ℚ} (h : tSim ≠ o.entry.simulationTime) :
    group (close opened o.address) tSim = group opened tSim := by
  rw [close, group, List.filter_filter, group]
  apply List.filter_congr
  intro x hx
  by_cases hgroup : x.entry.simulationTime = tSim
  · have haddress : x.address ≠ o.address := by
      intro haddress
      rw [eq_of_address hnodup ho hx haddress] at hgroup
      exact h hgroup.symm
    simp [haddress]
  · simp [hgroup]

/-- A change of an open event is a change of its entry. -/
theorem simulates_change (h : Simulates opened r) (f : TimingEntry → TimingEntry)
    (hf : ∀ entry, (f entry).simulationTime = entry.simulationTime) :
    Simulates (change opened o.address f) (r.update o.entry.simulationTime f) := by
  have hgroup := group_change opened o.address o.entry.simulationTime hf
  apply h.of_frame o.entry.simulationTime
  · exact fun t ht => group_change_of_ne hnodup ho f hf ht
  · exact fun t ht => Function.update_of_ne ht _ _
  · exact fun _ _ => rfl
  · rcases h.cases ho with ⟨hclashed, hone, hopen, hdup⟩ | ⟨-, hall, hopen, hdup⟩
    · refine .inl ⟨{ o with entry := f o.entry }, ?_, hclashed, ?_, hdup⟩
      · rw [hgroup, hone, change, List.map_singleton, if_pos rfl]
      · rw [update_openEvents_self, hopen, Option.map_some]
    · have hlength : (group (change opened o.address f) o.entry.simulationTime).length =
          (group opened o.entry.simulationTime).length := by rw [hgroup, change, List.length_map]
      refine .inr ⟨?_, ?_, ?_⟩
      · rw [hgroup, change, List.forall_mem_map]
        intro x hx
        split
        · exact hall x hx
        · exact hall x hx
      · rw [update_openEvents_self, hopen, Option.map_none]
      · rw [hlength, if_neg (List.length_pos_of_mem (mem_group.mpr ⟨ho, rfl⟩)).ne']
        exact hdup

theorem length_group_close :
    (group (close opened o.address) o.entry.simulationTime).length =
      (group opened o.entry.simulationTime).length - 1 := by
  have hsub : ((group opened o.entry.simulationTime).map (·.address)).Nodup :=
    hnodup.sublist (List.filter_sublist.map _)
  have hmem : o.address ∈ (group opened o.entry.simulationTime).map (·.address) :=
    List.mem_map_of_mem (mem_group.mpr ⟨ho, rfl⟩)
  have hclose : (group (close opened o.address) o.entry.simulationTime).map (·.address) =
      ((group opened o.entry.simulationTime).map (·.address)).erase o.address := by
    rw [hsub.erase_eq_filter, List.filter_map, group, close, List.filter_filter, group, List.filter_filter]
    congr 1
    apply List.filter_congr
    intro x _
    by_cases haddress : x.address = o.address <;> simp [haddress]
  have hlength := congrArg List.length hclose
  rwa [List.length_map, List.length_erase_of_mem hmem, List.length_map] at hlength

/-- A finished event is yielded unless it has clashed. -/
theorem finalizeEvent_close (h : Simulates opened r) :
    ∃ r', r.finalizeEvent o.entry.simulationTime = .ok (if o.clashed then none else some o.entry, r') ∧
      Simulates (close opened o.address) r' := by
  have hframe (t : ℚ) (ht : t ≠ o.entry.simulationTime) := group_close_of_ne hnodup ho ht
  have hlength := length_group_close hnodup ho
  rcases h.cases ho with ⟨hclashed, hone, hopen, hdup⟩ | ⟨hclashed, hall, hopen, hdup⟩
  · have hfinal : r.finalizeEvent o.entry.simulationTime = .ok (some o.entry, { r with
        openEvents := Function.update r.openEvents o.entry.simulationTime none }) := by
      rw [finalizeEvent, hopen]
    rw [hone, List.length_singleton] at hlength
    rw [hclashed]
    refine ⟨_, hfinal, h.of_frame _ hframe (fun t ht => Function.update_of_ne ht _ _) (fun _ _ => rfl) (.inr ?_)⟩
    rw [List.length_eq_zero_iff.mp hlength]
    exact ⟨nofun, Function.update_self _ _ _, hdup⟩
  · have hfinal : r.finalizeEvent o.entry.simulationTime = .ok (none, { r with
        duplicates := Function.update r.duplicates o.entry.simulationTime
          (if (group opened o.entry.simulationTime).length - 1 ≤ 0 then none
            else some ((group opened o.entry.simulationTime).length - 1)) }) := by
      rw [finalizeEvent, hopen, hdup]
    rw [hclashed]
    refine ⟨_, hfinal, h.of_frame _ hframe (fun _ _ => rfl) (fun t ht => Function.update_of_ne ht _ _)
      (.inr ⟨?_, hopen, ?_⟩)⟩
    · intro x hx
      obtain ⟨hmem, htime⟩ := mem_group.mp hx
      exact hall x (mem_group.mpr ⟨(List.mem_filter.mp hmem).1, htime⟩)
    · rw [hlength]
      simp only [Function.update_self, Nat.le_zero]

/-! ### The steps of the reader -/

theorem timingStep_begin (h : Simulates opened r) (tReal : ℚ) :
    ∃ r', r.timingStep false ⟨o.entry.simulationTime, tReal, .beginOfDistribution⟩ = .ok (none, r') ∧
      Simulates (change opened o.address (·.setBeginDistributionTime tReal)) r' :=
  ⟨_, rfl, simulates_change hnodup ho h _ fun _ => rfl⟩

theorem timingStep_outdated (h : Simulates opened r) (tReal : ℚ) :
    ∃ r', r.timingStep false ⟨o.entry.simulationTime, tReal, .outdated⟩ =
        .ok (if o.clashed then none else some o.entry, r') ∧
      Simulates (close opened o.address) r' :=
  finalizeEvent_close hnodup ho h

theorem timingStep_end (h : Simulates opened r) (tReal : ℚ) :
    ∃ r', r.timingStep false ⟨o.entry.simulationTime, tReal, .endOfDistribution⟩ =
        .ok (if o.clashed then none else some (o.entry.setEndDistributionTime tReal), r') ∧
      Simulates (close opened o.address) r' := by
  have hchanged := simulates_change hnodup ho h (·.setEndDistributionTime tReal) fun _ => rfl
  have haddresses : (change opened o.address (·.setEndDistributionTime tReal)).map (·.address) =
      opened.map (·.address) := map_address_change ..
  have hmem : { o with entry := o.entry.setEndDistributionTime tReal } ∈
      change opened o.address (·.setEndDistributionTime tReal) :=
    List.mem_map.mpr ⟨o, ho, if_pos rfl⟩
  obtain ⟨r', hfinal, hr'⟩ := finalizeEvent_close (haddresses ▸ hnodup) hmem hchanged
  refine ⟨r', hfinal, ?_⟩
  rwa [close_change] at hr'

end Later

theorem timingStep_register (h : Simulates opened r) (address : Nat) (tSim tReal : ℚ) (predicted : Bool) :
    ∃ r', r.timingStep false ⟨tSim, tReal, EventDispatcher.registration predicted⟩ = .ok (none, r') ∧
      Simulates (register opened address ⟨tSim, tReal, predicted, false, none, none⟩) r' := by
  obtain ⟨r', hadd, hr'⟩ := addNewEvent_register h address tSim tReal predicted
  refine ⟨r', ?_, hr'⟩
  cases predicted with
  | false => exact Fallible.map_eq_ok.mpr ⟨r', hadd, rfl⟩
  | true => exact Fallible.map_eq_ok.mpr ⟨r', hadd, rfl⟩

end TimingReader
end FMITerminalBlock.Scripts
