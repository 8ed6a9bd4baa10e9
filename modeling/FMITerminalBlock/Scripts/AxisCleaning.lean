import FMITerminalBlock.Library.Trimming
import FMITerminalBlock.Scripts.TimingAxes
import Mathlib.Algebra.Order.Floor.Semiring

/-! Axes without their outliers: a share of the lowest and of the highest delays is removed, once or
several times. -/
namespace FMITerminalBlock.Scripts
open Trimming

/-! ### The axes and their cleaning -/

/-- A time series of delays. -/
class AbstractAxis (Axis : Type) where
  getDelay : Axis → List (Option ℚ)
  getSimulationTimeData : Axis → List ℚ
  getCleanedAxis : Axis → List Nat → Axis

instance : AbstractAxis TimingAxis where
  getDelay := TimingAxis.getDelay
  getSimulationTimeData := TimingAxis.getSimulationTimeData
  getCleanedAxis axis permittedRowIndices := ⟨pick axis.timing permittedRowIndices⟩

instance : AbstractAxis DelayAxis where
  getDelay axis := axis.delay
  getSimulationTimeData axis := axis.simulationTime
  getCleanedAxis axis permittedRowIndices :=
    ⟨pick axis.simulationTime permittedRowIndices, pick axis.delay permittedRowIndices⟩

/-- The order of the delays. `NaN` is sorted to the end. -/
def SortsBefore : Option ℚ → Option ℚ → Prop
  | _, none => True
  | none, some _ => False
  | some a, some b => a ≤ b

instance : DecidableRel SortsBefore
  | _, none => isTrue trivial
  | none, some _ => isFalse id
  | some a, some b => inferInstanceAs (Decidable (a ≤ b))

instance : Std.Total SortsBefore where
  total a b := by
    cases a with
    | none => exact .inr (by cases b <;> trivial)
    | some a =>
      cases b with
      | none => exact .inl trivial
      | some b => exact le_total a b

instance : IsTrans (Option ℚ) SortsBefore where
  trans a b c hab hbc := by
    cases c with
    | none => cases a <;> trivial
    | some c =>
      cases b with
      | none => exact hbc.elim
      | some b =>
        cases a with
        | none => exact hab.elim
        | some a => exact le_trans hab hbc

instance : Std.Antisymm SortsBefore where
  antisymm a b hab hba := by
    cases a with
    | none =>
      cases b with
      | none => rfl
      | some b => exact hab.elim
    | some a =>
      cases b with
      | none => exact hba.elim
      | some b => exact congrArg some (le_antisymm hab hba)

namespace AbstractAxis
variable {Axis : Type} [AbstractAxis Axis]

def getLength (axis : Axis) : Nat := (getDelay axis).length

/-- The floating-point number `outlier_factor / 2.0 * length`. Rounding is left to the machine: it never
crosses 0 or half the length, which are numbers of the format themselves. -/
structure Share where
  product : ℚ → Nat → ℚ
  nonneg : ∀ outlierFactor length, 0 ≤ outlierFactor → 0 ≤ product outlierFactor length
  le_half : ∀ outlierFactor length, outlierFactor ≤ 1 → product outlierFactor length ≤ length / 2

def numRemoved (share : Share) (outlierFactor : ℚ) (length : Nat) : Nat := ⌊share.product outlierFactor length⌋₊

/-- The call `np.argsort(delay)` is left open: it may put equal delays into any order. -/
def getDelayCleanedAxis (share : Share) (argsort : List (Option ℚ) → List Nat) (axis : Axis) (outlierFactor : ℚ) :
    Except TimingError Axis :=
  if 0 ≤ outlierFactor ∧ outlierFactor ≤ 1 then
    let indOrder := argsort (getDelay axis)
    let removed := numRemoved share outlierFactor (getLength axis)
    let indOrder := (indOrder.take (getLength axis - removed)).drop removed
    let indOrder := indOrder.insertionSort (· ≤ ·)
    .ok (getCleanedAxis axis indOrder)
  else .error .assertionError

/-- There is a simulation time for every delay, as the constructors assert. -/
def Aligned (axis : Axis) : Prop := (getSimulationTimeData axis).length = getLength axis

/-- The rows of an axis: simulation times with their delays. -/
def rows (axis : Axis) : List (ℚ × Option ℚ) := (getSimulationTimeData axis).zip (getDelay axis)

/-- An axis that is aligned shows nothing but its rows. -/
def Represents (axis : Axis) (rows : List (ℚ × Option ℚ)) : Prop :=
  getSimulationTimeData axis = rows.map (·.1) ∧ getDelay axis = rows.map (·.2)

theorem represents_rows {axis : Axis} (h : Aligned axis) : Represents axis (rows axis) := by
  constructor
  · rw [rows, List.map_fst_zip (by rw [h, getLength])]
  · rw [rows, List.map_snd_zip (by rw [h, getLength])]

theorem Represents.aligned {axis : Axis} {items : List (ℚ × Option ℚ)} (h : Represents axis items) : Aligned axis := by
  rw [Aligned, getLength, h.1, h.2, List.length_map, List.length_map]

theorem Represents.rows_eq {axis : Axis} {items : List (ℚ × Option ℚ)} (h : Represents axis items) :
    rows axis = items := by
  rw [rows, h.1, h.2, List.zip_map']
  exact List.map_id _

/-- Cleaning an axis picks whole rows. -/
class LawfulAxis (Axis : Type) [AbstractAxis Axis] : Prop where
  represents_cleaned : ∀ {axis : Axis} {items : List (ℚ × Option ℚ)}, Represents axis items →
    ∀ positions, Represents (getCleanedAxis axis positions) (pick items positions)

instance : LawfulAxis TimingAxis where
  represents_cleaned := by
    intro axis items h positions
    obtain ⟨hsim, hdelay⟩ := h
    constructor
    · rw [← pick_map, ← hsim]
      exact (pick_map _ _ _).symm
    · rw [← pick_map, ← hdelay]
      exact (pick_map _ _ _).symm

instance : LawfulAxis DelayAxis where
  represents_cleaned := by
    intro axis items h positions
    obtain ⟨hsim, hdelay⟩ := h
    constructor
    · rw [← pick_map, ← hsim]
      rfl
    · rw [← pick_map, ← hdelay]
      rfl

/-! ### What is kept -/

theorem two_mul_numRemoved_le (share : Share) {outlierFactor : ℚ} (h : 0 ≤ outlierFactor ∧ outlierFactor ≤ 1)
    (length : Nat) : 2 * numRemoved share outlierFactor length ≤ length := by
  have hfloor : (numRemoved share outlierFactor length : ℚ) ≤ share.product outlierFactor length :=
    Nat.floor_le (share.nonneg outlierFactor length h.1)
  have hhalf := share.le_half outlierFactor length h.2
  have hrat : ((2 * numRemoved share outlierFactor length : Nat) : ℚ) ≤ length := by
    push_cast
    linarith
  exact_mod_cast hrat

/-- The rows removed at each end by several cleanings. -/
def totalRemoved (share : Share) : Nat → List ℚ → Nat
  | _, [] => 0
  | length, outlierFactor :: factors =>
    numRemoved share outlierFactor length +
      totalRemoved share (length - 2 * numRemoved share outlierFactor length) factors

variable {share : Share} {argsort : List (Option ℚ) → List Nat} {axis : Axis}

/-- One cleaning. -/
theorem getDelayCleanedAxis_trimmed [LawfulAxis Axis] (hsort : ∀ delays, Sorts SortsBefore delays (argsort delays))
    (haxis : Aligned axis) {outlierFactor : ℚ} (hfactor : 0 ≤ outlierFactor ∧ outlierFactor ≤ 1) :
    ∃ cleaned, getDelayCleanedAxis share argsort axis outlierFactor = .ok cleaned ∧ Aligned cleaned ∧
      Trimmed (fun a b => SortsBefore a.2 b.2) (numRemoved share outlierFactor (getLength axis)) (rows axis)
        (rows cleaned) := by
  have hrows := represents_rows haxis
  have hlength : getLength axis = (rows axis).length := by rw [getLength, hrows.2, List.length_map]
  have horder := hsort (getDelay axis)
  have hsorts : Sorts (fun a b : ℚ × Option ℚ => SortsBefore a.2 b.2) (rows axis) (argsort (getDelay axis)) := by
    constructor
    · rw [← hlength]
      exact horder.perm
    · have hsorted : (pick ((rows axis).map (·.2)) (argsort (getDelay axis))).Pairwise SortsBefore :=
        hrows.2 ▸ horder.sorted
      rwa [pick_map, List.pairwise_map] at hsorted
  rw [getDelayCleanedAxis, if_pos hfactor, hlength]
  have hcleaned := LawfulAxis.represents_cleaned hrows
  refine ⟨_, rfl, (hcleaned _).aligned, ?_⟩
  rw [(hcleaned _).rows_eq]
  exact hsorts.trimmed (two_mul_numRemoved_le share hfactor _)

/-- Several cleanings. -/
theorem foldlM_getDelayCleanedAxis_trimmed [LawfulAxis Axis]
    (hsort : ∀ delays, Sorts SortsBefore delays (argsort delays)) (haxis : Aligned axis) {factors : List ℚ}
    (hfactors : ∀ outlierFactor ∈ factors, 0 ≤ outlierFactor ∧ outlierFactor ≤ 1) :
    ∃ cleaned, factors.foldlM (getDelayCleanedAxis share argsort) axis = .ok cleaned ∧ Aligned cleaned ∧
      Trimmed (fun a b => SortsBefore a.2 b.2) (totalRemoved share (getLength axis) factors) (rows axis) (rows cleaned) := by
  induction factors generalizing axis with
  | nil => exact ⟨axis, rfl, haxis, .refl _ _⟩
  | cons outlierFactor factors ih =>
    obtain ⟨once, honce, haligned, htrimmed⟩ :=
      @getDelayCleanedAxis_trimmed _ _ share _ _ _ hsort haxis _ (hfactors outlierFactor List.mem_cons_self)
    obtain ⟨cleaned, hcleaned, hcleanedAligned, htrimmed'⟩ :=
      ih haligned fun factor hfactor => hfactors factor (List.mem_cons_of_mem _ hfactor)
    have hlength {axis : Axis} (h : Aligned axis) : (rows axis).length = getLength axis := by
      rw [getLength, (represents_rows h).2, List.length_map]
    have hremaining : getLength once = getLength axis - 2 * numRemoved share outlierFactor (getLength axis) := by
      have hboth := htrimmed.length
      rw [hlength haxis, hlength haligned] at hboth
      omega
    rw [hremaining] at htrimmed'
    refine ⟨cleaned, ?_, hcleanedAligned, htrimmed.trans htrimmed'⟩
    rw [List.foldlM_cons, honce]
    exact hcleaned

/-- Any number of cleanings keeps the rows in the middle: as many rows with the lowest delays as with the
highest ones are gone, the others are in their order, and which delays are left does not depend on the
order that `np.argsort` gives to equal delays. -/
theorem cleaned_axis_keeps_middle [LawfulAxis Axis] (share : Share) (argsort : List (Option ℚ) → List Nat)
    (hsort : ∀ delays, Sorts SortsBefore delays (argsort delays)) (axis : Axis) (haxis : Aligned axis)
    (factors : List ℚ) (hfactors : ∀ outlierFactor ∈ factors, 0 ≤ outlierFactor ∧ outlierFactor ≤ 1) :
    ∃ cleaned, factors.foldlM (getDelayCleanedAxis share argsort) axis = .ok cleaned ∧ Aligned cleaned ∧
      Trimmed (fun a b => SortsBefore a.2 b.2) (totalRemoved share (getLength axis) factors) (rows axis) (rows cleaned) ∧
      ∀ argsort', (∀ delays, Sorts SortsBefore delays (argsort' delays)) →
        ∃ cleaned', factors.foldlM (getDelayCleanedAxis share argsort') axis = .ok cleaned' ∧
          (getDelay cleaned').Perm (getDelay cleaned) := by
  obtain ⟨cleaned, hcleaned, haligned, htrimmed⟩ := foldlM_getDelayCleanedAxis_trimmed hsort haxis hfactors
  refine ⟨cleaned, hcleaned, haligned, htrimmed, fun argsort' hsort' => ?_⟩
  obtain ⟨cleaned', hcleaned', haligned', htrimmed'⟩ := foldlM_getDelayCleanedAxis_trimmed hsort' haxis hfactors
  refine ⟨cleaned', hcleaned', ?_⟩
  rw [(represents_rows haligned').2, (represents_rows haligned).2]
  exact (htrimmed'.map fun _ _ hle => hle).unique (htrimmed.map fun _ _ hle => hle)

/-- The stable variant of the sorting. -/
def stableArgsort (delays : List (Option ℚ)) : List Nat :=
  (List.range delays.length).insertionSort fun i j => SortsBefore (delays.getD i none) (delays.getD j none)

theorem sorts_stableArgsort (delays : List (Option ℚ)) : Sorts SortsBefore delays (stableArgsort delays) := by
  have : Std.Total fun i j => SortsBefore (delays.getD i none) (delays.getD j none) := ⟨fun _ _ => total_of _ _ _⟩
  have : IsTrans Nat fun i j => SortsBefore (delays.getD i none) (delays.getD j none) :=
    ⟨fun _ _ _ hij hjk => trans_of SortsBefore hij hjk⟩
  refine ⟨List.perm_insertionSort _ _, ?_⟩
  rw [pick, List.pairwise_filterMap]
  apply (List.pairwise_insertionSort _ (List.range delays.length)).imp
  intro i j hle a ha b hb
  rwa [List.getD_eq_getElem?_getD, List.getD_eq_getElem?_getD, ha, hb] at hle

/-- No product is rounded. -/
def exactShare : Share where
  product outlierFactor length := outlierFactor / 2 * length
  nonneg outlierFactor length h := mul_nonneg (div_nonneg h zero_le_two) length.cast_nonneg
  le_half outlierFactor length h := by
    have hlength : (0 : ℚ) ≤ length := length.cast_nonneg
    have hshare : outlierFactor * length ≤ length := mul_le_of_le_one_left hlength h
    linarith

/-- Of four delays, the lowest one and the missing one are removed. -/
theorem cleaned_axis_keeps_middle_four :
    [1 / 2].foldlM (getDelayCleanedAxis exactShare stableArgsort)
        (⟨[1, 2, 3, 4], [some 5, none, some 1, some 3]⟩ : DelayAxis) = .ok ⟨[1, 4], [some 5, some 3]⟩ ∧
      Trimmed (fun a b => SortsBefore a.2 b.2) 1 [(1, some 5), (2, none), (3, some 1), ((4 : ℚ), some (3 : ℚ))]
        [(1, some 5), (4, some 3)] := by
  have heval : [1 / 2].foldlM (getDelayCleanedAxis exactShare stableArgsort)
      (⟨[1, 2, 3, 4], [some 5, none, some 1, some 3]⟩ : DelayAxis) = .ok ⟨[1, 4], [some 5, some 3]⟩ := by
    decide +kernel
  have hremoved : totalRemoved exactShare 4 [1 / 2] = 1 := by decide +kernel
  obtain ⟨cleaned, hcleaned, -, htrimmed, -⟩ := cleaned_axis_keeps_middle exactShare stableArgsort sorts_stableArgsort
    (⟨[1, 2, 3, 4], [some 5, none, some 1, some 3]⟩ : DelayAxis) rfl [1 / 2] (by decide +kernel)
  rw [heval] at hcleaned
  cases hcleaned
  exact ⟨heval, hremoved ▸ htrimmed⟩

end AbstractAxis
end FMITerminalBlock.Scripts
