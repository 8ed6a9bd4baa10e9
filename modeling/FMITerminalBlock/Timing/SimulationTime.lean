import FMITerminalBlock.Timing.EventDispatcher
import Mathlib.Algebra.Order.Floor.Ring
import Mathlib.Tactic.Linarith

/-! The conversions between simulation time and system time. The clock counts microseconds, so a
time is rounded on its way to the clock; the results bound what gets lost in either direction. -/
namespace FMITerminalBlock.Timing.TimedEventQueue
variable {ε : Type}

/-- The cast of a floating-point number to an integer drops its fraction. -/
def truncate (x : ℚ) : Int := x.num.tdiv x.den

/-- The ticks since the epoch divided by the ticks of a second. -/
def getSimulationTime (q : TimedEventQueue ε) (sysTime : Int) : ℚ :=
  ((sysTime - q.localEpoch : Int) : ℚ) / 1000000

theorem truncate_of_nonneg {x : ℚ} (h : 0 ≤ x) : truncate x = ⌊x⌋ := by
  rw [truncate, Int.tdiv_eq_ediv_of_nonneg (Rat.num_nonneg.mpr h)]
  exact (Rat.floor_def x).symm

/-- The fraction of a negative time counts upwards from its floor as well. Nothing the source
truncates is negative. -/
theorem getRelativeTime_eq_truncate (time : ℚ) :
    getRelativeTime time = ⌊time⌋ * 1000000 + truncate ((time - ⌊time⌋) * 1000 * 1000) := by
  have hfraction : 0 ≤ time - ⌊time⌋ := sub_nonneg.mpr (Int.floor_le time)
  rw [getRelativeTime, truncate_of_nonneg (by positivity)]

theorem getRelativeTime_eq_floor (time : ℚ) : getRelativeTime time = ⌊1000000 * time⌋ := by
  have hsplit : 1000000 * time = ((⌊time⌋ * 1000000 : Int) : ℚ) + (time - ⌊time⌋) * 1000 * 1000 := by
    push_cast
    ring
  rw [getRelativeTime, hsplit, Int.floor_intCast_add]

theorem getRelativeTime_mono {a b : ℚ} (hab : a ≤ b) : getRelativeTime a ≤ getRelativeTime b := by
  rw [getRelativeTime_eq_floor, getRelativeTime_eq_floor]
  exact Int.floor_le_floor (by linarith)

/-- Less than a microsecond is lost. -/
theorem getRelativeTime_bounds (time : ℚ) :
    time - 1 / 1000000 < (getRelativeTime time : ℚ) / 1000000 ∧ (getRelativeTime time : ℚ) / 1000000 ≤ time := by
  rw [getRelativeTime_eq_floor]
  have hle := Int.floor_le (1000000 * time)
  have hlt := Int.lt_floor_add_one (1000000 * time)
  constructor <;> linarith

theorem getSimulationTime_initStartTimeNow (now : Int) (start : ℚ) :
    (initStartTimeNow now start : TimedEventQueue ε).getSimulationTime now = (getRelativeTime start : ℚ) / 1000000 := by
  rw [getSimulationTime, initStartTimeNow, sub_sub_cancel]

theorem getSimulationTime_mono (q : TimedEventQueue ε) {a b : Int} (hab : a ≤ b) :
    q.getSimulationTime a ≤ q.getSimulationTime b := by
  have hcast : ((a - q.localEpoch : Int) : ℚ) ≤ ((b - q.localEpoch : Int) : ℚ) := by
    exact_mod_cast sub_le_sub_right hab _
  rw [getSimulationTime, getSimulationTime]
  linarith

variable [Timed ε]

theorem getSimulationTime_getSystemTime (q : TimedEventQueue ε) (ev : ε) :
    q.getSimulationTime (q.getSystemTime ev) = (getRelativeTime (getTime ev) : ℚ) / 1000000 := by
  rw [getSimulationTime, getSystemTime, add_sub_cancel_left]

/-- The release decision compares system times, so it carries the loss of one conversion. -/
theorem get_not_early {q q' : TimedEventQueue ε} {now : Int} {entry : ε × Bool} (h : q.get now = some (entry, q')) :
    getTime entry.1 - 1 / 1000000 < q.getSimulationTime now := by
  obtain ⟨-, -, -, hfuture⟩ := get_eq_some h
  have hreleased : q.getSystemTime entry.1 ≤ now := by simpa [isFutureEvent] using hfuture
  calc getTime entry.1 - 1 / 1000000 < (getRelativeTime (getTime entry.1) : ℚ) / 1000000 :=
        (getRelativeTime_bounds _).1
    _ = q.getSimulationTime (q.getSystemTime entry.1) := (getSimulationTime_getSystemTime q entry.1).symm
    _ ≤ q.getSimulationTime now := q.getSimulationTime_mono hreleased

/-- The two clocks agree to the microsecond, for times before the epoch too, and no event is returned
a microsecond or more before its time. -/
theorem simulation_time_agrees :
    (∀ time : ℚ, getRelativeTime time = ⌊time⌋ * 1000000 + truncate ((time - ⌊time⌋) * 1000 * 1000) ∧
      getRelativeTime time = ⌊1000000 * time⌋) ∧
    (∀ (q : TimedEventQueue ε) (a b : ε), getTime a ≤ getTime b → q.getSystemTime a ≤ q.getSystemTime b) ∧
    (∀ (q : TimedEventQueue ε) (ev : ε),
      q.getSimulationTime (q.getSystemTime ev) ∈ Set.Ioc (getTime ev - 1 / 1000000) (getTime ev)) ∧
    (∀ (now : Int) (start : ℚ), (initStartTimeNow now start : TimedEventQueue ε).getSimulationTime now ∈
      Set.Ioc (start - 1 / 1000000) start) ∧
    (∀ (q q' : TimedEventQueue ε) (now : Int) (entry : ε × Bool), q.get now = some (entry, q') →
      q.getSimulationTime now > getTime entry.1 - 1 / 1000000) := by
  refine ⟨fun time => ⟨getRelativeTime_eq_truncate time, getRelativeTime_eq_floor time⟩, fun q a b hab => ?_,
    fun q ev => ?_, fun now start => ?_, fun q q' now entry h => get_not_early h⟩
  · exact add_le_add_right (getRelativeTime_mono hab) q.localEpoch
  · rw [getSimulationTime_getSystemTime]
    exact getRelativeTime_bounds (getTime ev)
  · rw [getSimulationTime_initStartTimeNow]
    exact getRelativeTime_bounds start

/-- An event a third of a microsecond before the epoch is returned one microsecond before it. -/
theorem simulation_time_agrees_before_epoch :
    ({ queue := [(-1 / 3000000, false)], localEpoch := 5 } : TimedEventQueue ℚ).get 4 =
        some ((-1 / 3000000, false), { queue := [], localEpoch := 5 }) ∧
      ({ queue := [(-1 / 3000000, false)], localEpoch := 5 } : TimedEventQueue ℚ).getSimulationTime 4 >
        getTime (-1 / 3000000 : ℚ) - 1 / 1000000 := by
  have hget : ({ queue := [(-1 / 3000000, false)], localEpoch := 5 } : TimedEventQueue ℚ).get 4 =
      some ((-1 / 3000000, false), { queue := [], localEpoch := 5 }) := by decide +kernel
  exact ⟨hget, simulation_time_agrees.2.2.2.2 _ _ _ _ hget⟩

end FMITerminalBlock.Timing.TimedEventQueue
