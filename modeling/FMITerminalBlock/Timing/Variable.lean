import FMITerminalBlock.Base.ApplicationContext
import FMITerminalBlock.Timing.TimedEventQueue

/-! Typed values, the variables that carry them and the events with a fixed list of variables. -/
namespace FMITerminalBlock.Timing
open Base

/-- The data type behind each FMI type. Reals are IEEE-754 bit patterns and `fmiBoolean` is one
byte; nothing stands for an unknown type. -/
abbrev Carrier : FMIVariableType → Type
  | .fmiTypeReal => BitVec 64
  | .fmiTypeInteger => BitVec 32
  | .fmiTypeBoolean => UInt8
  | .fmiTypeString => StdString
  | .fmiTypeUnknown => Empty

def fmiTrue : UInt8 := 1
def fmiFalse : UInt8 := 0

/-- The content of a `boost::any`. -/
inductive Value where
  | real (bits : BitVec 64)
  | integer (value : BitVec 32)
  | boolean (value : UInt8)
  | string (value : StdString)
  | empty
  deriving DecidableEq

namespace Value

def of : (type : FMIVariableType) → Carrier type → Value
  | .fmiTypeReal, bits => .real bits
  | .fmiTypeInteger, value => .integer value
  | .fmiTypeBoolean, value => .boolean value
  | .fmiTypeString, value => .string value
  | .fmiTypeUnknown, value => nomatch value

/-- `boost::any_cast` to the data type of an FMI type. -/
def anyCast : (type : FMIVariableType) → Value → Option (Carrier type)
  | .fmiTypeReal, .real bits => some bits
  | .fmiTypeInteger, .integer value => some value
  | .fmiTypeBoolean, .boolean value => some value
  | .fmiTypeString, .string value => some value
  | _, _ => none

theorem anyCast_eq_some {type : FMIVariableType} {v : Value} {x : Carrier type} :
    anyCast type v = some x ↔ v = of type x := by
  cases type <;> cases v <;> simp [anyCast, of]
  all_goals exact nomatch x

end Value

structure Variable where
  id : PortID
  value : Value
  deriving DecidableEq

/-- The value has the type of the identifier. -/
def Variable.isValid (v : Variable) : Bool := (v.value.anyCast v.id.1).isSome

structure StaticEvent where
  time : ℚ
  vars : List Variable
  deriving DecidableEq

instance : Timed StaticEvent := ⟨StaticEvent.time⟩

/-! ### Inputs and outputs -/

/-- The event holds a value for at least one configured input. -/
def StaticEvent.CarriesInput (context : ApplicationContext.Settled) (ev : StaticEvent) : Prop :=
  ∃ v ∈ ev.vars, v.id ∈ context.input.getAllVariableIDs

instance (context : ApplicationContext.Settled) (ev : StaticEvent) : Decidable (ev.CarriesInput context) :=
  inferInstanceAs (Decidable (∃ v ∈ ev.vars, v.id ∈ context.input.getAllVariableIDs))

/-- All variables belong to configured outputs. -/
def OutputOnly (context : ApplicationContext.Settled) (vars : List Variable) : Prop :=
  ∀ v ∈ vars, v.id ∈ context.output.getAllVariableIDs

theorem OutputOnly.not_mem_input {context : ApplicationContext.Settled} {vars : List Variable}
    (h : OutputOnly context vars) {v : Variable} (hv : v ∈ vars) : v.id ∉ context.input.getAllVariableIDs :=
  fun hin => context.apart hin (h v hv)

/-! ### Repeated identifiers -/

/-- The last variable of a list with the given identifier. -/
def lastVariable (id : PortID) (vars : List Variable) : Option Variable := vars.reverse.find? fun v => v.id = id

theorem lastVariable_append (id : PortID) (vars more : List Variable) :
    lastVariable id (vars ++ more) = (lastVariable id more).or (lastVariable id vars) := by
  rw [lastVariable, List.reverse_append, List.find?_append]
  rfl

theorem lastVariable_cons_of_eq {v : Variable} {id : PortID} (h : v.id = id) (vars : List Variable) :
    lastVariable id (v :: vars) = (lastVariable id vars).or (some v) := by
  rw [← List.singleton_append, lastVariable_append]
  simp [lastVariable, h]

theorem lastVariable_cons_of_ne {v : Variable} {id : PortID} (h : v.id ≠ id) (vars : List Variable) :
    lastVariable id (v :: vars) = lastVariable id vars := by
  rw [← List.singleton_append, lastVariable_append]
  simp [lastVariable, h]

theorem lastVariable_mem {id : PortID} {vars : List Variable} {v : Variable} (h : lastVariable id vars = some v) :
    v ∈ vars ∧ v.id = id := by
  have hmem := List.mem_of_find?_eq_some h
  have hid := List.find?_some h
  exact ⟨List.mem_reverse.mp hmem, of_decide_eq_true hid⟩

theorem lastVariable_isSome {id : PortID} {vars : List Variable} :
    (lastVariable id vars).isSome ↔ id ∈ vars.map Variable.id := by
  simp [lastVariable, List.find?_isSome]

/-! ### Comparison of values -/

namespace Ieee754

def magnitude (bits : BitVec 64) : BitVec 64 := bits &&& 0x7FFFFFFFFFFFFFFF#64

def isNaN (bits : BitVec 64) : Bool := 0x7FF0000000000000#64 < magnitude bits

/-- Equality of doubles: NaN differs from everything and both zeros are equal. -/
def equal (a b : BitVec 64) : Bool :=
  !isNaN a && !isNaN b && (a == b || (magnitude a == 0 && magnitude b == 0))

end Ieee754

/-- The operator `!=` on the data type of an FMI type. -/
def differs : (type : FMIVariableType) → Carrier type → Carrier type → Bool
  | .fmiTypeReal, a, b => !Ieee754.equal a b
  | .fmiTypeInteger, a, b => a != b
  | .fmiTypeBoolean, a, b => a != b
  | .fmiTypeString, a, b => a != b
  | .fmiTypeUnknown, a, _ => nomatch a

end FMITerminalBlock.Timing
