import Mathlib.Logic.Function.Basic
import Mathlib.Data.List.Basic

/-! Typed port identifiers and the counter they are drawn from. -/
namespace FMITerminalBlock.Base

/-- The FMI types in the order of their codes. -/
inductive FMIVariableType where
  | fmiTypeReal | fmiTypeInteger | fmiTypeBoolean | fmiTypeString | fmiTypeUnknown
  deriving DecidableEq, Repr

namespace FMIVariableType

def all : List FMIVariableType :=
  [.fmiTypeReal, .fmiTypeInteger, .fmiTypeBoolean, .fmiTypeString, .fmiTypeUnknown]

/-- The types a model variable can have. -/
def known : List FMIVariableType := [.fmiTypeReal, .fmiTypeInteger, .fmiTypeBoolean, .fmiTypeString]

/-- The cast of a configured number. Numbers outside of the enumeration are refused. -/
def ofCode (code : Int) : Option FMIVariableType :=
  if code < 0 then none else all[code.toNat]?

theorem mem_all (type : FMIVariableType) : type ∈ all := by cases type <;> decide

theorem all_nodup : all.Nodup := by decide

end FMIVariableType

abbrev PortID := FMIVariableType × Int

/-- One counter for each type, shared by both directions. -/
structure PortIDDrawer where
  nextPortID : FMIVariableType → Nat := fun _ => 0

def PortIDDrawer.getNextPortID (d : PortIDDrawer) (type : FMIVariableType) : PortID × PortIDDrawer :=
  ((type, d.nextPortID type),
    ⟨fun t => if t = type then d.nextPortID t + 1 else d.nextPortID t⟩)

end FMITerminalBlock.Base
