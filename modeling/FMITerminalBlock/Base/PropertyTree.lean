import FMITerminalBlock.Library.DecimalText
import Mathlib.Data.List.Nodup
import Mathlib.Data.List.Perm.Subperm
import Mathlib.Tactic.Push

/-! The configuration tree and the parts of `boost::property_tree` the program uses. A
`std::string` is the list of its bytes. -/
namespace FMITerminalBlock.Base

abbrev StdString := List UInt8

/-- The bytes of a literal in the source. -/
def ascii (literal : String) : StdString := literal.toList.map fun c => UInt8.ofNat c.toNat

/-- A node holds its data and the list of its named children. -/
inductive Ptree where
  | node (data : StdString) (children : List (StdString × Ptree))

namespace Ptree

def data : Ptree → StdString
  | .node data _ => data

def children : Ptree → List (StdString × Ptree)
  | .node _ children => children

/-- The first child with the given name. -/
def child (t : Ptree) (key : StdString) : Option Ptree :=
  (t.children.find? (·.1 == key)).map (·.2)

def walk : Ptree → List StdString → Option Ptree
  | t, [] => some t
  | t, key :: keys => (t.child key).bind (walk · keys)

/-- Paths are split at the dots; the empty path is the node itself. -/
def splitPath (path : StdString) : List StdString :=
  if path = [] then [] else path.splitOn 46

def getChildOptional (t : Ptree) (path : StdString) : Option Ptree := t.walk (splitPath path)

def isSpace (b : UInt8) : Bool := b == 32 || (9 ≤ b && b ≤ 13)

/-- Reads an `int` from a stream that has to hold nothing else but white space. -/
def parseInt (text : StdString) : Option Int :=
  let signed := text.dropWhile isSpace
  let (negative, unsigned) := match signed with
    | 45 :: rest => (true, rest)
    | 43 :: rest => (false, rest)
    | rest => (false, rest)
  let digits := unsigned.takeWhile DecimalText.isDigit
  let rest := unsigned.dropWhile DecimalText.isDigit
  let magnitude : Int := DecimalText.value digits
  let value := if negative then -magnitude else magnitude
  if digits ≠ [] ∧ rest.all isSpace ∧ -2 ^ 31 ≤ value ∧ value < 2 ^ 31 then some value else none

/-- `get<int>(path, default)`: the default also stands for data that is no number. -/
def getInt (t : Ptree) (path : StdString) (default : Int) : Int :=
  ((t.getChildOptional path).bind fun node => parseInt node.data).getD default

/-- `get<std::string>(path, default)`. -/
def getString (t : Ptree) (path : StdString) (default : StdString) : StdString :=
  ((t.getChildOptional path).map data).getD default

/-- The child named by a number, as the loops over channels and ports ask for it. -/
def indexed (t : Ptree) (i : Nat) : Option Ptree := t.getChildOptional (DecimalText.decimal i)

/-- The children with the numbers 0, 1, 2 and so on up to the first gap. A tree holds no more of
them than it has children. -/
def consecutive (t : Ptree) : List Ptree :=
  ((List.range (t.children.length + 1)).map t.indexed).takeWhile Option.isSome |>.filterMap id

theorem indexed_eq_child (t : Ptree) (i : Nat) : t.indexed i = t.child (DecimalText.decimal i) := by
  have hdot : (46 : UInt8) ∉ DecimalText.decimal i := fun h => by
    have := DecimalText.isDigit_of_mem_decimal h
    revert this; decide
  have hsplit : splitPath (DecimalText.decimal i) = [DecimalText.decimal i] := by
    rw [splitPath, if_neg (DecimalText.decimal_ne_nil i)]
    have hword : ∀ word ∈ [DecimalText.decimal i], (46 : UInt8) ∉ word := by simpa using hdot
    simpa using List.splitOn_intercalate 46 hword (by simp)
  simp [indexed, getChildOptional, hsplit, walk]

/-- Different numbers name different children, so some number up to their count is missing. -/
theorem exists_indexed_none (t : Ptree) : ∃ i ≤ t.children.length, t.indexed i = none := by
  by_contra hall
  push Not at hall
  have hsub : (List.range (t.children.length + 1)).map DecimalText.decimal ⊆ t.children.map (·.1) := by
    intro key hkey
    obtain ⟨i, hi, rfl⟩ := List.mem_map.mp hkey
    have hsome := hall i (Nat.lt_succ_iff.mp (List.mem_range.mp hi))
    rw [indexed_eq_child, child, ne_eq, Option.map_eq_none_iff, ← ne_eq, Option.ne_none_iff_exists'] at hsome
    obtain ⟨entry, hentry⟩ := hsome
    have hkey := List.find?_some hentry
    exact List.mem_map.mpr ⟨entry, List.mem_of_find?_eq_some hentry, by simpa using hkey⟩
  have hnodup : ((List.range (t.children.length + 1)).map DecimalText.decimal).Nodup :=
    List.nodup_range.map DecimalText.decimal_injective
  have hle := (hnodup.subperm hsub).length_le
  simp at hle

private theorem takeWhile_isSome_spec {α : Type} (f : Nat → Option α) (s n : Nat)
    (h : ∃ i, s ≤ i ∧ i < s + n ∧ f i = none) :
    (∀ i x, ((((List.range' s n).map f).takeWhile Option.isSome).filterMap id)[i]? = some x →
      f (s + i) = some x) ∧
    f (s + ((((List.range' s n).map f).takeWhile Option.isSome).filterMap id).length) = none := by
  induction n generalizing s with
  | zero => obtain ⟨i, hl, hr, -⟩ := h; omega
  | succ n ih =>
    cases hs : f s with
    | none => simp [List.range'_succ, hs]
    | some x =>
      obtain ⟨i, hl, hr, hi⟩ := h
      have hne : s ≠ i := fun he => by rw [he, hi] at hs; cases hs
      obtain ⟨hget, hlen⟩ := ih (s + 1) ⟨i, by omega, by omega, hi⟩
      simp only [List.range'_succ, List.map_cons, hs, List.takeWhile_cons, Option.isSome_some, if_true,
        List.filterMap_cons, id_eq, List.length_cons]
      refine ⟨fun j y hj => ?_, ?_⟩
      · cases j with
        | zero => rw [Nat.add_zero, hs]; exact hj
        | succ j => rw [← Nat.add_assoc, Nat.add_right_comm]; exact hget j y hj
      · rw [← Nat.add_assoc, Nat.add_right_comm]; exact hlen

/-- The list holds the numbered children in order and ends at the first number that is missing. -/
theorem consecutive_spec (t : Ptree) :
    (∀ i port, t.consecutive[i]? = some port → t.indexed i = some port) ∧
      t.indexed t.consecutive.length = none := by
  obtain ⟨i, hi, hnone⟩ := exists_indexed_none t
  have h := takeWhile_isSome_spec t.indexed 0 (t.children.length + 1) ⟨i, by omega, by omega, hnone⟩
  simpa [consecutive, List.range_eq_range'] using h

end Ptree
end FMITerminalBlock.Base
