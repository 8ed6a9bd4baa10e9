import FMITerminalBlock.Base.ApplicationContext
import FMITerminalBlock.Library.Fallible

/-! How properties get into the configuration tree and how they are queried. The dots of a key lead
down the tree, whatever they mean in the key. -/
namespace FMITerminalBlock.Base

namespace Ptree

/-- Applies a function to the child with the given name, which is appended if there is none. -/
def putChild (key : StdString) (f : Ptree → Ptree) : List (StdString × Ptree) → List (StdString × Ptree)
  | [] => [(key, f (.node [] []))]
  | (name, t) :: rest => if name = key then (name, f t) :: rest else (name, t) :: putChild key f rest

def putAt (value : StdString) : List StdString → Ptree → Ptree
  | [], t => .node value t.children
  | key :: keys, t => .node t.data (putChild key (putAt value keys) t.children)

/-- `put(path, value)`: missing nodes on the way are created, and the children of the last node stay. -/
def put (t : Ptree) (path value : StdString) : Ptree := putAt value (splitPath path) t

theorem find?_putChild (key k : StdString) (f : Ptree → Ptree) (children : List (StdString × Ptree)) :
    ((putChild key f children).find? (·.1 == k)).map (·.2) =
      if k = key then some (f (((children.find? (·.1 == key)).map (·.2)).getD (.node [] [])))
      else (children.find? (·.1 == k)).map (·.2) := by
  induction children with
  | nil => by_cases hk : k = key <;> simp [putChild, hk, Ne.symm]
  | cons entry rest ih =>
    obtain ⟨name, t⟩ := entry
    rw [putChild]
    by_cases hname : name = key
    · rw [if_pos hname]
      by_cases hk : k = key
      · simp [hname, hk]
      · have hne : (name == k) = false := beq_false_of_ne fun h => hk (h.symm.trans hname)
        simp [hk, hne]
    · rw [if_neg hname]
      by_cases hk : name = k
      · subst hk
        simp [hname]
      · rw [List.find?_cons_of_neg (by simpa using hk), ih, List.find?_cons_of_neg (by simpa using hname),
          List.find?_cons_of_neg (by simpa using hk)]

theorem keys_putChild (key : StdString) (f : Ptree → Ptree) (children : List (StdString × Ptree)) :
    ∀ entry ∈ putChild key f children, entry.1 = key ∨ entry.1 ∈ children.map (·.1) := by
  induction children with
  | nil => simp [putChild]
  | cons entry rest ih =>
    obtain ⟨name, t⟩ := entry
    intro other hother
    rw [putChild] at hother
    split at hother
    · rename_i hname
      rcases List.mem_cons.mp hother with rfl | hother
      · exact .inl hname
      · exact .inr (List.mem_cons_of_mem _ (List.mem_map_of_mem hother))
    · rcases List.mem_cons.mp hother with rfl | hother
      · exact .inr List.mem_cons_self
      · exact (ih other hother).imp_right (List.mem_cons_of_mem _)

/-- A new name is appended behind the other children. -/
theorem putChild_of_notMem {key : StdString} (f : Ptree → Ptree) {children : List (StdString × Ptree)}
    (h : key ∉ children.map (·.1)) : putChild key f children = children ++ [(key, f (.node [] []))] := by
  induction children with
  | nil => rfl
  | cons entry rest ih =>
    obtain ⟨name, t⟩ := entry
    rw [List.map_cons, List.mem_cons, not_or] at h
    rw [putChild, if_neg (Ne.symm h.1), ih h.2, List.cons_append]

theorem child_putAt (value key k : StdString) (keys : List StdString) (t : Ptree) :
    (putAt value (key :: keys) t).child k =
      if k = key then some (putAt value keys ((t.child key).getD (.node [] []))) else t.child k :=
  find?_putChild key k (putAt value keys) t.children

theorem walk_append (way rest : List StdString) (t : Ptree) :
    t.walk (way ++ rest) = (t.walk way).bind fun node => node.walk rest := by
  induction way generalizing t with
  | nil => rfl
  | cons key way ih =>
    rw [List.cons_append, walk, walk]
    cases t.child key with
    | none => rfl
    | some child => exact ih child

/-- The nodes on the way to the value, and the value itself. -/
theorem walk_putAt (value : StdString) (way rest : List StdString) (t : Ptree) :
    (putAt value (way ++ rest) t).walk way = some (putAt value rest ((t.walk way).getD (.node [] []))) := by
  induction way generalizing t with
  | nil => rfl
  | cons key way ih =>
    rw [List.cons_append, walk, child_putAt, if_pos rfl, Option.bind_some, ih, walk]
    cases t.child key with
    | some child => rfl
    | none =>
      cases way with
      | nil => rfl
      | cons next way => rfl

/-- All other nodes keep what they have. -/
theorem walk_putAt_of_not_isPrefix (value : StdString) {path keys : List StdString} (t : Ptree)
    (h : ¬path <+: keys) : (putAt value keys t).walk path = t.walk path := by
  induction keys generalizing path t with
  | nil =>
    cases path with
    | nil => exact absurd List.nil_prefix h
    | cons key path => rfl
  | cons key keys ih =>
    cases path with
    | nil => exact absurd List.nil_prefix h
    | cons k path =>
      rw [walk, child_putAt]
      by_cases hk : k = key
      · subst hk
        have hrest : ¬path <+: keys := fun hway => h ((List.prefix_cons_inj k).mpr hway)
        rw [if_pos rfl, Option.bind_some, ih _ hrest, walk]
        cases t.child k with
        | some child => rfl
        | none =>
          cases path with
          | nil => exact absurd List.nil_prefix hrest
          | cons next path => rfl
      · rw [if_neg hk, walk]

end Ptree

/-- The exception for an argument that cannot be used, with the format of its text. -/
structure InvalidArgument where
  what : String

namespace ApplicationContext

def hasProperty (config : Ptree) (key : StdString) : Bool := (config.getChildOptional key).isSome

/-- The end of `addCommandlineOption`, after the option has been split at its first equals sign. -/
def addProperty (config : Ptree) (option : StdString × StdString) : Except InvalidArgument Ptree :=
  if hasProperty config option.1 then
    .error { what := "The program option nr. %1% (\"%2%\") has already been set with value \"%3%\"" }
  else .ok (config.put option.1 option.2)

def addProperties (config : Ptree) (options : List (StdString × StdString)) : Except InvalidArgument Ptree :=
  options.foldlM addProperty config

/-- Queries a property that has to exist and to convert. -/
def getProperty {α : Type} (translate : StdString → Option α) (config : Ptree) (path : StdString) :
    Except InvalidArgument α :=
  match (config.getChildOptional path).bind fun node => translate node.data with
  | some value => .ok value
  | none => .error { what := "The property \"%1%\" was not found: %2%" }

def getPropertyOr {α : Type} (translate : StdString → Option α) (config : Ptree) (path : StdString) (default : α) :
    Except InvalidArgument α :=
  if !hasProperty config path then .ok default else getProperty translate config path

/-! ### Default inputs -/

def propDefaultInput : StdString := propIn ++ ascii ".default"

/-- The key of the default value of an input. -/
def defaultInputKey (name : StdString) : StdString := propDefaultInput ++ ascii "." ++ name

/-- The name that the key of a default value is made for. -/
def defaultInputName (key : StdString) : Option StdString :=
  if defaultInputKey [] <+: key then some (key.drop (defaultInputKey []).length) else none

/-- The default values among some properties, in their order. -/
def defaultInputs (options : List (StdString × StdString)) : List (StdString × StdString) :=
  options.filterMap fun option => (defaultInputName option.1).map fun name => (name, option.2)

/-- The children of the node that holds the default values. -/
def defaultNodes (config : Ptree) : List (StdString × Ptree) :=
  ((config.getChildOptional propDefaultInput).map Ptree.children).getD []

theorem splitPath_propDefaultInput : Ptree.splitPath propDefaultInput = [ascii "in", ascii "default"] := by
  decide +kernel

theorem splitPath_defaultInputKey (name : StdString) :
    Ptree.splitPath (defaultInputKey name) = Ptree.splitPath propDefaultInput ++ name.splitOn 46 := by
  have hne : defaultInputKey name ≠ [] := by simp [defaultInputKey, ascii]
  have hne' : propDefaultInput ≠ [] := by decide
  rw [Ptree.splitPath, if_neg hne, Ptree.splitPath, if_neg hne', defaultInputKey, List.append_assoc]
  exact List.splitOn_append_cons_self _ _

theorem defaultInputName_eq_some {key name : StdString} :
    defaultInputName key = some name ↔ key = defaultInputKey name := by
  have hkey (name : StdString) : defaultInputKey name = defaultInputKey [] ++ name := by simp [defaultInputKey]
  rw [defaultInputName, hkey name]
  constructor
  · intro h
    split at h
    · rename_i hkey
      obtain ⟨rest, rfl⟩ := hkey
      rw [List.drop_left, Option.some.injEq] at h
      rw [h]
    · cases h
  · rintro rfl
    rw [if_pos (List.prefix_append _ _), List.drop_left]

/-- Only keys of default values lead below the node of the default values. -/
theorem defaultInputName_of_splitPath {key next : StdString} {rest : List StdString}
    (h : Ptree.splitPath key = Ptree.splitPath propDefaultInput ++ next :: rest) :
    ∃ name, defaultInputName key = some name := by
  have hkey : key ≠ [] := by
    rintro rfl
    rw [splitPath_propDefaultInput] at h
    cases h
  rw [Ptree.splitPath, if_neg hkey, splitPath_propDefaultInput] at h
  have hjoin : [46].intercalate (key.splitOn 46) = key := List.intercalate_splitOn 46
  rw [h] at hjoin
  refine ⟨[46].intercalate (next :: rest), defaultInputName_eq_some.mpr ?_⟩
  rw [← hjoin]
  simp [defaultInputKey, propDefaultInput, propIn, ascii, List.intercalate, List.intersperse]

private theorem dot_notMem_part {name part : StdString} (h : part ∈ name.splitOn 46) : (46 : UInt8) ∉ part := by
  induction name generalizing part with
  | nil =>
    rw [List.splitOn_nil, List.mem_singleton] at h
    rw [h]
    exact List.not_mem_nil
  | cons c name ih =>
    obtain ⟨first, rest, hsplit⟩ := List.exists_cons_of_ne_nil (List.splitOn_ne_nil (46 : UInt8) name)
    rw [List.splitOn_cons_eq_if_modifyHead] at h
    split at h
    · rcases List.mem_cons.mp h with rfl | h
      · exact List.not_mem_nil
      · exact ih h
    · rename_i hc
      rw [hsplit, List.modifyHead_cons] at h
      rcases List.mem_cons.mp h with rfl | h
      · rw [List.mem_cons, not_or]
        exact ⟨fun heq => hc (by rw [← heq]; rfl), ih (hsplit ▸ List.mem_cons_self)⟩
      · exact ih (hsplit ▸ List.mem_cons_of_mem _ h)

theorem exists_splitOn (name : StdString) : ∃ part parts, name.splitOn 46 = part :: parts :=
  List.exists_cons_of_ne_nil (List.splitOn_ne_nil 46 name)

/-- A default value is found by its own path below the node of the default values. -/
theorem getChildOptional_defaultInputKey (config : Ptree) (name : StdString) :
    config.getChildOptional (defaultInputKey name) =
      Ptree.walk (.node [] (defaultNodes config)) (name.splitOn 46) := by
  obtain ⟨part, parts, hparts⟩ := exists_splitOn name
  rw [Ptree.getChildOptional, splitPath_defaultInputKey, Ptree.walk_append, defaultNodes, Ptree.getChildOptional,
    hparts]
  cases config.walk (Ptree.splitPath propDefaultInput) with
  | none => rfl
  | some node => rfl

theorem defaultNodes_put_default (config : Ptree) {name part : StdString} {parts : List StdString}
    (hparts : name.splitOn 46 = part :: parts) (value : StdString) :
    defaultNodes (config.put (defaultInputKey name) value) =
      Ptree.putChild part (Ptree.putAt value parts) (defaultNodes config) := by
  rw [defaultNodes, Ptree.put, splitPath_defaultInputKey, Ptree.getChildOptional, Ptree.walk_putAt, hparts,
    defaultNodes, Ptree.getChildOptional]
  cases config.walk (Ptree.splitPath propDefaultInput) with
  | none => rfl
  | some node => rfl

theorem defaultNodes_put_other (config : Ptree) {key : StdString} (h : defaultInputName key = none)
    (value : StdString) : defaultNodes (config.put key value) = defaultNodes config := by
  rw [defaultNodes, Ptree.put, Ptree.getChildOptional, defaultNodes, Ptree.getChildOptional]
  by_cases hway : Ptree.splitPath propDefaultInput <+: Ptree.splitPath key
  · obtain ⟨rest, hrest⟩ := hway
    cases rest with
    | nil =>
      rw [← hrest, Ptree.walk_putAt]
      cases config.walk (Ptree.splitPath propDefaultInput) with
      | none => rfl
      | some node => rfl
    | cons next rest =>
      obtain ⟨name, hname⟩ := defaultInputName_of_splitPath hrest.symm
      rw [h] at hname
      cases hname
  · rw [Ptree.walk_putAt_of_not_isPrefix value config hway]

/-- Below the node of the default values stand parts of names, which hold no dot. -/
theorem addProperties_parts {config config' : Ptree} {options : List (StdString × StdString)}
    (hconfig : defaultNodes config = []) (h : addProperties config options = .ok config') :
    ∀ entry ∈ defaultNodes config', (46 : UInt8) ∉ entry.1 := by
  refine (Fallible.Outcome.foldlM (E := fun _ => True)
    (fun _ config => ∀ entry ∈ defaultNodes config, (46 : UInt8) ∉ entry.1) ?_ (by simp [hconfig])).of_ok h
  intro _ config option hparts _
  rw [addProperty]
  split
  · exact .error trivial
  · refine .ok fun entry hentry => ?_
    cases hname : defaultInputName option.1 with
    | none =>
      rw [defaultNodes_put_other config hname] at hentry
      exact hparts entry hentry
    | some name =>
      obtain ⟨part, parts, hsplit⟩ := exists_splitOn name
      rw [defaultInputName_eq_some.mp hname, defaultNodes_put_default config hsplit] at hentry
      rcases Ptree.keys_putChild part _ _ entry hentry with hpart | hold
      · rw [hpart]
        exact dot_notMem_part (hsplit ▸ List.mem_cons_self)
      · obtain ⟨old, hold, heq⟩ := List.mem_map.mp hold
        rw [← heq]
        exact hparts old hold

/-- The nodes of default values whose names are not split. -/
def leaves (defaults : List (StdString × StdString)) : List (StdString × Ptree) :=
  defaults.map fun d => (d.1, .node d.2 [])

/-- Names without a dot stand side by side, every one with its value. -/
theorem addProperties_leaves {config config' : Ptree} {options : List (StdString × StdString)}
    (hconfig : defaultNodes config = []) (h : addProperties config options = .ok config')
    (hdots : ∀ d ∈ defaultInputs options, (46 : UInt8) ∉ d.1) :
    defaultNodes config' = leaves (defaultInputs options) ∧ ((defaultInputs options).map (·.1)).Nodup := by
  refine (Fallible.Outcome.foldlM (E := fun _ => True) (fun past config =>
    defaultNodes config = leaves (defaultInputs past) ∧ ((defaultInputs past).map (·.1)).Nodup) ?_
    ⟨hconfig, List.nodup_nil⟩).of_ok h
  rintro past config option ⟨hnodes, hnodup⟩ hoption
  rw [addProperty]
  split
  · exact .error trivial
  · rename_i hnew
    apply Fallible.Outcome.ok
    rw [defaultInputs, List.filterMap_append, List.filterMap_cons, List.filterMap_nil, ← defaultInputs]
    cases hname : defaultInputName option.1 with
    | none =>
      rw [defaultNodes_put_other config hname, Option.map_none, List.append_nil]
      exact ⟨hnodes, hnodup⟩
    | some name =>
      rw [Option.map_some]
      have hkey := defaultInputName_eq_some.mp hname
      have hdot : (46 : UInt8) ∉ name :=
        hdots (name, option.2) (List.mem_filterMap.mpr ⟨option, hoption, by rw [hname]; rfl⟩)
      have hsplit : name.splitOn 46 = [name] := List.splitOn_eq_singleton hdot
      have hfresh : name ∉ (defaultNodes config).map (·.1) := by
        intro hmem
        apply hnew
        obtain ⟨entry, hentry, heq⟩ := List.mem_map.mp hmem
        rw [hasProperty, hkey, getChildOptional_defaultInputKey, hsplit]
        have hfound : ((defaultNodes config).find? (·.1 == name)).isSome :=
          List.find?_isSome.mpr ⟨entry, hentry, by simpa using heq⟩
        obtain ⟨found, hfound⟩ := Option.isSome_iff_exists.mp hfound
        simp [Ptree.walk, Ptree.child, Ptree.children, hfound]
      rw [hkey, defaultNodes_put_default config hsplit, Ptree.putChild_of_notMem _ hfresh, hnodes]
      refine ⟨by simp [leaves, Ptree.putAt, Ptree.children], ?_⟩
      have hfresh' : name ∉ (defaultInputs past).map (·.1) := by simpa [hnodes, leaves] using hfresh
      simpa using hnodup.concat hfresh'

theorem child_leaves (defaults : List (StdString × StdString)) (name : StdString) :
    (Ptree.node [] (leaves defaults)).child name = (defaults.lookup name).map fun value => .node value [] := by
  rw [Ptree.child, Ptree.children]
  induction defaults with
  | nil => rfl
  | cons d defaults ih =>
    rw [leaves, List.map_cons, List.lookup_cons]
    by_cases hname : name = d.1
    · simp [hname]
    · rw [List.find?_cons_of_neg (by simpa using Ne.symm hname), beq_false_of_ne hname]
      exact ih

/-- Every name has the value that was given for it, and other names have none. -/
theorem getChildOptional_of_leaves {config : Ptree} {defaults : List (StdString × StdString)}
    (hnodes : defaultNodes config = leaves defaults) (hdots : ∀ d ∈ defaults, (46 : UInt8) ∉ d.1)
    (name : StdString) :
    config.getChildOptional (defaultInputKey name) = (defaults.lookup name).map fun value => .node value [] := by
  rw [getChildOptional_defaultInputKey, hnodes]
  by_cases hdot : (46 : UInt8) ∈ name
  · have hlookup : defaults.lookup name = none := by
      rw [List.lookup_eq_none_iff]
      intro d hd
      have hne : name ≠ d.1 := fun heq => hdots d hd (heq ▸ hdot)
      simpa using hne
    obtain ⟨part, parts, hsplit⟩ := exists_splitOn name
    rw [hlookup, hsplit, Ptree.walk, child_leaves, Option.map_none]
    cases parts with
    | nil =>
      have hjoin : [46].intercalate (name.splitOn 46) = name := List.intercalate_splitOn 46
      rw [hsplit, List.intercalate_singleton] at hjoin
      exact absurd (hjoin ▸ hdot) (dot_notMem_part (hsplit ▸ List.mem_cons_self))
    | cons next parts => cases defaults.lookup part <;> rfl
  · rw [List.splitOn_eq_singleton hdot, Ptree.walk, child_leaves]
    cases defaults.lookup name <;> rfl

end ApplicationContext
end FMITerminalBlock.Base
