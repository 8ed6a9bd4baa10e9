import FMITerminalBlock.Base.Properties
import Mathlib.Data.List.Perm.Basic

/-! The options of the command line. Every option is put into the tree as it comes, and an option is
refused if there is a node for its key, whether or not it has been given. -/
namespace FMITerminalBlock.Base.ApplicationContext

def propProgramName : StdString := ascii "app.name"

/-- The configuration of a new context. -/
def newConfig : Ptree := Ptree.put (.node [] []) propProgramName (ascii "not set")

/-- An option is split at its first equals sign. -/
def addCommandlineOption (config : Ptree) (opt : StdString) : Except InvalidArgument Ptree :=
  match opt.findIdx? (· == 61) with
  | none => .error { what := "The program option nr. %1% (\"%2%\") doesn't contain an = sign" }
  | some 0 => .error { what := "The program option nr. %1% (\"%2%\") doesn't contain a key" }
  | some pos => addProperty config (opt.take pos, opt.drop (pos + 1))

/-- The options alone. -/
def addCommandlineProperties (config : Ptree) (args : List StdString) : Except InvalidArgument Ptree :=
  args.foldlM addCommandlineOption config

/-- The argument vector of a program, which begins with its name. Entries may be null pointers. -/
def addCommandlineArguments (config : Ptree) : List (Option StdString) → Except InvalidArgument Ptree
  | some name :: argv => argv.foldlM (fun config arg =>
      match arg with
      | some opt => addCommandlineOption config opt
      | none => .error { what := "Program option nr. %1$ contains an invalid reference" })
      (config.put propProgramName name)
  | _ => .error { what := "The program name is not set" }

/-- The two ways to hand options to a new context. -/
inductive Overload where
  | vector
  | arguments (name : StdString)

def Overload.add : Overload → List StdString → Except InvalidArgument Ptree
  | .vector, options => addCommandlineProperties newConfig options
  | .arguments name, options => addCommandlineArguments newConfig (some name :: options.map some)

/-! ### Keys and values -/

/-- The option gives the value to the key. -/
def IsAssignment (opt : StdString) (pair : StdString × StdString) : Prop :=
  opt = pair.1 ++ 61 :: pair.2 ∧ pair.1 ≠ [] ∧ 61 ∉ pair.1

theorem findIdx?_eq_none {text : StdString} (h : 61 ∉ text) : text.findIdx? (· == 61) = none := by
  rw [List.findIdx?_eq_none_iff]
  intro c hc
  exact beq_false_of_ne fun heq => h (heq ▸ hc)

theorem findIdx?_assignment {key : StdString} (hkey : 61 ∉ key) (value : StdString) :
    (key ++ 61 :: value).findIdx? (· == 61) = some key.length := by
  rw [List.findIdx?_append, findIdx?_eq_none hkey, Option.none_or, List.findIdx?_cons]
  simp

theorem IsAssignment.unique {opt : StdString} {pair pair' : StdString × StdString} (h : IsAssignment opt pair)
    (h' : IsAssignment opt pair') : pair = pair' := by
  obtain ⟨rfl, -, hkey⟩ := h
  obtain ⟨heq, -, hkey'⟩ := h'
  have hlength := findIdx?_assignment hkey pair.2
  rw [heq, findIdx?_assignment hkey', Option.some.injEq] at hlength
  obtain ⟨hfirst, hsecond⟩ := List.append_inj heq hlength.symm
  exact Prod.ext hfirst (List.cons.inj hsecond).2

theorem addCommandlineOption_assignment (config : Ptree) {opt : StdString} {pair : StdString × StdString}
    (h : IsAssignment opt pair) : addCommandlineOption config opt = addProperty config pair := by
  obtain ⟨key, value⟩ := pair
  obtain ⟨rfl, hne, hkey⟩ := h
  have hsplit : ((key ++ 61 :: value).take key.length, (key ++ 61 :: value).drop (key.length + 1)) = (key, value) := by
    rw [List.take_left, List.drop_append, List.drop_of_length_le (Nat.le_succ _), Nat.add_sub_cancel_left]
    rfl
  rw [addCommandlineOption, findIdx?_assignment hkey]
  obtain ⟨c, rest, rfl⟩ := List.exists_cons_of_ne_nil hne
  exact congrArg (addProperty config) hsplit

theorem exists_assignment {config config' : Ptree} {opt : StdString}
    (h : addCommandlineOption config opt = .ok config') : ∃ pair, IsAssignment opt pair := by
  rw [addCommandlineOption] at h
  by_cases hsign : 61 ∈ opt
  · obtain ⟨key, value, rfl, hkey⟩ := List.eq_append_cons_of_mem hsign
    refine ⟨(key, value), rfl, ?_, hkey⟩
    rintro rfl
    rw [findIdx?_assignment hkey] at h
    cases h
  · rw [findIdx?_eq_none hsign] at h
    cases h

/-- An option is added as the key and the value it assigns. -/
theorem addCommandlineOption_eq_ok {config config' : Ptree} {opt : StdString} :
    addCommandlineOption config opt = .ok config' ↔
      ∃ pair, IsAssignment opt pair ∧ addProperty config pair = .ok config' := by
  constructor
  · intro h
    obtain ⟨pair, hpair⟩ := exists_assignment h
    rw [addCommandlineOption_assignment config hpair] at h
    exact ⟨pair, hpair, h⟩
  · rintro ⟨pair, hpair, h⟩
    rwa [addCommandlineOption_assignment config hpair]

/-- The options are added as what they assign, one after the other. -/
theorem addCommandlineProperties_eq_ok {config config' : Ptree} {options : List StdString} :
    addCommandlineProperties config options = .ok config' ↔
      ∃ pairs, List.Forall₂ IsAssignment options pairs ∧ addProperties config pairs = .ok config' := by
  induction options generalizing config with
  | nil =>
    constructor
    · intro h
      exact ⟨[], .nil, h⟩
    · rintro ⟨_, hpairs, h⟩
      cases hpairs
      exact h
  | cons opt options ih =>
    rw [addCommandlineProperties, List.foldlM_cons, Fallible.bind_eq_ok]
    constructor
    · rintro ⟨next, hnext, h⟩
      obtain ⟨pair, hpair, hadd⟩ := addCommandlineOption_eq_ok.mp hnext
      obtain ⟨pairs, hpairs, h⟩ := ih.mp h
      exact ⟨pair :: pairs, .cons hpair hpairs, Fallible.bind_eq_ok.mpr ⟨next, hadd, h⟩⟩
    · rintro ⟨_, hpairs, h⟩
      cases hpairs with
      | cons hpair hpairs =>
        obtain ⟨next, hadd, h⟩ := Fallible.bind_eq_ok.mp h
        exact ⟨next, addCommandlineOption_eq_ok.mpr ⟨_, hpair, hadd⟩, ih.mpr ⟨_, hpairs, h⟩⟩

/-! ### Nodes -/

theorem isSome_walk_putAt (value : StdString) (keys path : List StdString) (t : Ptree) :
    ((Ptree.putAt value keys t).walk path).isSome ↔ path <+: keys ∨ (t.walk path).isSome := by
  by_cases hprefix : path <+: keys
  · obtain ⟨rest, rfl⟩ := hprefix
    rw [Ptree.walk_putAt]
    exact iff_of_true rfl (.inl (List.prefix_append _ _))
  · rw [Ptree.walk_putAt_of_not_isPrefix value t hprefix]
    exact (or_iff_right hprefix).symm

theorem hasProperty_put (config : Ptree) (key value other : StdString) :
    hasProperty (config.put key value) other ↔
      Ptree.splitPath other <+: Ptree.splitPath key ∨ hasProperty config other :=
  isSome_walk_putAt value (Ptree.splitPath key) (Ptree.splitPath other) config

theorem hasProperty_empty (key : StdString) : hasProperty (.node [] []) key ↔ Ptree.splitPath key = [] := by
  rw [hasProperty, Ptree.getChildOptional]
  cases Ptree.splitPath key with
  | nil => exact iff_of_true rfl rfl
  | cons part parts => exact iff_of_false (fun h => by cases h) (List.cons_ne_nil _ _)

/-- Only the nodes on the way to the preset key are there. -/
theorem hasProperty_newConfig (key : StdString) :
    hasProperty newConfig key ↔ Ptree.splitPath key <+: Ptree.splitPath propProgramName := by
  rw [newConfig, hasProperty_put, hasProperty_empty, or_iff_left_of_imp]
  intro hnil
  rw [hnil]
  exact List.nil_prefix

theorem splitPath_injective {key other : StdString} (h : Ptree.splitPath key = Ptree.splitPath other) :
    key = other := by
  have hjoin (name : StdString) : [46].intercalate (Ptree.splitPath name) = name := by
    rw [Ptree.splitPath]
    split
    · rename_i hempty
      rw [hempty]
      rfl
    · exact List.intercalate_splitOn 46
  rw [← hjoin key, h, hjoin other]

/-- Properties are added if there is no node for any of them, and if no earlier one makes a node for a later one. -/
theorem exists_addProperties {config : Ptree} {pairs : List (StdString × StdString)} :
    (∃ config', addProperties config pairs = .ok config') ↔
      (∀ pair ∈ pairs, ¬hasProperty config pair.1) ∧
      pairs.Pairwise fun earlier later => ¬Ptree.splitPath later.1 <+: Ptree.splitPath earlier.1 := by
  induction pairs generalizing config with
  | nil => exact iff_of_true ⟨config, rfl⟩ ⟨List.forall_mem_nil _, .nil⟩
  | cons pair pairs ih =>
    rw [List.forall_mem_cons, List.pairwise_cons, addProperties, List.foldlM_cons, addProperty]
    by_cases hnode : hasProperty config pair.1 = true
    · rw [if_pos hnode]
      refine iff_of_false ?_ fun h => h.1.1 hnode
      rintro ⟨_, h⟩
      cases h
    · rw [if_neg hnode]
      refine (@ih (config.put pair.1 pair.2)).trans ?_
      simp only [hasProperty_put, not_or, forall_and]
      constructor
      · rintro ⟨⟨hearlier, hnodes⟩, hpairs⟩
        exact ⟨⟨hnode, hnodes⟩, hearlier, hpairs⟩
      · rintro ⟨⟨-, hnodes⟩, hearlier, hpairs⟩
        exact ⟨⟨hearlier, hnodes⟩, hpairs⟩

/-! ### Values -/

/-- A node keeps its value when another property is put, even below the node. -/
theorem data_put_of_ne {config : Ptree} {key other : StdString} (hne : other ≠ key)
    (hnode : hasProperty config key = true) (value : StdString) :
    ((config.put other value).getChildOptional key).map Ptree.data =
      (config.getChildOptional key).map Ptree.data := by
  obtain ⟨node, hnode⟩ := Option.isSome_iff_exists.mp hnode
  rw [Ptree.getChildOptional] at hnode ⊢
  rw [Ptree.put, Ptree.getChildOptional]
  by_cases hprefix : Ptree.splitPath key <+: Ptree.splitPath other
  · obtain ⟨rest, hrest⟩ := hprefix
    cases rest with
    | nil =>
      rw [List.append_nil] at hrest
      exact absurd (splitPath_injective hrest.symm) hne
    | cons part parts =>
      rw [← hrest, Ptree.walk_putAt, hnode]
      rfl
  · rw [Ptree.walk_putAt_of_not_isPrefix value config hprefix]

theorem addProperties_keeps {config config' : Ptree} {pairs : List (StdString × StdString)}
    (h : addProperties config pairs = .ok config') {key value : StdString}
    (hvalue : (config.getChildOptional key).map Ptree.data = some value) :
    (config'.getChildOptional key).map Ptree.data = some value := by
  induction pairs generalizing config with
  | nil =>
    cases h
    exact hvalue
  | cons pair pairs ih =>
    obtain ⟨next, hnext, h⟩ := Fallible.bind_eq_ok.mp h
    rw [addProperty] at hnext
    split at hnext
    · cases hnext
    · rename_i hfree
      cases hnext
      apply ih h
      have hnode : hasProperty config key = true := by
        rw [hasProperty, ← Option.isSome_map (f := Ptree.data), hvalue]
        rfl
      have hne : pair.1 ≠ key := by
        intro heq
        rw [heq] at hfree
        exact hfree hnode
      rw [data_put_of_ne hne hnode, hvalue]

theorem addProperties_get {config config' : Ptree} {pairs : List (StdString × StdString)}
    (h : addProperties config pairs = .ok config') :
    ∀ pair ∈ pairs, getProperty some config' pair.1 = .ok pair.2 := by
  have hdata : ∀ pair ∈ pairs, (config'.getChildOptional pair.1).map Ptree.data = some pair.2 := by
    induction pairs generalizing config with
    | nil => exact List.forall_mem_nil _
    | cons pair pairs ih =>
      obtain ⟨next, hnext, h⟩ := Fallible.bind_eq_ok.mp h
      refine List.forall_mem_cons.mpr ⟨addProperties_keeps h ?_, ih h⟩
      rw [addProperty] at hnext
      split at hnext
      · cases hnext
      · cases hnext
        rw [Ptree.put, Ptree.getChildOptional]
        have hwalk := Ptree.walk_putAt pair.2 (Ptree.splitPath pair.1) [] config
        rw [List.append_nil] at hwalk
        rw [hwalk]
        rfl
  intro pair hpair
  obtain ⟨node, hnode, hvalue⟩ := Option.map_eq_some_iff.mp (hdata pair hpair)
  rw [getProperty, hnode, Option.bind_some, hvalue]

/-! ### The order of the options -/

/-- Every option has a key and an equals sign, and no key is given twice or preset. -/
def Acceptable (options : List StdString) : Prop :=
  ∃ pairs, List.Forall₂ IsAssignment options pairs ∧ (pairs.map Prod.fst).Nodup ∧ propProgramName ∉ pairs.map Prod.fst

def Gives (options : List StdString) (key : StdString) : Prop :=
  ∃ opt ∈ options, ∃ value, IsAssignment opt (key, value)

/-- The path of a key begins the path of another key, or that of the preset one. -/
def Nested (options : List StdString) : Prop :=
  ∃ key below, Gives options key ∧ (Gives options below ∨ below = propProgramName) ∧ key ≠ below ∧
    Ptree.splitPath key <+: Ptree.splitPath below

/-- The options are accepted in every order or in none, they are accepted if they are acceptable, and then
all values are found. -/
structure OrderIrrelevant (overload : Overload) (options : List StdString) : Prop where
  reordered : ∀ other, options.Perm other → ((∃ config, overload.add other = .ok config) ↔
    ∃ config, overload.add options = .ok config)
  accepted : (∃ config, overload.add options = .ok config) ↔ Acceptable options
  found : ∀ config, overload.add options = .ok config → ∀ opt ∈ options, ∀ pair, IsAssignment opt pair →
    getProperty some config pair.1 = .ok pair.2

/-- The configuration before the first option. -/
def Overload.start : Overload → Ptree
  | .vector => newConfig
  | .arguments name => newConfig.put propProgramName name

theorem Overload.add_eq (overload : Overload) (options : List StdString) :
    overload.add options = addCommandlineProperties overload.start options := by
  cases overload with
  | vector => rfl
  | arguments name => exact List.foldlM_map

theorem Overload.hasProperty_start (overload : Overload) (key : StdString) :
    hasProperty overload.start key ↔ Ptree.splitPath key <+: Ptree.splitPath propProgramName := by
  cases overload with
  | vector => exact hasProperty_newConfig key
  | arguments name => rw [start, hasProperty_put, hasProperty_newConfig, or_self]

/-- What the code accepts. -/
theorem Overload.exists_add (overload : Overload) (options : List StdString) :
    (∃ config, overload.add options = .ok config) ↔ ∃ pairs, List.Forall₂ IsAssignment options pairs ∧
      (∀ pair ∈ pairs, ¬Ptree.splitPath pair.1 <+: Ptree.splitPath propProgramName) ∧
      pairs.Pairwise fun earlier later => ¬Ptree.splitPath later.1 <+: Ptree.splitPath earlier.1 := by
  simp only [overload.add_eq, addCommandlineProperties_eq_ok, ← overload.hasProperty_start]
  constructor
  · rintro ⟨config, pairs, hpairs, h⟩
    exact ⟨pairs, hpairs, exists_addProperties.mp ⟨config, h⟩⟩
  · rintro ⟨pairs, hpairs, h⟩
    obtain ⟨config, h⟩ := exists_addProperties.mpr h
    exact ⟨config, pairs, hpairs, h⟩

theorem gives_of_mem {options : List StdString} {pairs : List (StdString × StdString)}
    (hpairs : List.Forall₂ IsAssignment options pairs) {pair : StdString × StdString} (hpair : pair ∈ pairs) :
    Gives options pair.1 := by
  obtain ⟨opt, hopt, hassigned⟩ := Fallible.exists_of_mem_right hpairs hpair
  exact ⟨opt, hopt, pair.2, hassigned⟩

theorem mem_of_assigned {options : List StdString} {pairs : List (StdString × StdString)}
    (hpairs : List.Forall₂ IsAssignment options pairs) {opt : StdString} (hopt : opt ∈ options)
    {pair : StdString × StdString} (hpair : IsAssignment opt pair) : pair ∈ pairs := by
  obtain ⟨pair', hmem, hassigned⟩ := Fallible.exists_of_mem_left hpairs hopt
  rwa [hpair.unique hassigned]

theorem Acceptable.perm {options other : List StdString} (h : Acceptable options) (hperm : options.Perm other) :
    Acceptable other := by
  obtain ⟨pairs, hpairs, hnodup, hpreset⟩ := h
  obtain ⟨pairs', hpairs', hsame⟩ := List.perm_comp_forall₂ hperm.symm hpairs
  have hkeys := hsame.map Prod.fst
  exact ⟨pairs', hpairs', hkeys.nodup_iff.mpr hnodup, fun hmem => hpreset (hkeys.mem_iff.mp hmem)⟩

theorem Nested.perm {options other : List StdString} (h : Nested options) (hperm : options.Perm other) :
    Nested other := by
  have hgives {key : StdString} (hkey : Gives options key) : Gives other key := by
    obtain ⟨opt, hopt, hvalue⟩ := hkey
    exact ⟨opt, hperm.mem_iff.mp hopt, hvalue⟩
  obtain ⟨key, below, hkey, hbelow, hpath⟩ := h
  exact ⟨key, below, hgives hkey, hbelow.imp_left hgives, hpath⟩

/-- Nothing else is accepted. -/
theorem Overload.acceptable_of_add {overload : Overload} {options : List StdString}
    (h : ∃ config, overload.add options = .ok config) : Acceptable options := by
  obtain ⟨pairs, hpairs, hpreset, horder⟩ := (overload.exists_add options).mp h
  refine ⟨pairs, hpairs, List.pairwise_map.mpr (horder.imp ?_), ?_⟩
  · intro earlier later hpath heq
    rw [heq] at hpath
    exact hpath List.prefix_rfl
  · intro hmem
    obtain ⟨pair, hpair, heq⟩ := List.mem_map.mp hmem
    have hpath := hpreset pair hpair
    rw [heq] at hpath
    exact hpath List.prefix_rfl

/-- Side by side, keys do not stand in each other's way. -/
theorem Overload.add_of_not_nested (overload : Overload) {options : List StdString} (h : Acceptable options)
    (hflat : ¬Nested options) : ∃ config, overload.add options = .ok config := by
  obtain ⟨pairs, hpairs, hnodup, hpreset⟩ := h
  refine (overload.exists_add options).mpr ⟨pairs, hpairs, ?_, ?_⟩
  · intro pair hpair hpath
    refine hflat ⟨pair.1, _, gives_of_mem hpairs hpair, .inr rfl, ?_, hpath⟩
    intro heq
    exact hpreset (List.mem_map.mpr ⟨pair, hpair, heq⟩)
  · refine (List.pairwise_map.mp hnodup).imp_of_mem fun hearlier hlater hne hpath => ?_
    exact hflat ⟨_, _, gives_of_mem hpairs hlater, .inl (gives_of_mem hpairs hearlier), Ne.symm hne, hpath⟩

/-- With the longer key first, the node for the shorter one is there when it comes. -/
theorem Nested.exists_perm {options : List StdString} (h : Nested options) (overload : Overload) :
    ∃ other, options.Perm other ∧ ¬∃ config, overload.add other = .ok config := by
  obtain ⟨key, below, ⟨opt, hopt, value, hvalue⟩, hbelow, hne, hpath⟩ := h
  rcases hbelow with ⟨opt', hopt', value', hvalue'⟩ | rfl
  · have hopts : opt ≠ opt' := by
      rintro rfl
      exact hne (Prod.mk.inj (hvalue.unique hvalue')).1
    have hrest := List.perm_cons_erase ((List.mem_erase_of_ne hopts).mpr hopt)
    refine ⟨opt' :: opt :: (options.erase opt').erase opt, ?_, ?_⟩
    · exact (List.perm_cons_erase hopt').trans (hrest.cons opt')
    · intro hadd
      obtain ⟨pairs, hpairs, -, horder⟩ := (overload.exists_add _).mp hadd
      cases hpairs with
      | cons hfirst hpairs =>
        cases hpairs with
        | cons hsecond _ =>
          cases hfirst.unique hvalue'
          cases hsecond.unique hvalue
          exact (List.pairwise_cons.mp horder).1 _ List.mem_cons_self hpath
  · refine ⟨options, .refl _, fun hadd => ?_⟩
    obtain ⟨pairs, hpairs, hpreset, -⟩ := (overload.exists_add _).mp hadd
    exact hpreset _ (mem_of_assigned hpairs hopt hvalue) hpath

/-- The order of the options is irrelevant if and only if they are to be refused anyway or no key is
nested in another one or in the preset one. -/
theorem order_irrelevant_iff (overload : Overload) (options : List StdString) :
    OrderIrrelevant overload options ↔ ¬Acceptable options ∨ ¬Nested options := by
  constructor
  · intro h
    by_contra hboth
    obtain ⟨hacceptable, hnested⟩ := not_or.mp hboth
    obtain ⟨other, hperm, hrefused⟩ := (not_not.mp hnested).exists_perm overload
    exact hrefused ((h.reordered other hperm).mpr (h.accepted.mpr (not_not.mp hacceptable)))
  · intro hflat
    have haccepted {other : List StdString} (hperm : options.Perm other) :
        (∃ config, overload.add other = .ok config) ↔ Acceptable options := by
      refine ⟨fun h => (Overload.acceptable_of_add h).perm hperm.symm, fun h => ?_⟩
      have hside := hflat.resolve_left (not_not.mpr h)
      exact overload.add_of_not_nested (h.perm hperm) fun hnested => hside (hnested.perm hperm.symm)
    refine ⟨fun other hperm => (haccepted hperm).trans (haccepted (.refl _)).symm, haccepted (.refl _), ?_⟩
    intro config hadd opt hopt pair hpair
    rw [overload.add_eq, addCommandlineProperties_eq_ok] at hadd
    obtain ⟨pairs, hpairs, hadd⟩ := hadd
    exact addProperties_get hadd pair (mem_of_assigned hpairs hopt hpair)

/-- A port and its type: accepted in this order, and refused in the other one. -/
theorem order_of_options_matters :
    (∃ config, Overload.add .vector [ascii "in.0.0=u", ascii "in.0.0.type=0"] = .ok config) ∧
    (¬∃ config, Overload.add .vector [ascii "in.0.0.type=0", ascii "in.0.0=u"] = .ok config) ∧
    ¬OrderIrrelevant .vector [ascii "in.0.0=u", ascii "in.0.0.type=0"] := by
  have haccepted : ∃ config, Overload.add .vector [ascii "in.0.0=u", ascii "in.0.0.type=0"] = .ok config :=
    ⟨_, Fallible.eq_ok_get (by decide +kernel)⟩
  have hrefused : ¬∃ config, Overload.add .vector [ascii "in.0.0.type=0", ascii "in.0.0=u"] = .ok config := by
    rintro ⟨config, h⟩
    have hnone : (Overload.add .vector [ascii "in.0.0.type=0", ascii "in.0.0=u"]).toOption.isSome = false := by
      decide +kernel
    rw [h] at hnone
    cases hnone
  refine ⟨haccepted, hrefused, fun h => hrefused ?_⟩
  exact (h.reordered _ (.swap _ _ [])).mpr haccepted

end FMITerminalBlock.Base.ApplicationContext
