import Mathlib.Data.List.Find
import PascalAtlas.Analysis
import PascalAtlas.Proofs.Insertion
import PascalAtlas.Proofs.Neighbour
import PascalAtlas.Proofs.ParamList

/-!
# The classes of a batch

A class is registered under the name of its unit and its own name, with a dot between them. As long
as no class has a dot in its name, that name is what follows the last dot of the key
(`simpleName_qualified`). So the keys alone say which classes there are, and a declared name, which
is looked up by the end of a key, can only mean classes whose name follows its own last dot
(`simpleName_of_endsWith`).

What a declared type stands for depends on the registry in one place: arrays are taken off first,
whatever the registry holds, and one name is left to be looked up among the keys
(`Registry.exists_nesting`). Two registries therefore resolve all types alike if they look up all
names alike, and where the keys of one go on with the keys of another, what was found before is
found again (`Registry.resolve_of_extends`).
-/

namespace PascalAtlas

/-! ## Qualified names -/

namespace Text

/-- A character that is in a text has a last place there. -/
theorem exists_last {t : Text} {c : Char} (hc : c ∈ t) :
    ∃ front back, t = front ++ c :: back ∧ c ∉ back := by
  obtain ⟨back, rest, hreverse, hback⟩ := List.eq_append_cons_of_mem (List.mem_reverse.2 hc)
  refine ⟨rest.reverse, back.reverse, ?_, by simpa using hback⟩
  rw [← List.reverse_reverse t, hreverse]
  simp

/-- A character that is not in a text is none of its characters. -/
theorem beq_of_notMem {t : Text} {c : Char} (hc : c ∉ t) : ∀ d ∈ t, (d == c) = false := by
  intro d hd
  refine beq_eq_false_iff_ne.2 fun heq => hc ?_
  rwa [← heq]

/-- A text is cut at the **last** place of a character. -/
theorem cutAtLast?_append {back : Text} {c : Char} (hback : c ∉ back) (front : Text) :
    cutAtLast? (· == c) (front ++ c :: back) = some (front, back) := by
  have hreverse : c ∉ back.reverse := mt List.mem_reverse.1 hback
  rw [cutAtLast?, List.reverse_append, List.reverse_cons, List.append_assoc, List.singleton_append,
    cutAt?_append (beq_of_notMem hreverse) (beq_self_eq_true c)]
  simp

end Text

/-- The **simple name** is what follows the last dot. -/
theorem simpleName_qualified {name : Text} (hname : '.' ∉ name) (front : Text) :
    simpleName (front ++ '.' :: name) = name := by
  rw [simpleName, Text.cutAtLast?_append hname]

/-- Nothing before a dot matters for the simple name. -/
theorem simpleName_append {t : Text} (ht : '.' ∈ t) (front : Text) :
    simpleName (front ++ t) = simpleName t := by
  obtain ⟨middle, name, rfl, hname⟩ := Text.exists_last ht
  rw [← List.append_assoc, simpleName_qualified hname, simpleName_qualified hname]

/-- The test for an end says what it should. -/
theorem Text.endsWith_iff {t back : Text} : Text.endsWith t back = true ↔ back <:+ t := by
  rw [Text.endsWith, Text.dropSuffix?, Option.isSome_map, ← List.reverse_prefix]
  constructor
  · intro h
    obtain ⟨rest, hrest⟩ := Option.isSome_iff_exists.1 h
    exact ⟨rest, Token.dropPrefix?_eq_some hrest⟩
  · rintro ⟨rest, hrest⟩
    rw [← hrest, Token.dropPrefix?_append]
    rfl

/-- So does the search for a text inside another. -/
theorem Text.contains_iff {t needle : Text} : Text.contains t needle = true ↔ needle <:+: t := by
  rw [Text.contains]
  induction t with
  | nil => simp [Text.cut?]
  | cons c cs ih =>
    rw [Text.cut?, List.infix_cons_iff]
    cases hdrop : Text.dropPrefix? needle (c :: cs) with
    | some rest =>
      refine iff_of_true rfl (.inl ⟨rest, ?_⟩)
      exact Token.dropPrefix?_eq_some hdrop
    | none =>
      have hfront : ¬ needle <+: c :: cs := by
        rintro ⟨rest, hrest⟩
        rw [← hrest, Token.dropPrefix?_append] at hdrop
        cases hdrop
      rw [Option.isSome_map, ih, or_iff_right hfront]

/-- All texts that end in a dot and a name have the **same simple name**. -/
theorem simpleName_of_endsWith {q name : Text} (h : Text.endsWith q ('.' :: name) = true) :
    simpleName q = simpleName ('.' :: name) := by
  obtain ⟨front, rfl⟩ := Text.endsWith_iff.1 h
  exact simpleName_append (List.mem_cons_self ..) front

/-- No type of the language has a dot in its name. -/
theorem dot_notMem_of_isBuiltin {name : Text} (h : SemanticType.isBuiltin name = true) :
    '.' ∉ name := by
  obtain ⟨builtin, hbuiltin, heq⟩ := List.any_eq_true.1 h
  have hlower : Text.lower name = Text.lower builtin := beq_iff_eq.1 heq
  intro hdot
  have hmem : '.' ∈ Text.lower builtin := hlower ▸ List.mem_map.2 ⟨'.', hdot, rfl⟩
  exact (by decide : ∀ b ∈ SemanticType.builtins, '.' ∉ Text.lower b) builtin hbuiltin hmem

/-! ## Resolving types -/

namespace SemanticType

/-- The type of the items of an array of arrays, **all the way in**. -/
def element : SemanticType → SemanticType
  | .array t => t.element
  | t => t

/-- Arrays of arrays have the same elements. -/
theorem element_iterate (n : Nat) (t : SemanticType) : (array^[n] t).element = t.element := by
  induction n with
  | zero => rfl
  | succ n ih => rw [Function.iterate_succ_apply', element, ih]

end SemanticType

namespace Registry

variable {r r' : Registry} {name : Text}

/-- The first key that ends in a dot and a name. -/
def suffixKey? (r : Registry) (name : Text) : Option Text :=
  r.keys.find? fun q => Text.endsWith q ('.' :: name)

/-- A search by the end of a key finds a key. -/
theorem map_suffixMatch? (r : Registry) (name : Text) :
    (r.suffixMatch? name).map (·.1) = r.suffixKey? name := by
  rw [suffixKey?, Table.keys, List.find?_map]
  rfl

/-- A name that is found means the class under that key. -/
theorem resolveName_of_some {q : Text} (h : r.suffixKey? name = some q) :
    r.resolveName name = .named q := by
  rw [← map_suffixMatch?] at h
  obtain ⟨entry, hmatch, rfl⟩ := Option.map_eq_some_iff.1 h
  rw [resolveName, hmatch]

/-- A name that is not found is one of the language, or unresolved. -/
theorem resolveName_of_none (h : r.suffixKey? name = none) :
    r.resolveName name = if SemanticType.isBuiltin name then .named name else .unresolved name := by
  rw [← map_suffixMatch?] at h
  rw [resolveName, Option.map_eq_none_iff.1 h]

/-- What a name without arrays around it stands for. -/
def resolveElement (r : Registry) (name : Text) : SemanticType :=
  if name.isEmpty then .unresolved [] else r.resolveName name

/-- A type that is no array is looked up by its name. -/
theorem resolve_of_name {declared : Text} (h : arrayElement? (Text.trim declared) = none) :
    r.resolve declared = r.resolveElement (Text.trim declared) := by
  rw [resolve, resolveElement]
  split
  next => rfl
  next =>
    split
    next element helement =>
      rw [h] at helement
      cases helement
    next => rfl

/-- An array is resolved with its elements. -/
theorem resolve_of_array {declared element : Text}
    (h : arrayElement? (Text.trim declared) = some element) :
    r.resolve declared = .array (r.resolve element) := by
  have hne : (Text.trim declared).isEmpty = false := by
    refine Bool.eq_false_iff.2 fun hempty => ?_
    rw [List.isEmpty_iff.1 hempty] at h
    cases h
  rw [resolve]
  simp only [hne, Bool.false_eq_true, if_false]
  split
  next found hfound =>
    rw [h] at hfound
    rw [Option.some.inj hfound]
  next hnone =>
    rw [h] at hnone
    cases hnone

/-- **Arrays do not depend on the registry**: only the name inside them is looked up. There are at
most as many arrays as characters, because each one is taken off the text. -/
theorem exists_nesting (declared : Text) :
    ∃ n name, n ≤ declared.length ∧ ∀ r : Registry, r.resolve declared
      = SemanticType.array^[n] (r.resolveElement name) := by
  cases harray : arrayElement? (Text.trim declared) with
  | none => exact ⟨0, Text.trim declared, Nat.zero_le _, fun r => resolve_of_name harray⟩
  | some element =>
    have hlt : element.length < declared.length :=
      Nat.lt_of_lt_of_le (length_arrayElement? harray) (length_trim_le declared)
    obtain ⟨n, name, hn, hnested⟩ := exists_nesting element
    refine ⟨n + 1, name, by omega, fun r => ?_⟩
    rw [Function.iterate_succ_apply', ← hnested r]
    exact resolve_of_array harray
termination_by declared.length

/-- Registries that **look up all names alike** resolve all types alike. -/
theorem resolve_congr (h : ∀ name, r'.suffixKey? name = r.suffixKey? name) (declared : Text) :
    r'.resolve declared = r.resolve declared := by
  obtain ⟨n, name, -, hnested⟩ := exists_nesting declared
  have hname : r'.resolveName name = r.resolveName name := by
    cases hkey : r.suffixKey? name with
    | none => rw [resolveName_of_none hkey, resolveName_of_none ((h name).trans hkey)]
    | some q => rw [resolveName_of_some hkey, resolveName_of_some ((h name).trans hkey)]
  rw [hnested r', hnested r, resolveElement, resolveElement, hname]

/-- A type that is a class of the registry, or an array **of such**. -/
def HasClass (r : Registry) (t : SemanticType) : Prop :=
  ∃ q ∈ r.keys, t.element = .named q

/-- A name that stands for a class was found among the keys: a type of the language has no
dot, and a key has one. -/
theorem exists_suffixKey?_of_hasClass (hdots : ∀ q ∈ r.keys, '.' ∈ q)
    (h : r.HasClass (r.resolveElement name)) :
    name.isEmpty = false ∧ ∃ q, r.suffixKey? name = some q := by
  obtain ⟨q, hq, helement⟩ := h
  rw [resolveElement] at helement
  cases hempty : name.isEmpty with
  | true =>
    rw [hempty] at helement
    cases helement
  | false =>
    refine ⟨rfl, ?_⟩
    cases hkey : r.suffixKey? name with
    | some q => exact ⟨q, rfl⟩
    | none =>
      rw [hempty, resolveName_of_none hkey, if_neg Bool.false_ne_true] at helement
      split at helement
      next hbuiltin =>
        -- The name of a type of the language would be a key.
        obtain rfl : name = q := SemanticType.named.inj helement
        exact absurd (hdots name hq) (dot_notMem_of_isBuiltin hbuiltin)
      next => cases helement

/-- Keys that **come later** do not change what a type stands for once it is a class. -/
theorem resolve_of_extends (hkeys : r.keys <+: r'.keys) (hdots : ∀ q ∈ r.keys, '.' ∈ q)
    {declared : Text} (h : r.HasClass (r.resolve declared)) :
    r'.resolve declared = r.resolve declared := by
  obtain ⟨n, name, -, hnested⟩ := exists_nesting declared
  have hclass : r.HasClass (r.resolveElement name) := by
    obtain ⟨q, hq, helement⟩ := h
    rw [hnested, SemanticType.element_iterate] at helement
    exact ⟨q, hq, helement⟩
  obtain ⟨hempty, q, hq⟩ := exists_suffixKey?_of_hasClass hdots hclass
  have hq' : r'.suffixKey? name = some q := hkeys.find?_eq_some hq
  rw [hnested r', hnested r, resolveElement, resolveElement, hempty, resolveName_of_some hq,
    resolveName_of_some hq']

/-- Where no two keys have the same simple name, their **order** does not matter
for looking up a name. -/
theorem suffixKey?_of_perm (hkeys : r.keys.Perm r'.keys)
    (hdistinct : (r.keys.map simpleName).Nodup) (name : Text) :
    r'.suffixKey? name = r.suffixKey? name := by
  refine (List.find?_eq_find?_of_perm hkeys ?_).symm
  -- Two keys that end in the name would have the same simple name.
  rintro q ⟨hq, hends⟩ q' ⟨hq', hends'⟩
  refine List.inj_on_of_nodup_map hdistinct hq hq' ?_
  rw [simpleName_of_endsWith hends, simpleName_of_endsWith hends']

end Registry

/-! ## The registry of some units -/

open Analysis (registryEntry)

/-- What the classes of some units are registered as, in the order of the units. -/
def registryEntries (us : List SourceUnit) : List (Text × SemanticType) :=
  us.flatMap fun u => u.classes.map (registryEntry u)

/-- The **registry** of some units. -/
def Registry.ofUnits (us : List SourceUnit) : Registry :=
  .ofList (registryEntries us)

/-- The names of the classes of some units. -/
def declaredClasses (us : List SourceUnit) : List Text :=
  us.flatMap fun u => u.classes.map ClassDecl.name

/-- Every entry comes from a class of some unit. -/
theorem exists_of_mem_registryEntries {us : List SourceUnit} {entry : Text × SemanticType}
    (h : entry ∈ registryEntries us) : ∃ u ∈ us, ∃ c ∈ u.classes, registryEntry u c = entry := by
  obtain ⟨u, hu, hentry⟩ := List.mem_flatMap.1 h
  exact ⟨u, hu, List.mem_map.1 hentry⟩

/-- Its key has the names of the unit and the class, with a dot between. -/
theorem key_registryEntry (u : SourceUnit) (c : ClassDecl) :
    (registryEntry u c).1 = u.name ++ '.' :: c.name :=
  List.append_assoc ..

/-- What follows the last dot is **the name of the class**. -/
theorem simpleName_registryEntry {c : ClassDecl} (hc : '.' ∉ c.name) (u : SourceUnit) :
    simpleName (registryEntry u c).1 = c.name := by
  rw [key_registryEntry, simpleName_qualified hc]

namespace Registry

/-- The keys of the registry are those of its entries, each once. -/
theorem keys_ofUnits (us : List SourceUnit) :
    (ofUnits us).keys = OrderedSet.ofList ((registryEntries us).map (·.1)) :=
  Table.keys_ofList _

/-- Every key has a dot. -/
theorem dot_mem_of_mem_keys {us : List SourceUnit} {q : Text} (hq : q ∈ (ofUnits us).keys) :
    '.' ∈ q := by
  rw [keys_ofUnits, OrderedSet.mem_ofList] at hq
  obtain ⟨entry, hentry, rfl⟩ := List.mem_map.1 hq
  obtain ⟨u, -, c, -, rfl⟩ := exists_of_mem_registryEntries hentry
  rw [key_registryEntry]
  exact List.mem_append_right _ (List.mem_cons_self ..)

/-- Units that are added at the end add their keys **at the end**. -/
theorem keys_ofUnits_extends (us more : List SourceUnit) :
    (ofUnits us).keys <+: (ofUnits (us ++ more)).keys := by
  rw [keys_ofUnits, keys_ofUnits, registryEntries, registryEntries, List.flatMap_append,
    List.map_append]
  exact OrderedSet.ofList_extends (List.prefix_append _ _)

end Registry

/-- Units none of whose classes has a **dot** in its name. -/
def PlainClasses (us : List SourceUnit) : Prop :=
  ∀ u ∈ us, ∀ c ∈ u.classes, '.' ∉ c.name

instance (us : List SourceUnit) : Decidable (PlainClasses us) :=
  inferInstanceAs (Decidable (∀ u ∈ us, ∀ c ∈ u.classes, '.' ∉ c.name))

section PlainClasses

variable {us vs : List SourceUnit}

/-- The **classes** that are registered can be read off the keys. -/
theorem classNames_ofUnits (h : PlainClasses us) {a : Analysis} (ha : a.registry = .ofUnits us) :
    a.classNames = OrderedSet.ofList (a.registry.keys.map simpleName) := by
  rw [Analysis.classNames, Table.values, Table.keys, List.filterMap_map, List.map_map,
    ← List.filterMap_eq_map]
  congr 1
  refine List.filterMap_congr fun entry hentry => ?_
  -- An entry may have been replaced, but by one with the same key, and so by a class
  -- with the same name.
  rw [ha] at hentry
  obtain ⟨u, hu, c, hc, rfl⟩ := exists_of_mem_registryEntries (Table.mem_of_mem_ofList hentry)
  simp only [Function.comp_apply, simpleName_registryEntry (h u hu c hc)]
  rfl

theorem map_simpleName_registryEntries (h : PlainClasses us) :
    ((registryEntries us).map (·.1)).map simpleName = declaredClasses us := by
  rw [registryEntries, declaredClasses, List.map_map, List.map_flatMap]
  refine List.flatMap_congr fun u hu => ?_
  rw [List.map_map]
  exact List.map_congr_left fun c hc => simpleName_registryEntry (h u hu c hc) u

/-- Where all classes have **names of their own**, the registry is the list of the classes. -/
theorem entries_ofUnits (h : PlainClasses us) (hdistinct : (declaredClasses us).Nodup) :
    (Registry.ofUnits us).entries = registryEntries us := by
  refine Table.entries_ofList (List.Nodup.of_map simpleName ?_)
  rw [map_simpleName_registryEntries h]
  exact hdistinct

/-- If all classes differ, so do the simple names of the keys. -/
theorem keys_ofUnits_distinct (h : PlainClasses us) (hdistinct : (declaredClasses us).Nodup) :
    ((Registry.ofUnits us).keys.map simpleName).Nodup := by
  rw [Table.keys, entries_ofUnits h hdistinct, map_simpleName_registryEntries h]
  exact hdistinct

/-! ## Units in another order -/

theorem PlainClasses.of_perm (hperm : us.Perm vs) (h : PlainClasses us) : PlainClasses vs :=
  fun v hv => h v (hperm.mem_iff.2 hv)

/-- Another order of the units is another order of the keys. -/
theorem keys_ofUnits_perm (hperm : us.Perm vs) :
    (Registry.ofUnits us).keys.Perm (Registry.ofUnits vs).keys := by
  rw [Registry.keys_ofUnits, Registry.keys_ofUnits]
  exact OrderedSet.ofList_perm ((hperm.flatMap_right _).map _)

/-- The entries come in the **order of the units**, if all classes have names of their own. -/
theorem entries_ofUnits_perm (hperm : us.Perm vs) (h : PlainClasses us)
    (hdistinct : (declaredClasses us).Nodup) :
    (Registry.ofUnits us).entries.Perm (Registry.ofUnits vs).entries := by
  have hdistinct' : (declaredClasses vs).Nodup := (hperm.flatMap_right _).nodup_iff.1 hdistinct
  rw [entries_ofUnits h hdistinct, entries_ofUnits (h.of_perm hperm) hdistinct']
  exact hperm.flatMap_right _

/-- The order of the units does **not matter for resolving** types, if all classes have
names of their own. -/
theorem resolve_ofUnits_perm (hperm : us.Perm vs) (h : PlainClasses us)
    (hdistinct : (declaredClasses us).Nodup) (declared : Text) :
    (Registry.ofUnits vs).resolve declared = (Registry.ofUnits us).resolve declared := by
  refine Registry.resolve_congr (fun name => ?_) declared
  exact Registry.suffixKey?_of_perm (keys_ofUnits_perm hperm)
    (keys_ofUnits_distinct h hdistinct) name

end PlainClasses

end PascalAtlas
