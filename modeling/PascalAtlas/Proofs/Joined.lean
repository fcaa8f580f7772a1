import PascalAtlas.Lowering
import PascalAtlas.Proofs.Inferred

/-!
# Forms and entities of the same class

The documents refer to one another by name only, and the two sides look a name up in different
places. A form looks for the class that a routine creates in the registry, by the end of a key; a
generator looks for the form's entity in the document of entities, from which some classes have been
left out. Both take the first that they find.

They find the **same class** (`LoweringOptions.form_agrees_with_entity`). Every key has a dot, so a
key ends in a dot and a plain name exactly if that name is its simple name (`simpleName_eq_iff`):
the two searches pass over the same entries.
-/

namespace PascalAtlas

/-- A key ends in a dot and a name **exactly if** the name is its simple name. -/
theorem simpleName_eq_iff {q name : Text} (hq : '.' ∈ q) (hname : '.' ∉ name) :
    simpleName q = name ↔ Text.endsWith q ('.' :: name) = true := by
  constructor
  · intro h
    obtain ⟨front, last, rfl, hlast⟩ := Text.exists_last hq
    rw [simpleName_qualified hlast] at h
    exact Text.endsWith_iff.2 ⟨front, by rw [h]⟩
  · intro h
    rw [simpleName_of_endsWith h]
    exact simpleName_qualified hname []

/-! ## The class that a name stands for -/

namespace Registry

variable {r : Registry} {name q : Text} {type : SemanticType}

theorem exists_suffixMatch? (h : r.suffixKey? name = some q) :
    ∃ type, r.suffixMatch? name = some (q, type) := by
  rw [← map_suffixMatch?] at h
  obtain ⟨entry, hentry, rfl⟩ := Option.map_eq_some_iff.1 h
  exact ⟨entry.2, hentry⟩

/-- What is found ends in the name, and nothing **before** it does. -/
theorem split_of_suffixMatch? {entry : Text × SemanticType} (h : r.suffixMatch? name = some entry) :
    Text.endsWith entry.1 ('.' :: name) = true
      ∧ ∃ before after, r.entries = before ++ entry :: after
        ∧ ∀ f ∈ before, Text.endsWith f.1 ('.' :: name) = false := by
  obtain ⟨hends, before, after, hentries, hbefore⟩ := List.find?_eq_some_iff_append.1 h
  exact ⟨hends, before, after, hentries, fun f hf => (Bool.not_eq_true' _).mp (hbefore f hf)⟩

/-- What is found by the end of its key is found as a class. -/
theorem findClass?_of_suffixMatch? (h : r.suffixMatch? name = some (q, type)) :
    r.findClass? name = some (q, type) := by
  rw [findClass?, h]

/-- The entry that is found is **the** entry of its key: an earlier one with the same key
would have been found. -/
theorem get?_of_suffixMatch? (h : r.suffixMatch? name = some (q, type)) : r.get? q = some type := by
  obtain ⟨hends, before, after, hentries, hbefore⟩ := split_of_suffixMatch? h
  have hfind : r.entries.find? (fun entry => entry.1 = q) = some (q, type) := by
    refine List.find?_eq_some_iff_append.2 ⟨decide_eq_true rfl, before, after, hentries,
      fun entry hentry => ?_⟩
    rw [Bool.not_eq_true', decide_eq_false_iff_not]
    intro hkey
    have hpassed := hbefore entry hentry
    rw [hkey, hends] at hpassed
    cases hpassed
  exact congrArg (Option.map (·.2)) hfind

/-- All that is registered is a **class**. -/
theorem exists_class_of_mem {us : List SourceUnit} {entry : Text × SemanticType}
    (h : entry ∈ (ofUnits us).entries) : ∃ name fields, entry.2 = .class_ name fields := by
  obtain ⟨u, -, c, -, rfl⟩ := exists_of_mem_registryEntries (Table.mem_of_mem_ofList h)
  exact ⟨_, _, rfl⟩

end Registry

namespace LoweringOptions

variable {o : LoweringOptions} {a : Analysis}

/-! ## The two searches -/

/-- A class that no exclusion is about becomes an **entity**. -/
theorem entity?_of_class {q name : Text} {fields : Table Text Text}
    (hkept : ∀ x ∈ o.exclusions, ¬ x <:+: q) :
    o.entity? (q, .class_ name fields) = some ⟨simpleName q, fields.entries.map o.field⟩ := by
  have hexcludes : o.excludes q = false := by
    refine List.any_eq_false.2 fun x hx hcontains => ?_
    exact hkept x hx (Text.contains_iff.1 hcontains)
  rw [entity?, hexcludes]
  rfl

/-- An entity has the simple name of its key. -/
theorem name_of_entity? {entry : Text × SemanticType} {e : Entity} (h : o.entity? entry = some e) :
    e.name = simpleName entry.1 := by
  rw [entity?] at h
  split at h
  next => cases h
  next =>
    obtain ⟨fields, -, rfl⟩ := Option.map_eq_some_iff.1 h
    rfl

/-- The document of entities finds **what the registry finds**, if that is an entity at all: a class
before it has another simple name. -/
theorem entity?_entities (hdots : ∀ q ∈ a.registry.keys, '.' ∈ q) {name : Text} (hname : '.' ∉ name)
    {entry : Text × SemanticType} (hmatch : a.registry.suffixMatch? name = some entry) {e : Entity}
    (he : o.entity? entry = some e) : (o.entities a).entity? name = some e := by
  obtain ⟨hends, before, after, hentries, hbefore⟩ := Registry.split_of_suffixMatch? hmatch
  have hdot : ∀ f ∈ before ++ entry :: after, '.' ∈ f.1 := by
    intro f hf
    exact hdots f.1 (List.mem_map_of_mem (hentries ▸ hf))
  have hfind : a.registry.entries.find? (fun f => (o.entity? f).any fun e => e.name = name)
      = some entry := by
    refine List.find?_eq_some_iff_append.2 ⟨?_, before, after, hentries, fun f hf => ?_⟩
    · rw [he, Option.any_some, name_of_entity? he]
      refine decide_eq_true ((simpleName_eq_iff (hdot entry ?_) hname).2 hends)
      exact List.mem_append_right _ (List.mem_cons_self ..)
    · rw [Bool.not_eq_true', Option.any_eq_false_iff_get]
      intro hsome
      refine decide_eq_false fun hsame => ?_
      -- An entity by this name comes from a key that the registry's search would have stopped at.
      rw [name_of_entity? (Option.some_get hsome).symm,
        simpleName_eq_iff (hdot f (List.mem_append_left _ hf)) hname] at hsame
      have hpassed := hbefore f hf
      rw [hsame] at hpassed
      cases hpassed
  rw [EntityDocument.entity?, entities, List.find?_filterMap, hfind]
  exact he

/-- The **form** of a routine that creates an object of a registered class first. -/
theorem form_of_suffixMatch? {p : Procedure} {created q name : Text} {fields : Table Text Text}
    (hcreated : p.effects.creates.head? = some created)
    (hmatch : a.registry.suffixMatch? created = some (q, .class_ name fields)) :
    o.form a p
      = ⟨simpleName q, (fields.entries.filter fun f => f.1 ∉ o.identityFields).map o.field⟩ := by
  rw [form, hcreated]
  simp only [Registry.findClass?_of_suffixMatch? hmatch, SemanticType.fields?, Option.map_some,
    Option.getD_some]
  congr 2
  refine List.filter_congr fun f _ => ?_
  by_cases hf : f.1 ∈ o.identityFields <;> simp [hf]

/-- **A form is about the entity that it names.** Let a routine of the user interface create an
object first whose class is known by a plain name, and let the first class of that name not be left
out of the entities. Then the routine's form names that class, the document of entities has under
this name the entity made of that very class, and the form has the fields of the entity in their
order, without those that are identities in the source. -/
theorem form_agrees_with_entity (o : LoweringOptions) (a : Analysis) {p : Procedure}
    {created q : Text} (hp : p ∈ a.analyze.procedures) (hui : p.effects.isUi = true)
    (hcreated : p.effects.creates.head? = some created) (hplain : '.' ∉ created)
    (hq : a.analyze.registry.suffixKey? created = some q) (hkept : ∀ x ∈ o.exclusions, ¬ x <:+: q) :
    let documents := o.documents a.analyze
    let action := o.uiAction a.analyze p
    action ∈ documents.ui.actions ∧ action.form.entity = created
      ∧ ∃ name fields entity, a.analyze.registry.get? q = some (.class_ name fields)
        ∧ documents.entities.entity? action.form.entity = some entity
        ∧ entity = ⟨created, fields.entries.map o.field⟩
        ∧ action.form.fields = (fields.entries.filter fun f => f.1 ∉ o.identityFields).map o.field
        ∧ action.form.fields.Sublist entity.fields := by
  have hregistry : a.analyze.registry = .ofUnits a.units := rfl
  have hdots : ∀ k ∈ a.analyze.registry.keys, '.' ∈ k :=
    fun k hk => Registry.dot_mem_of_mem_keys (hregistry ▸ hk)
  obtain ⟨type, hmatch⟩ := Registry.exists_suffixMatch? hq
  have hentry : (q, type) ∈ (Registry.ofUnits a.units).entries := List.mem_of_find?_eq_some hmatch
  obtain ⟨name, fields, rfl⟩ : ∃ name fields, type = .class_ name fields :=
    Registry.exists_class_of_mem hentry
  -- Both documents are given the simple name of the key, and that is the plain
  -- name it was found by.
  have hsimple : simpleName q = created := by
    have hmem : q ∈ a.analyze.registry.keys := List.mem_of_find?_eq_some hq
    exact (simpleName_eq_iff (hdots q hmem) hplain).2 (Registry.split_of_suffixMatch? hmatch).1
  have hform : (o.uiAction a.analyze p).form
      = ⟨created, (fields.entries.filter fun f => f.1 ∉ o.identityFields).map o.field⟩ := by
    rw [← hsimple]
    exact form_of_suffixMatch? hcreated hmatch
  have hentity : (o.entities a.analyze).entity? created
      = some ⟨created, fields.entries.map o.field⟩ := by
    refine entity?_entities hdots hplain hmatch ?_
    rw [entity?_of_class hkept, hsimple]
  refine ⟨List.mem_map_of_mem (List.mem_filter.2 ⟨hp, hui⟩), by rw [hform], name, fields, _,
    Registry.get?_of_suffixMatch? hmatch, ?_, rfl, by rw [hform], ?_⟩
  · rw [hform]
    exact hentity
  · rw [hform]
    exact List.filter_sublist.map _

/-- Two classes whose names end alike. -/
def sampleNamesakes : SourceUnit where
  name := "Model".toList
  classes := [
    { name := "OldTPerson".toList, fields := [⟨"Note".toList, "string".toList, {}⟩] },
    { name := "TPerson".toList
      fields := [⟨"cID".toList, "Integer".toList, {}⟩, ⟨"cFirstName".toList, "string".toList, {}⟩,
        ⟨"Born".toList, "TDateTime".toList, {}⟩] }]

/-- A class that comes too late to be meant by its plain name. -/
def sampleArchive : SourceUnit where
  name := "Archive".toList
  classes := [{ name := "TPerson".toList, fields := [⟨"Shelf".toList, "string".toList, {}⟩] }]

/-- A routine that makes an object and says so. -/
def sampleHandler : Routine where
  name := "SaveClick".toList
  hasBody := true
  body := "TPerson.Create; ShowMessage(Caption)".toList

/-- A unit of the user interface. -/
def sampleScreen : SourceUnit where
  name := "Screen".toList
  procedures := [sampleHandler]

/-- The units together, with the rules that always apply. -/
def sampleBatch : Analysis where
  units := [sampleNamesakes, sampleArchive, sampleScreen]

/-- The form of the routine is about the class `Model.TPerson`, and so is the
entity that it names. -/
theorem form_agrees_with_entity_sample :
    let a := sampleBatch.analyze
    let p := a.procedureFor ⟨sampleScreen, none, sampleHandler⟩
    let action := uiAction {} a p
    p ∈ a.procedures ∧ p.effects.isUi = true ∧ p.effects.creates.head? = some "TPerson".toList
      ∧ '.' ∉ "TPerson".toList
      ∧ a.registry.suffixKey? "TPerson".toList = some "Model.TPerson".toList
      ∧ (∀ x ∈ ({} : LoweringOptions).exclusions, ¬ x <:+: "Model.TPerson".toList)
      ∧ action.form.fields = [⟨"firstName".toList, "string".toList⟩, ⟨"born".toList, "date".toList⟩]
      ∧ action ∈ (documents {} a).ui.actions ∧ action.form.entity = "TPerson".toList
      ∧ ∃ name fields entity, a.registry.get? "Model.TPerson".toList = some (.class_ name fields)
        ∧ (documents {} a).entities.entity? action.form.entity = some entity
        ∧ entity = ⟨"TPerson".toList, fields.entries.map (field {})⟩
        ∧ action.form.fields
          = (fields.entries.filter fun f => f.1 ∉ ({} : LoweringOptions).identityFields).map
            (field {})
        ∧ action.form.fields.Sublist entity.fields := by
  have hp : sampleBatch.analyze.procedureFor ⟨sampleScreen, none, sampleHandler⟩
      ∈ sampleBatch.analyze.procedures := by
    decide +kernel
  have hui : (sampleBatch.analyze.procedureFor ⟨sampleScreen, none, sampleHandler⟩).effects.isUi
      = true := by
    decide +kernel
  have hcreated :
      (sampleBatch.analyze.procedureFor ⟨sampleScreen, none, sampleHandler⟩).effects.creates.head?
      = some "TPerson".toList := by
    decide +kernel
  have hq : sampleBatch.analyze.registry.suffixKey? "TPerson".toList
      = some "Model.TPerson".toList := by
    decide +kernel
  have hkept : ∀ x ∈ ({} : LoweringOptions).exclusions,
    ¬ x <:+: "Model.TPerson".toList := by decide +kernel
  exact ⟨hp, hui, hcreated, by decide, hq, hkept, by decide +kernel,
    form_agrees_with_entity {} sampleBatch hp hui hcreated (by decide) hq hkept⟩

end LoweringOptions

end PascalAtlas
