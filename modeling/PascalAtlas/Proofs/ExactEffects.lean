import Mathlib.Data.List.Infix
import PascalAtlas.Proofs.Classified

/-!
# Exactly which effects are found

The effects of a routine are sets in the order of insertion, filled from three sides: by the rules,
by the parameters of the routine, and by the names of the classes and routines of the batch. Which
item comes first decides what the documents say, so that a set is described by the list of what was
inserted: it has the items of that list, each once and in the order of their **first appearance**
(`OrderedSet.FirstsOf`), and this leaves one list only (`OrderedSet.firstsOf_iff`).

The names of the batch are themselves such a set before some of them are selected. Selecting
commutes with leaving out repetitions (`OrderedSet.filter_ofList`), so a name counts where the batch
has it first. What is inserted can then be said of the text of the body alone: which markers, and
which names with a bracket, a dot or `.Create` behind them, are somewhere in it (`Procedure.Exact`).
-/

namespace PascalAtlas

/-! ## First appearances -/

namespace OrderedSet

variable {α : Type} [DecidableEq α]

/-- A list has the items of another one, **each once and in the order of their
first appearance**. -/
structure FirstsOf (firsts items : List α) : Prop where
  nodup : firsts.Nodup
  mem_iff : ∀ x, x ∈ firsts ↔ x ∈ items
  ordered : firsts.Pairwise fun x y => items.idxOf x < items.idxOf y

/-- The items stand in the order in which each **first** appears. -/
theorem ordered_ofList (items : List α) :
    (ofList items).Pairwise fun x y => items.idxOf x < items.idxOf y := by
  induction items using List.reverseRecOn with
  | nil => exact .nil
  | append_singleton items item ih =>
    -- One more item at the end moves no first appearance.
    have hplace {x : α} (hx : x ∈ ofList items) : (items ++ [item]).idxOf x = items.idxOf x :=
      List.idxOf_append_of_mem (mem_ofList.1 hx)
    have hbefore : (ofList items).Pairwise fun x y => (items ++ [item]).idxOf x
        < (items ++ [item]).idxOf y :=
      ih.imp_of_mem fun hx hy hlt => by rwa [hplace hx, hplace hy]
    rw [ofList_concat, insert]
    split
    next => exact hbefore
    next hitem =>
      rw [List.pairwise_append]
      refine ⟨hbefore, List.pairwise_singleton _ _, fun x hx y hy => ?_⟩
      obtain rfl := List.mem_singleton.1 hy
      rw [hplace hx, List.idxOf_append_of_notMem (mt mem_ofList.2 hitem)]
      have hlt := List.idxOf_lt_length_of_mem (mem_ofList.1 hx)
      omega

/-- There is **one list** of first appearances, and it is the set of the items. -/
theorem firstsOf_iff {firsts items : List α} : FirstsOf firsts items ↔ firsts = ofList items := by
  constructor
  · intro h
    have hperm : firsts.Perm (ofList items) := by
      apply (List.perm_ext_iff_of_nodup h.nodup (nodup_ofList items)).2
      intro x
      rw [h.mem_iff, mem_ofList]
    apply hperm.eq_of_pairwise _ h.ordered (ordered_ofList items)
    intro x y _ _ hxy hyx
    omega
  · rintro rfl
    exact ⟨nodup_ofList items, fun x => mem_ofList, ordered_ofList items⟩

/-- Selecting commutes with **leaving out repetitions**. -/
theorem filter_ofList (p : α → Bool) (items : List α) :
    (ofList items).filter p = ofList (items.filter p) := by
  induction items using List.reverseRecOn with
  | nil => rfl
  | append_singleton items item ih =>
    rw [ofList_concat, List.filter_append, insert]
    by_cases hp : p item = true
    · -- An item that is selected is there already before selecting if and only if it
      -- is there behind it.
      rw [List.filter_cons_of_pos hp, List.filter_nil, ofList_concat, insert, ← ih]
      by_cases hitem : item ∈ ofList items
      · rw [if_pos hitem, if_pos (List.mem_filter.2 ⟨hitem, hp⟩)]
      · rw [if_neg hitem, if_neg (fun h => hitem (List.mem_filter.1 h).1), List.filter_append,
          List.filter_cons_of_pos hp, List.filter_nil]
    · rw [List.filter_cons_of_neg hp, List.filter_nil, List.append_nil, ← ih]
      split
      · rfl
      · rw [List.filter_append, List.filter_cons_of_neg hp, List.filter_nil, List.append_nil]

/-- Where nothing comes twice there is nothing to leave out. -/
theorem ofList_of_nodup {items : List α} (h : items.Nodup) : ofList items = items := by
  induction items using List.reverseRecOn with
  | nil => rfl
  | append_singleton items item ih =>
    rw [← List.concat_eq_append, List.nodup_concat] at h
    rw [ofList_concat, ih h.2, insert, if_neg h.1]

/-- Repetitions among what is inserted do not matter. -/
theorem insertAll_ofList (items new : List α) :
    insertAll items (ofList new) = insertAll items new := by
  rw [insertAll_eq_append, insertAll_eq_append, filter_ofList, ofList_of_nodup (nodup_ofList _)]

theorem insertAll_of_ofList (items new : List α) :
    insertAll (ofList items) new = ofList (items ++ new) :=
  (List.foldl_append ..).symm

end OrderedSet

open OrderedSet (FirstsOf firstsOf_iff)

/-! ## What a body contains -/

/-- The search for a text decides whether it is somewhere inside. -/
theorem Text.contains_eq (t needle : Text) : Text.contains t needle = decide (needle <:+: t) := by
  rw [Bool.eq_iff_iff, Text.contains_iff, decide_eq_true_iff]

/-- A trigger **fires** on a body that has its marker, or one of its markers, somewhere in it. -/
def Trigger.Fires : Trigger → Text → Prop
  | .contains marker, body => marker <:+: body
  | .containsAny markers, body => ∃ marker ∈ markers, marker <:+: body

/-- The test of a trigger says whether it fires. -/
theorem Trigger.holds_iff (t : Trigger) (body : Text) : t.holds body = true ↔ t.Fires body := by
  cases t with
  | contains marker => exact Text.contains_iff
  | containsAny markers =>
    rw [holds, List.any_eq_true]
    exact exists_congr fun marker => and_congr_right fun _ => Text.contains_iff

instance (t : Trigger) (body : Text) : Decidable (t.Fires body) :=
  decidable_of_iff _ (t.holds_iff body)

/-- The effects of the rules that are **triggered** by a body, in the order of the rules. -/
def EffectRule.triggered (rules : List EffectRule) (body : Text) : List Effect :=
  (rules.filter fun rule => rule.trigger.Fires body).map EffectRule.effect

/-- The effects that the rules find are those whose triggers fire. -/
theorem EffectRule.found_eq_triggered (rules : List EffectRule) (body : Text) :
    found rules body = triggered rules body := by
  rw [found, triggered]
  congr 1
  refine List.filter_congr fun rule _ => ?_
  rw [Bool.eq_iff_iff, Trigger.holds_iff, decide_eq_true_iff]

/-- The name of a class type. -/
def SemanticType.className? : SemanticType → Option Text
  | .class_ name _ => some name
  | _ => none

/-- The names of the **registered classes**, in the order of the registry. -/
def Analysis.registered (a : Analysis) : List Text :=
  a.registry.values.filterMap SemanticType.className?

theorem Analysis.classNames_eq (a : Analysis) : a.classNames = OrderedSet.ofList a.registered :=
  rfl

/-! ## The effects of one routine -/

namespace Procedure

/-- The effects of a routine are exactly those that its body **shows** among
the names of a batch. -/
structure Exact (a : Analysis) (p : Procedure) : Prop where
  /-- The other routines whose name stands before a bracket, as they first appear
  among the routines. -/
  calls : FirstsOf p.effects.calls
    ((a.procedures.map Procedure.name).filter fun name => name ≠ p.name ∧ name ++ ['('] <:+: p.body)
  /-- The parameters whose name stands before a dot, in their order. -/
  reads : p.effects.reads
    = (p.parameters.keys.filter fun name => name ++ ['.'] <:+: p.body).map fun name =>
    name ++ ".*".toList
  /-- The resources of the triggered rules. -/
  writes : FirstsOf p.effects.writes
    ((EffectRule.triggered a.rules p.body).filterMap Effect.resource?)
  /-- The classes of the triggered rules, and behind them the registered classes whose
  constructor is named. -/
  creates : FirstsOf p.effects.creates
    ((EffectRule.triggered a.rules p.body).filterMap Effect.className?
      ++ a.registered.filter fun name => name ++ ".Create".toList <:+: p.body)
  isUi : p.effects.isUi = true ↔ ∃ rule ∈ a.rules, rule.effect = .markUi ∧ rule.trigger.Fires p.body

variable (rules : List EffectRule) {p : Procedure}

/-- A routine calls **the others whose names stand before a bracket** in its body. -/
theorem calls_infer (h : p.hasBody = true) (classes names : List Text) :
    (p.infer rules classes (OrderedSet.ofList names)).calls
      = OrderedSet.ofList (names.filter fun name => name ≠ p.name ∧ name ++ ['('] <:+: p.body) := by
  have hselect (items : List Text) : callsIn p.name items p.body
      = items.filter fun name => name ≠ p.name ∧ name ++ ['('] <:+: p.body := by
    refine List.filter_congr fun name _ => ?_
    rw [Text.contains_eq, Bool.decide_and]
  rw [infer, if_pos h]
  show OrderedSet.insertAll (Effects.applyRules rules p.body {}).calls _ = _
  rw [Effects.applyRules_eq, Effects.foldl_add, hselect, OrderedSet.filter_ofList,
    OrderedSet.insertAll_ofList]
  rfl

/-- It reads the parameters that stand before a dot. -/
theorem reads_infer (h : p.hasBody = true) (hkeys : p.parameters.keys.Nodup)
    (classes known : List Text) :
    (p.infer rules classes known).reads
      = (p.parameters.keys.filter fun name => name ++ ['.'] <:+: p.body).map fun name => name
        ++ ".*".toList := by
  have hselect : readsIn p.parameters.keys p.body
      = (p.parameters.keys.filter fun name => name ++ ['.'] <:+: p.body).map fun name => name
      ++ ".*".toList := by
    rw [readsIn]
    congr 1
    exact List.filter_congr fun name _ => Text.contains_eq ..
  rw [infer, if_pos h]
  show OrderedSet.insertAll (Effects.applyRules rules p.body {}).reads _ = _
  rw [Effects.applyRules_eq, Effects.foldl_add, hselect]
  -- The parameters have different names, and so have the tokens for them.
  apply OrderedSet.ofList_of_nodup
  exact (hkeys.filter _).map fun x y => List.append_cancel_right

/-- It creates the classes that the rules name, and behind them those whose constructor is
called. -/
theorem creates_infer (h : p.hasBody = true) (registered known : List Text) :
    (p.infer rules (OrderedSet.ofList registered) known).creates
      = OrderedSet.ofList ((EffectRule.triggered rules p.body).filterMap Effect.className?
          ++ registered.filter fun name => name ++ ".Create".toList <:+: p.body) := by
  have hselect (items : List Text) : createsIn items p.body
      = items.filter fun name => name ++ ".Create".toList <:+: p.body :=
    List.filter_congr fun name _ => Text.contains_eq ..
  rw [infer, if_pos h]
  show OrderedSet.insertAll (Effects.applyRules rules p.body {}).creates _ = _
  rw [Effects.applyRules_eq, Effects.foldl_add, EffectRule.found_eq_triggered, hselect,
    OrderedSet.filter_ofList, OrderedSet.insertAll_ofList, ← OrderedSet.insertAll_of_ofList]
  rfl

/-- Some rule marks the routine as one of the user interface. -/
theorem isUi_infer_iff (h : p.hasBody = true) (classes known : List Text) :
    (p.infer rules classes known).isUi = true
      ↔ ∃ rule ∈ rules, rule.effect = .markUi ∧ rule.trigger.Fires p.body := by
  rw [isUi_infer, h, Bool.true_and, List.contains_iff_mem, EffectRule.found_eq_triggered,
    EffectRule.triggered, List.mem_map]
  refine exists_congr fun rule => ?_
  rw [List.mem_filter, decide_eq_true_iff]
  exact and_assoc.trans (and_congr_right fun _ => and_comm)

end Procedure

/-! ## The effects in a batch -/

namespace Analysis

/-- Inferring effects finds **exactly** what the bodies show, if the parameters of
each routine differ. -/
theorem exact_inferEffects (a : Analysis) {p : Procedure} (hp : p ∈ a.inferEffects.procedures)
    (hkeys : p.parameters.keys.Nodup) (hbody : p.hasBody = true) : p.Exact a.inferEffects := by
  have hnames : a.inferEffects.procedures.map Procedure.name = a.procedures.map Procedure.name := by
    rw [inferEffects, List.map_map]
    rfl
  obtain ⟨q, hq, rfl⟩ := List.mem_map.1 hp
  refine ⟨?_, ?_, ?_, ?_, ?_⟩
  · rw [hnames, firstsOf_iff]
    exact Procedure.calls_infer a.rules hbody a.classNames (a.procedures.map Procedure.name)
  · exact Procedure.reads_infer a.rules hbody hkeys a.classNames a.procedureNames
  · rw [firstsOf_iff, OrderedSet.ofList_eq, ← EffectRule.found_eq_triggered]
    exact Procedure.writes_infer a.rules a.classNames a.procedureNames hbody
  · rw [firstsOf_iff]
    show (q.infer a.rules a.classNames a.procedureNames).creates = _
    rw [a.classNames_eq]
    exact Procedure.creates_infer a.rules hbody a.registered a.procedureNames
  · exact Procedure.isUi_infer_iff a.rules hbody a.classNames a.procedureNames

/-- The parameters of a routine are a table of what is declared. -/
theorem nodup_parameters (a : Analysis) {p : Procedure} (hp : p ∈ a.analyze.procedures) :
    p.parameters.keys.Nodup := by
  obtain ⟨q, hq, rfl⟩ := List.mem_map.1 hp
  rw [procedures_collected] at hq
  obtain ⟨d, -, rfl⟩ := List.mem_map.1 hq
  show (Table.keys (.ofList _)).Nodup
  rw [Table.keys_ofList]
  exact OrderedSet.nodup_ofList _

/-- **Effects are inferred exactly.** After a full analysis the effects of every routine with a
body are those that its body shows among the names of the batch, each in its order, and a routine
without a body has none. -/
theorem effects_exact (a : Analysis) {p : Procedure} (hp : p ∈ a.analyze.procedures) :
    (p.hasBody = true → p.Exact a.analyze) ∧ (p.hasBody = false → p.effects = {}) := by
  refine ⟨exact_inferEffects _ hp (a.nodup_parameters hp), fun hbody => ?_⟩
  obtain ⟨q, hq, rfl⟩ := List.mem_map.1 hp
  exact if_neg (by rw [show q.hasBody = false from hbody]; exact Bool.false_ne_true)

/-- A batch in which names are parts of one another. -/
def people : Analysis where
  units := [
    { name := "Shop".toList
      classes := [{ name := "TPersonList".toList }, { name := "TPerson".toList }]
      procedures := [
        { name := "DoAdd".toList },
        { name := "Add".toList },
        { name := "Fill".toList
          parameters := [⟨"list".toList, "TPersonList".toList⟩, ⟨"p".toList, "TPerson".toList⟩]
          hasBody := true
          body :=
    "list := TPersonList.Create; p := TPerson.Create; p.Save; mtPerson.Open; DoAdd(p)".toList }] }]

/-- The routine of the batch with a body. `TPerson` comes first because a rule finds it before the
registry does, `Add` is called because its name ends that of `DoAdd`, and `list` is not read. -/
def filling : Procedure where
  name := "Fill".toList
  unit := "Shop".toList
  owner := none
  kind := .procedure
  returnType := []
  parameters := ⟨[("list".toList, .named "Shop.TPersonList".toList),
    ("p".toList, .named "Shop.TPerson".toList)]⟩
  hasBody := true
  body := "list := TPersonList.Create; p := TPerson.Create; p.Save; mtPerson.Open; DoAdd(p)".toList
  effects :=
    { reads := ["p.*".toList]
      writes := ["Module.mtPerson".toList]
      creates := ["TPerson".toList, "TPersonList".toList]
      calls := ["DoAdd".toList, "Add".toList] }

theorem effects_exact_filling : filling.Exact people.analyze :=
  (effects_exact people (by decide +kernel)).1 rfl

end Analysis

end PascalAtlas
