import PascalAtlas.Config
import PascalAtlas.Proofs.Casing
import PascalAtlas.Proofs.ExactEffects
import PascalAtlas.Proofs.Fallible

/-!
# What settings can change

Settings are **admissible** if each of them can be used: the strategy has a name that is known, some
extension is left when blanks and dots are taken off, and no marker is empty. Exactly then there is
a configuration (`Config.exists_ofSettings_iff`), because every step of the way fails for one of
these reasons and for no other.

What such a configuration adds to the defaults has a simple form. Rules come behind the rules there
are, and a rule can only be triggered by a body with something in it, so that none of them applies
to every routine. Tables are **extended** (`Table.Extends`): keys come behind the keys there are, a
key that is given takes the value that was given last, and every other key keeps what it had.
-/

namespace PascalAtlas

/-! ## Extended tables -/

namespace Table

variable {α β : Type} [DecidableEq α]

/-- A key is looked up entry by entry. -/
theorem get?_cons (k : α) (v : β) (entries : List (α × β)) (key : α) :
    (Table.mk ((k, v) :: entries)).get? key = if key = k then some v
      else (Table.mk entries).get? key := by
  show (List.find? (fun e => decide (e.1 = key)) ((k, v) :: entries)).map (·.2) = _
  by_cases hk : key = k
  · rw [if_pos hk, List.find?_cons_of_pos (by simpa using hk.symm)]
    rfl
  · rw [if_neg hk, List.find?_cons_of_neg (by simpa using Ne.symm hk)]
    rfl

/-- A key that is set has **its new value**, and every other key keeps its own. -/
theorem get?_insert (t : Table α β) (key : α) (value : β) (k : α) :
    (t.insert key value).get? k = if k = key then some value else t.get? k := by
  obtain ⟨entries⟩ := t
  show (Table.mk (insertEntry key value entries)).get? k = _
  induction entries with
  | nil => rw [insertEntry, get?_cons]
  | cons entry entries ih =>
    obtain ⟨k', v⟩ := entry
    rw [insertEntry, get?_cons]
    by_cases hkey : k' = key
    · rw [if_pos hkey, get?_cons, hkey]
      split <;> rfl
    · rw [if_neg hkey, get?_cons, ih]
      by_cases hk : k = k'
      · rw [if_pos hk, if_pos hk, if_neg (hk ▸ hkey)]
      · rw [if_neg hk, if_neg hk]

/-- A table is **extended** by entries that are given one after the other: its keys stay in front, a
key that is not given keeps its value, and a key that is given has the value that was given last. -/
structure Extends (t base : Table α β) (given : List (α × β)) : Prop where
  keys : base.keys <+: t.keys
  kept : ∀ key, key ∉ given.map (·.1) → t.get? key = base.get? key
  last : ∀ front key value back, given = front ++ (key, value) :: back → key ∉ back.map (·.1) →
    t.get? key = some value

/-- A key that is inserted comes behind the keys there are. -/
theorem keys_insert_extends (t : Table α β) (key : α) (value : β) :
    t.keys <+: (t.insert key value).keys := by
  rw [keys_insert, OrderedSet.insert]
  split
  · exact List.prefix_rfl
  · exact List.prefix_append _ _

/-- Entries that are inserted one after the other **extend** the table. -/
theorem extends_insertAll (base : Table α β) (given : List (α × β)) :
    (base.insertAll given).Extends base given := by
  induction given generalizing base with
  | nil => exact ⟨List.prefix_rfl, fun _ _ => rfl, fun front key value back h _ => by simp at h⟩
  | cons e given ih =>
    -- The rest is given to a table that has the first entry already.
    have hcons : base.insertAll (e :: given) = (base.insert e.1 e.2).insertAll given := rfl
    have h := ih (base.insert e.1 e.2)
    rw [hcons]
    refine ⟨(keys_insert_extends base e.1 e.2).trans h.keys, fun key hkey => ?_,
      fun front key value back hgiven hback => ?_⟩
    · rw [List.map_cons, List.mem_cons, not_or] at hkey
      rw [h.kept key hkey.2, get?_insert, if_neg hkey.1]
    · cases front with
      | nil =>
        obtain ⟨rfl, rfl⟩ := List.cons.inj hgiven
        rw [h.kept key hback, get?_insert, if_pos rfl]
      | cons e' front =>
        obtain ⟨-, rfl⟩ := List.cons.inj hgiven
        exact h.last front key value back rfl hback

end Table

/-- The entries of a type map are those of its table, **in small letters**. -/
theorem TypeMap.entries_insertAll (m : TypeMap) (given : List (Text × Text)) :
    (m.insertAll given).entries
      = m.entries.insertAll (given.map fun e => (Text.lower e.1, e.2)) := by
  induction given generalizing m with
  | nil => rfl
  | cons e given ih => exact ih (m.insert e.1 e.2)

/-! ## Admissible settings -/

/-- Settings that **can be used**. -/
structure Settings.Admissible (s : Settings) : Prop where
  strategy : ∀ word, s.strategy = some word → ∃ strategy, Strategy.ofText word = .ok strategy
  extensions : ∀ given, s.extensions = some given →
    ∃ e ∈ given, (Text.trim e).dropWhile (· == '.') ≠ []
  writes : ∀ m ∈ s.writes, m.marker ≠ []
  creates : ∀ m ∈ s.creates, m.marker ≠ []
  ui : ∀ marker ∈ s.uiMarkers, marker ≠ []

namespace Config

variable {s : Settings}

/-- There is a strategy if none is named, or one that is known. -/
theorem exists_strategyOf_iff :
    (∃ strategy, strategyOf s = .ok strategy)
      ↔ ∀ word, s.strategy = some word → ∃ strategy, Strategy.ofText word = .ok strategy := by
  rw [strategyOf]
  cases s.strategy with
  | none => exact iff_of_true ⟨_, rfl⟩ (by rintro word ⟨⟩)
  | some word =>
    constructor
    · rintro ⟨strategy, h⟩ word' ⟨⟩
      exact ⟨strategy, Except.mapError_eq_ok_iff.1 h⟩
    · intro h
      obtain ⟨strategy, h⟩ := h word rfl
      exact ⟨strategy, Except.mapError_eq_ok_iff.2 h⟩

theorem cleanExtension_eq_nil_iff {t : Text} :
    cleanExtension t = [] ↔ (Text.trim t).dropWhile (· == '.') = [] :=
  List.map_eq_nil_iff

/-- No extension begins with a **dot**. -/
theorem head?_cleanExtension (t : Text) : (cleanExtension t).head? ≠ some '.' := by
  rw [cleanExtension, Text.lower, List.head?_map]
  intro h
  obtain ⟨c, hc, hdot⟩ := Option.map_eq_some_iff.1 h
  have hhead := List.head?_dropWhile_not (· == '.') (Text.trim t)
  rw [hc] at hhead
  rw [(toLower_eq_iff (by decide) c).1 hdot] at hhead
  exact absurd hhead (by decide)

/-- The extensions that are **left** of those that were given. -/
def namedExtensions (given : List Text) : List Text :=
  (given.map cleanExtension).filter fun e => !e.isEmpty

/-- Some extension is left if one has more than blanks and dots. -/
theorem namedExtensions_ne_nil_iff {given : List Text} :
    namedExtensions given ≠ [] ↔ ∃ e ∈ given, (Text.trim e).dropWhile (· == '.') ≠ [] := by
  simp [namedExtensions, List.filter_eq_nil_iff, cleanExtension_eq_nil_iff]

/-- An extension that is left is not empty and begins with no dot. -/
theorem of_mem_namedExtensions {given : List Text} {e : Text} (he : e ∈ namedExtensions given) :
    e ≠ [] ∧ e.head? ≠ some '.' := by
  obtain ⟨hclean, hne⟩ := List.mem_filter.1 he
  obtain ⟨t, -, rfl⟩ := List.mem_map.1 hclean
  exact ⟨by simpa using hne, head?_cleanExtension t⟩

/-- The extensions are the default, or **those that are left** of the ones given. -/
theorem extensionsOf_eq_ok_iff {extensions : List Text} :
    extensionsOf s = .ok extensions
      ↔ (s.extensions = none ∧ extensions = ["pas".toList])
        ∨ ∃ given, s.extensions = some given ∧ namedExtensions given ≠ []
          ∧ extensions = namedExtensions given := by
  rw [extensionsOf]
  cases s.extensions with
  | none =>
    rw [Except.ok.injEq, eq_comm]
    simp
  | some given =>
    show (if (namedExtensions given).isEmpty then Except.error SettingError.noExtension
      else .ok (namedExtensions given)) = .ok extensions ↔ _
    by_cases hnamed : namedExtensions given = []
    · simp [hnamed]
    · rw [if_neg (by simpa using hnamed), Except.ok.injEq, eq_comm]
      simp [hnamed]

/-- The extensions of a configuration are **not empty**, and none begins with a dot. -/
theorem of_extensionsOf_eq_ok {extensions : List Text} (h : extensionsOf s = .ok extensions) :
    extensions ≠ [] ∧ ∀ e ∈ extensions, e ≠ [] ∧ e.head? ≠ some '.' := by
  rcases extensionsOf_eq_ok_iff.1 h with ⟨-, rfl⟩ | ⟨given, -, hne, rfl⟩
  · simp
  · exact ⟨hne, fun e => of_mem_namedExtensions⟩

/-- There are extensions if none are given, or one is left of them. -/
theorem exists_extensionsOf_iff :
    (∃ extensions, extensionsOf s = .ok extensions)
      ↔ ∀ given, s.extensions = some given →
        ∃ e ∈ given, (Text.trim e).dropWhile (· == '.') ≠ [] := by
  simp only [extensionsOf_eq_ok_iff, ← namedExtensions_ne_nil_iff]
  cases s.extensions with
  | none => simp
  | some given => simp

/-! ## Rules -/

/-- Markers give a **rule each**, if none of them is empty. -/
theorem markerRules_eq_ok_iff {place : MarkerPlace} {rule : Text → Text → EffectRule}
    {given : List MarkerSetting} {rules : List EffectRule} :
    markerRules place rule given = .ok rules
      ↔ (∀ m ∈ given, m.marker ≠ []) ∧ rules = given.map fun m => rule m.marker m.target := by
  rw [markerRules]
  induction given generalizing rules with
  | nil => exact ⟨fun h => ⟨by simp, (Except.ok.inj h).symm⟩, fun h => congrArg Except.ok h.2.symm⟩
  | cons m given ih =>
    rw [List.mapM_cons, Except.bind_eq_ok_iff, List.forall_mem_cons]
    -- The first empty marker ends it, whatever comes behind.
    by_cases hm : m.marker = []
    · refine iff_of_false ?_ (fun h => h.1.1 hm)
      rintro ⟨first, hfirst, -⟩
      rw [hm] at hfirst
      cases hfirst
    · rw [if_neg (by simpa using hm)]
      constructor
      · rintro ⟨first, ⟨⟩, h⟩
        obtain ⟨others, hothers, h⟩ := Except.bind_eq_ok_iff.1 h
        obtain ⟨hgiven, rfl⟩ := ih.1 hothers
        exact ⟨⟨hm, hgiven⟩, (Except.ok.inj h).symm⟩
      · rintro ⟨⟨-, hgiven⟩, rfl⟩
        exact ⟨_, rfl, Except.bind_eq_ok_iff.2 ⟨_, ih.2 ⟨hgiven, rfl⟩, rfl⟩⟩

/-- The rule that markers of the user interface give, if there are any. -/
def uiRules (markers : List Text) : List EffectRule :=
  if markers = [] then [] else [.ui markers]

/-- Markers of the user interface give one rule together, if none of them is empty. -/
theorem uiRule_eq_ok_iff {markers : List Text} {rules : List EffectRule} :
    uiRule markers = .ok rules ↔ (∀ marker ∈ markers, marker ≠ []) ∧ rules = uiRules markers := by
  rw [uiRule, uiRules]
  by_cases hnone : markers = []
  · rw [if_pos (by simpa using hnone), if_pos hnone, hnone, Except.ok.injEq, eq_comm]
    simp
  · rw [if_neg (by simpa using hnone), if_neg hnone]
    by_cases hany : markers.any List.isEmpty = true
    · rw [if_pos hany]
      obtain ⟨marker, hmem, hempty⟩ := List.any_eq_true.1 hany
      exact iff_of_false (by rintro ⟨⟩) (fun h => h.1 marker hmem (by simpa using hempty))
    · rw [if_neg hany, Except.ok.injEq, eq_comm]
      refine (and_iff_right fun marker hmem hempty => hany ?_).symm
      exact List.any_eq_true.2 ⟨marker, hmem, by rw [hempty]; rfl⟩

/-- The **rules of some settings** are the defaults, and behind them a rule for each marker, in the
order in which the markers were given. -/
theorem rulesOf_eq_ok_iff {rules : List EffectRule} :
    rulesOf s = .ok rules
      ↔ ((∀ m ∈ s.writes, m.marker ≠ []) ∧ (∀ m ∈ s.creates, m.marker ≠ [])
        ∧ ∀ marker ∈ s.uiMarkers, marker ≠ [])
        ∧ rules = EffectRule.defaults ++ (s.writes.map fun m => .write m.marker m.target)
          ++ (s.creates.map fun m => .create m.marker m.target) ++ uiRules s.uiMarkers := by
  rw [rulesOf]
  constructor
  · intro h
    obtain ⟨writes, hwrites, h⟩ := Except.bind_eq_ok_iff.1 h
    obtain ⟨creates, hcreates, h⟩ := Except.bind_eq_ok_iff.1 h
    obtain ⟨ui, hui, h⟩ := Except.bind_eq_ok_iff.1 h
    obtain ⟨hmarkers, rfl⟩ := markerRules_eq_ok_iff.1 hwrites
    obtain ⟨hmarkers', rfl⟩ := markerRules_eq_ok_iff.1 hcreates
    obtain ⟨hmarkers'', rfl⟩ := uiRule_eq_ok_iff.1 hui
    exact ⟨⟨hmarkers, hmarkers', hmarkers''⟩, (Except.ok.inj h).symm⟩
  · rintro ⟨⟨hwrites, hcreates, hui⟩, rfl⟩
    refine Except.bind_eq_ok_iff.2 ⟨_, markerRules_eq_ok_iff.2 ⟨hwrites, rfl⟩, ?_⟩
    refine Except.bind_eq_ok_iff.2 ⟨_, markerRules_eq_ok_iff.2 ⟨hcreates, rfl⟩, ?_⟩
    exact Except.bind_eq_ok_iff.2 ⟨_, uiRule_eq_ok_iff.2 ⟨hui, rfl⟩, rfl⟩

/-- An **empty body** has no marker but the empty one. -/
theorem contains_nil_eq_false {marker : Text} (h : marker ≠ []) :
    Text.contains [] marker = false := by
  rw [Text.contains_eq, decide_eq_false_iff_not, List.infix_nil]
  exact h

/-- No rule of a configuration applies to a body **with nothing in it**. -/
theorem holds_nil_of_rulesOf {rules : List EffectRule} (h : rulesOf s = .ok rules) :
    ∀ rule ∈ rules, rule.trigger.holds [] = false := by
  obtain ⟨⟨hwrites, hcreates, hui⟩, rfl⟩ := rulesOf_eq_ok_iff.1 h
  intro rule hrule
  -- The defaults have markers of their own, and those that were given have been looked at.
  simp only [List.mem_append, or_assoc] at hrule
  rcases hrule with hrule | hrule | hrule | hrule
  · exact (by decide : ∀ rule ∈ EffectRule.defaults, rule.trigger.holds [] = false) rule hrule
  · obtain ⟨m, hm, rfl⟩ := List.mem_map.1 hrule
    exact contains_nil_eq_false (hwrites m hm)
  · obtain ⟨m, hm, rfl⟩ := List.mem_map.1 hrule
    exact contains_nil_eq_false (hcreates m hm)
  · rw [uiRules] at hrule
    split at hrule
    · cases hrule
    · obtain rfl := List.mem_singleton.1 hrule
      exact List.any_eq_false.2 fun marker hmem => by simp [contains_nil_eq_false (hui marker hmem)]

/-! ## Configurations -/

/-- A configuration is made of its parts, **each of which may fail**. -/
theorem ofSettings_eq_ok_iff {root : FilePath} {c : Config} :
    ofSettings root s = .ok c
      ↔ ∃ strategy extensions rules, strategyOf s = .ok strategy ∧ extensionsOf s = .ok extensions
        ∧ rulesOf s = .ok rules ∧ c = {
          projectRoot := root, strategy, extensions, rules
          lowering := loweringOf s
          outputDir := root.join ⟨s.outputDir.getD "ir".toList⟩ } := by
  rw [ofSettings]
  constructor
  · intro h
    obtain ⟨strategy, hstrategy, h⟩ := Except.bind_eq_ok_iff.1 h
    obtain ⟨extensions, hextensions, h⟩ := Except.bind_eq_ok_iff.1 h
    obtain ⟨rules, hrules, h⟩ := Except.bind_eq_ok_iff.1 h
    exact ⟨strategy, extensions, rules, hstrategy, hextensions, hrules, (Except.ok.inj h).symm⟩
  · rintro ⟨strategy, extensions, rules, hstrategy, hextensions, hrules, rfl⟩
    refine Except.bind_eq_ok_iff.2 ⟨strategy, hstrategy, ?_⟩
    refine Except.bind_eq_ok_iff.2 ⟨extensions, hextensions, ?_⟩
    exact Except.bind_eq_ok_iff.2 ⟨rules, hrules, rfl⟩

/-- There is a configuration for settings **if and only if they are admissible**. -/
theorem exists_ofSettings_iff {root : FilePath} :
    (∃ c, ofSettings root s = .ok c) ↔ s.Admissible := by
  constructor
  · rintro ⟨c, h⟩
    obtain ⟨strategy, extensions, rules, hstrategy, hextensions, hrules, -⟩ :=
      ofSettings_eq_ok_iff.1 h
    obtain ⟨⟨hwrites, hcreates, hui⟩, -⟩ := rulesOf_eq_ok_iff.1 hrules
    exact ⟨exists_strategyOf_iff.1 ⟨strategy, hstrategy⟩,
      exists_extensionsOf_iff.1 ⟨extensions, hextensions⟩, hwrites, hcreates, hui⟩
  · intro h
    obtain ⟨strategy, hstrategy⟩ := exists_strategyOf_iff.2 h.strategy
    obtain ⟨extensions, hextensions⟩ := exists_extensionsOf_iff.2 h.extensions
    have hrules := rulesOf_eq_ok_iff.2 ⟨⟨h.writes, h.creates, h.ui⟩, rfl⟩
    exact ⟨_, ofSettings_eq_ok_iff.2 ⟨strategy, extensions, _, hstrategy, hextensions, hrules, rfl⟩⟩

/-- The types that are given extend the default ones. -/
theorem extends_typeMap (s : Settings) :
    (loweringOf s).typeMap.entries.Extends TypeMap.defaults.entries
      (s.types.map fun e => (Text.lower e.1, e.2)) := by
  have hentries : (loweringOf s).typeMap.entries = _ :=
    TypeMap.entries_insertAll TypeMap.defaults s.types
  rw [hentries]
  exact Table.extends_insertAll _ _

/-- The actions that are given extend those there are. -/
theorem extends_actions (s : Settings) :
    (loweringOf s).actions.Extends ({} : LoweringOptions).actions s.actions :=
  Table.extends_insertAll _ s.actions

/-- The settings that the text of a configuration file **says**, if it is a document
that fits the schema. -/
def decoded? (t : Text) : Option Settings :=
  (Toml.ofText? t).bind fun document => (Settings.ofDocument document).toOption

/-- A text that says some settings has the configuration of these. -/
theorem ofText_eq_ok_iff {root : FilePath} {t : Text} {c : Config} (h : decoded? t = some s) :
    ofText root t = .ok c ↔ ofSettings root s = .ok c := by
  obtain ⟨document, hdocument, hsettings⟩ := Option.bind_eq_some_iff.1 h
  rw [ofText, hdocument]
  cases hread : Settings.ofDocument document with
  | error e =>
    rw [hread] at hsettings
    cases hsettings
  | ok settings =>
    rw [hread] at hsettings
    obtain rfl := Option.some.inj hsettings
    simp only [hread]
    exact Except.mapError_eq_ok_iff

/-- **Settings only add to the defaults, and no rule that they add applies to everything.** A text
that says some settings has a configuration if and only if the settings are admissible. Then its
rules are the defaults and behind them those that were given, in their order, and none of them
applies to an empty body; its extensions are not empty and do not begin with a dot; and its types,
in small letters, and its actions extend the defaults. -/
theorem ofText_decoded {t : Text} (h : decoded? t = some s) (root : FilePath) :
    ((∃ c, ofText root t = .ok c) ↔ s.Admissible)
      ∧ ∀ c, ofText root t = .ok c →
        c.rules = EffectRule.defaults ++ (s.writes.map fun m => .write m.marker m.target)
            ++ (s.creates.map fun m => .create m.marker m.target) ++ uiRules s.uiMarkers
          ∧ (∀ rule ∈ c.rules, rule.trigger.holds [] = false)
          ∧ (c.extensions ≠ [] ∧ ∀ e ∈ c.extensions, e ≠ [] ∧ e.head? ≠ some '.')
          ∧ c.lowering.typeMap.entries.Extends TypeMap.defaults.entries
            (s.types.map fun e => (Text.lower e.1, e.2))
          ∧ c.lowering.actions.Extends ({} : LoweringOptions).actions s.actions := by
  simp only [ofText_eq_ok_iff h]
  refine ⟨exists_ofSettings_iff, fun c hc => ?_⟩
  obtain ⟨strategy, extensions, rules, -, hextensions, hrules, rfl⟩ := ofSettings_eq_ok_iff.1 hc
  exact ⟨(rulesOf_eq_ok_iff.1 hrules).2, holds_nil_of_rulesOf hrules,
    of_extensionsOf_eq_ok hextensions, extends_typeMap s, extends_actions s⟩

/-- A file with a marker, a type that is given twice, and an extension of which nothing is left. -/
def sampleFile : Text :=
  ("[[effects.writes]]\nmarker = 'mtClient'\nresource = 'Clients'\n"
    ++ "[entities.types]\nINTEGER = 'number'\nInteger = 'whole'\n"
    ++ "[frontend]\nextensions = [' .PAS', '.']\n").toList

/-- What it says. -/
def sampleSettings : Settings where
  extensions := some [" .PAS".toList, ".".toList]
  writes := [⟨"mtClient".toList, "Clients".toList⟩]
  types := [("INTEGER".toList, "number".toList), ("Integer".toList, "whole".toList)]

/-- The type has the value that was given last, and other types are kept. -/
theorem ofText_decoded_sample :
    decoded? sampleFile = some sampleSettings
      ∧ ∃ c, ofText (.ofName "project") sampleFile = .ok c
        ∧ (∀ rule ∈ c.rules, rule.trigger.holds [] = false)
        ∧ c.lowering.typeMap.entries.get? "integer".toList = some "whole".toList
        ∧ c.lowering.typeMap.entries.get? "int64".toList = some "int".toList := by
  have h : decoded? sampleFile = some sampleSettings := by decide +kernel
  have hadmissible : sampleSettings.Admissible := by
    refine ⟨by rintro word ⟨⟩, ?_, by decide, by decide, by decide⟩
    rintro given ⟨⟩
    exact ⟨" .PAS".toList, List.mem_cons_self, by decide⟩
  obtain ⟨hiff, hall⟩ := ofText_decoded h (.ofName "project")
  obtain ⟨c, hc⟩ := hiff.2 hadmissible
  obtain ⟨-, hrules, -, htypes, -⟩ := hall c hc
  refine ⟨h, c, hc, hrules, ?_, ?_⟩
  · exact htypes.last [("integer".toList, "number".toList)] _ _ [] (by decide) (by decide)
  · rw [htypes.kept _ (by decide)]
    decide +kernel

end Config

end PascalAtlas
