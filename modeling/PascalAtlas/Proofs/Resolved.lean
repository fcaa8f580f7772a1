import PascalAtlas.Proofs.Registered
import PascalAtlas.Proofs.Spacing

/-!
# What a type expression stands for

A declared type is a name inside any number of arrays, and each array is written in one of two ways,
in front of its element or around it. Resolving takes the arrays off one by one, by cutting texts.
Here the expressions are trees (`TypeExpr`), and a text may **spell** a tree with keywords in any
case and with blanks around every part (`TypeExpr.Spelled`). What is resolved is then the tree: its
arrays stay around whatever its name stands for (`Registry.resolve_spelled`).

A name stands for the first class whose key ends in it, else for a type of the language, else for
itself (`Registry.Means`). Texts that spell nothing are resolved too: what is left when the arrays
are taken off is looked up as a name, or is not there at all (`Registry.exists_core`).
-/

namespace PascalAtlas

/-! ## Names -/

namespace SemanticType

theorem typeName_named (name : Text) : (named name).typeName = name := rfl

theorem typeName_array (element : SemanticType) :
    (array element).typeName = "array of ".toList ++ element.typeName := rfl

/-- What is not resolved goes by the text that was declared. -/
theorem typeName_unresolved {declared : Text} (h : declared ≠ []) :
    (unresolved declared).typeName = declared :=
  if_neg (mt List.isEmpty_iff.1 h)

/-- Arrays around a type only make its name longer. -/
theorem typeName_iterate {t : SemanticType} (h : t.typeName ≠ []) (n : Nat) :
    (array^[n] t).typeName ≠ [] := by
  induction n with
  | zero => exact h
  | succ n ih =>
    rw [Function.iterate_succ_apply', typeName_array]
    exact List.append_ne_nil_of_right_ne_nil _ ih

end SemanticType

namespace Registry

variable (r : Registry)

/-- What a **name** stands for. -/
inductive Means (name : Text) : SemanticType → Prop where
  /-- The first class, in the order of the keys, whose key ends in a dot and the name. -/
  | registered {before after : List Text} {q : Text} : r.keys = before ++ q :: after →
      '.' :: name <:+ q →
      (∀ k ∈ before, ¬ '.' :: name <:+ k) → Means name (.named q)
  /-- A type of the language, in any case, if there is no such class. -/
  | builtin : (∀ k ∈ r.keys, ¬ '.' :: name <:+ k) →
      (∃ word ∈ SemanticType.builtins, Text.lower word = Text.lower name) → Means name (.named name)
  /-- Nothing that is known. -/
  | unknown : (∀ k ∈ r.keys, ¬ '.' :: name <:+ k) →
      (∀ word ∈ SemanticType.builtins, Text.lower word ≠ Text.lower name) →
      Means name (.unresolved name)

/-- A type of the language is known in any case. -/
theorem isBuiltin_iff {name : Text} :
    SemanticType.isBuiltin name = true
      ↔ ∃ word ∈ SemanticType.builtins, Text.lower word = Text.lower name := by
  rw [SemanticType.isBuiltin, Text.isOneOf, List.any_eq_true]
  exact exists_congr fun word => and_congr_right fun _ => beq_iff_eq.trans eq_comm

/-- Looking a name up finds **what it stands for**. -/
theorem means_resolveName (name : Text) : r.Means name (r.resolveName name) := by
  cases hkey : r.suffixKey? name with
  | some q =>
    obtain ⟨hends, before, after, hkeys, hbefore⟩ := List.find?_eq_some_iff_append.1 hkey
    rw [resolveName_of_some hkey]
    refine .registered hkeys (Text.endsWith_iff.1 hends) fun k hk hsuffix => ?_
    have hpassed := hbefore k hk
    rw [Text.endsWith_iff.2 hsuffix] at hpassed
    cases hpassed
  | none =>
    have hkeys : ∀ k ∈ r.keys, ¬ '.' :: name <:+ k := fun k hk hsuffix =>
      List.find?_eq_none.1 hkey k hk (Text.endsWith_iff.2 hsuffix)
    rw [resolveName_of_none hkey]
    split
    next hbuiltin => exact .builtin hkeys (isBuiltin_iff.1 hbuiltin)
    next hbuiltin =>
      refine .unknown hkeys fun word hword heq => hbuiltin ?_
      exact isBuiltin_iff.2 ⟨word, hword, heq⟩

variable {r} {name : Text} {type : SemanticType}

/-- A name never stands for a class itself, nor for an array. -/
theorem Means.plain (h : r.Means name type) :
    (∃ q, type = .named q) ∨ ∃ declared, type = .unresolved declared := by
  cases h with
  | registered => exact .inl ⟨_, rfl⟩
  | builtin => exact .inl ⟨_, rfl⟩
  | unknown => exact .inr ⟨_, rfl⟩

/-- What a name stands for has a name itself. -/
theorem Means.typeName_ne_nil (h : r.Means name type) (hname : name ≠ []) : type.typeName ≠ [] := by
  cases h with
  | registered _ hsuffix _ =>
    rw [SemanticType.typeName_named]
    rintro rfl
    exact List.cons_ne_nil _ _ (List.suffix_nil.1 hsuffix)
  | builtin _ _ => rwa [SemanticType.typeName_named]
  | unknown _ _ => rwa [SemanticType.typeName_unresolved hname]

/-- **Every text** is resolved to arrays around what one name stands for, or around a
type that is not there. -/
theorem exists_core (r : Registry) (declared : Text) :
    ∃ n core, n ≤ declared.length ∧ r.resolve declared = SemanticType.array^[n] core
      ∧ (core = .unresolved [] ∨ ∃ name, name ≠ [] ∧ r.Means name core) := by
  obtain ⟨n, name, hn, hnested⟩ := exists_nesting declared
  refine ⟨n, r.resolveElement name, hn, hnested r, ?_⟩
  rw [resolveElement]
  split
  next => exact .inl rfl
  next hname => exact .inr ⟨name, mt List.isEmpty_iff.2 hname, r.means_resolveName name⟩

end Registry

/-! ## Expressions -/

/-- A **type expression**: a name inside arrays. -/
inductive TypeExpr where
  | name (base : Text)
  /-- An array written in front of its element. -/
  | arrayOf (element : TypeExpr)
  /-- An array written around its element. -/
  | generic (element : TypeExpr)

namespace TypeExpr

/-- The name inside all arrays. -/
def base : TypeExpr → Text
  | .name b => b
  | .arrayOf e | .generic e => e.base

/-- The arrays of an expression **around** a type. -/
def around (type : SemanticType) : TypeExpr → SemanticType
  | .name _ => type
  | .arrayOf e | .generic e => .array (e.around type)

/-- A text that can stand inside the arrays as a **name**: not empty, trimmed, and not itself
written as an array. -/
structure IsName (b : Text) : Prop where
  ne_nil : b ≠ []
  trimmed : Text.trim b = b
  not_arrayOf : ∀ keyword rest, b = keyword ++ rest → Text.lower keyword ≠ "array of ".toList
  not_generic : ∀ keyword rest, b = keyword ++ rest → Text.lower keyword = "tarray<".toList →
    b.getLast? ≠ some '>'

/-- A text **spells** an expression: with keywords in any case, and with blanks around the whole and
around every part. The space behind `array of` belongs to the keyword. -/
inductive Spelled : TypeExpr → Text → Prop where
  | name {b before after : Text} : IsName b → Text.Blanks before → Text.Blanks after →
      Spelled (.name b) (before ++ b ++ after)
  | arrayOf {e : TypeExpr} {keyword t before after : Text} : Spelled e t →
      Text.lower keyword = "array of ".toList →
      Text.Blanks before → Text.Blanks after →
      Spelled (.arrayOf e) (before ++ (keyword ++ t) ++ after)
  | generic {e : TypeExpr} {keyword t before after : Text} : Spelled e t →
      Text.lower keyword = "tarray<".toList →
      Text.Blanks before → Text.Blanks after →
      Spelled (.generic e) (before ++ (keyword ++ t ++ ['>']) ++ after)

/-! ## Taking arrays off -/

section

open Registry (arrayElement?)

variable {keyword : Text}

/-- A keyword begins the text in any case. -/
theorem startsWith_lower {front : Text} (h : Text.lower keyword = front) (rest : Text) :
    Text.startsWith (Text.lower (keyword ++ rest)) front = true := by
  rw [Text.startsWith, Text.lower_append, h, Token.dropPrefix?_append]
  rfl

/-- A keyword has one length in every case. -/
theorem length_keyword {front : Text} (h : Text.lower keyword = front) :
    keyword.length = front.length := by
  rw [← h, Text.lower, List.length_map]

/-- Behind `array of` is the element, without the blanks around it. -/
theorem arrayElement?_arrayOf (h : Text.lower keyword = "array of ".toList) (rest : Text) :
    arrayElement? (keyword ++ rest) = some (Text.trim rest) := by
  have hdrop : (keyword ++ rest).drop 9 = rest := List.drop_left' (length_keyword h)
  rw [arrayElement?]
  simp only [startsWith_lower h, if_true, hdrop]

/-- Between `TArray<` and its `>` is the element, without the blanks around it. -/
theorem arrayElement?_generic (h : Text.lower keyword = "tarray<".toList) (rest : Text) :
    arrayElement? (keyword ++ rest ++ ['>']) = some (Text.trim rest) := by
  have hother : Text.startsWith (Text.lower (keyword ++ rest ++ ['>'])) "array of ".toList
      = false := by
    rw [Text.lower_append, Text.lower_append, h]
    rfl
  have hfront : Text.startsWith (Text.lower (keyword ++ rest ++ ['>'])) "tarray<".toList
      = true := by
    rw [List.append_assoc]
    exact startsWith_lower h _
  have hseven : keyword.length = 7 := length_keyword h
  have hdrop : ((keyword ++ rest ++ ['>']).drop 7).dropLast = rest := by
    rw [List.append_assoc, List.drop_left' hseven, List.dropLast_concat]
  rw [arrayElement?]
  simp only [hother, Bool.false_eq_true, if_false, hfront, Bool.true_and, List.getLast?_concat,
    beq_self_eq_true, if_true, hdrop]

/-- A name is **not taken for an array**. -/
theorem IsName.arrayElement?_eq_none {b : Text} (h : IsName b) : arrayElement? b = none := by
  have hsplit {front : Text} (hstarts : Text.startsWith (Text.lower b) front = true) :
      ∃ keyword rest, b = keyword ++ rest ∧ Text.lower keyword = front := by
    obtain ⟨rest, hrest⟩ := Option.isSome_iff_exists.1 hstarts
    obtain ⟨keyword, back, rfl, hkeyword, -⟩ :=
      List.map_eq_append_iff.1 (Token.dropPrefix?_eq_some hrest).symm
    exact ⟨keyword, back, rfl, hkeyword⟩
  -- What the two tests see in small letters was written there in some case.
  rw [arrayElement?]
  split
  next hstarts =>
    obtain ⟨keyword, rest, hb, hkeyword⟩ := hsplit hstarts
    exact absurd hkeyword (h.not_arrayOf keyword rest hb)
  next =>
    split
    next hboth =>
      obtain ⟨hstarts, hlast⟩ := (Bool.and_eq_true _ _).mp hboth
      obtain ⟨keyword, rest, hb, hkeyword⟩ := hsplit hstarts
      exact absurd (eq_of_beq hlast) (h.not_generic keyword rest hb hkeyword)
    next => rfl

/-- A name is not empty, has no blanks around it and is no array. -/
theorem isName_iff {b : Text} : IsName b ↔ b ≠ [] ∧ Text.trim b = b ∧ arrayElement? b = none := by
  refine ⟨fun h => ⟨h.ne_nil, h.trimmed, h.arrayElement?_eq_none⟩, ?_⟩
  rintro ⟨hne, htrim, hnone⟩
  refine ⟨hne, htrim, ?_, ?_⟩
  · rintro keyword rest rfl hkeyword
    rw [arrayElement?_arrayOf hkeyword] at hnone
    cases hnone
  · rintro keyword rest rfl hkeyword hlast
    rw [arrayElement?] at hnone
    simp only [startsWith_lower hkeyword, hlast, beq_self_eq_true, Bool.and_self, if_true] at hnone
    split at hnone <;> cases hnone

instance (b : Text) : Decidable (IsName b) :=
  decidable_of_iff _ isName_iff.symm

end

/-! ## Resolving what is spelled -/

/-- A keyword begins with a letter. -/
theorem exists_cons_keyword {keyword cs : Text} {c : Char} (h : Text.lower keyword = c :: cs)
    (hc : Text.isBlank c = false) : ∃ d ds, keyword = d :: ds ∧ Text.isBlank d = false := by
  obtain ⟨d, ds, rfl, rfl, -⟩ := List.map_eq_cons_iff.1 h
  refine ⟨d, ds, rfl, ?_⟩
  rwa [test_toLower Text.isBlank (by decide)] at hc

/-- What spells a type is not blank. -/
theorem Spelled.trim_ne_nil {e : TypeExpr} {t : Text} (h : Spelled e t) : Text.trim t ≠ [] := by
  rw [ne_eq, Text.trim_eq_nil_iff]
  intro hblanks
  have hbetween {before middle after : Text} (h : Text.Blanks (before ++ middle ++ after)) :
      Text.Blanks middle :=
    (List.forall_mem_append.1 (List.forall_mem_append.1 h).1).2
  cases h with
  | name hname _ _ =>
    refine hname.ne_nil ?_
    rw [← hname.trimmed]
    exact Text.trim_eq_nil_iff.2 (hbetween hblanks)
  | arrayOf _ hkeyword _ _ =>
    obtain ⟨d, ds, rfl, hd⟩ := exists_cons_keyword hkeyword (by decide)
    exact absurd (hbetween hblanks d (by simp)) (by simp [hd])
  | generic _ hkeyword _ _ =>
    obtain ⟨d, ds, rfl, hd⟩ := exists_cons_keyword hkeyword (by decide)
    exact absurd (hbetween hblanks d (by simp)) (by simp [hd])

end TypeExpr

namespace Registry

variable (r : Registry)

/-- Blanks around a type do not matter. -/
theorem resolve_trim (t : Text) : r.resolve (Text.trim t) = r.resolve t := by
  cases harray : arrayElement? (Text.trim t) with
  | none => rw [resolve_of_name harray, resolve_of_name (by rwa [Text.trim_trim]), Text.trim_trim]
  | some element => rw [resolve_of_array harray, resolve_of_array (by rwa [Text.trim_trim])]

/-- **Blanks around a type** do not matter. -/
theorem resolve_between {before after : Text} (hbefore : Text.Blanks before)
    (hafter : Text.Blanks after) (t : Text) :
    r.resolve (before ++ t ++ after) = r.resolve t := by
  rw [← resolve_trim, Text.trim_append_blanks hafter, Text.trim_blanks_append hbefore, resolve_trim]

/-- An array in front of its element. The element is not blank, so that trimming leaves the
space of the keyword. -/
theorem resolve_arrayOf {keyword t : Text} (hkeyword : Text.lower keyword = "array of ".toList)
    (ht : Text.trim t ≠ []) : r.resolve (keyword ++ t) = .array (r.resolve t) := by
  obtain ⟨b, heq, hb⟩ := Token.exists_append_trimEnd t
  have hend : Text.trim (Text.trimEnd t) = Text.trim t := by
    conv_rhs => rw [heq]
    exact (Text.trim_append_blanks hb _).symm
  -- Something is left of the element, so that nothing before it is at the end of the text.
  have hne : Text.trimEnd t ≠ [] := by
    intro hnil
    rw [← hend, hnil] at ht
    exact ht rfl
  have htrim : Text.trim (keyword ++ t) = keyword ++ Text.trimEnd t := by
    obtain ⟨d, ds, rfl, hd⟩ := TypeExpr.exists_cons_keyword hkeyword (by decide)
    rw [Text.trim, Text.trimStart_eq_self (by simpa using hd), Text.trimEnd_append hne]
  have helement : arrayElement? (Text.trim (keyword ++ t)) = some (Text.trim t) := by
    rw [htrim, TypeExpr.arrayElement?_arrayOf hkeyword, hend]
  rw [resolve_of_array helement, resolve_trim]

/-- An array around its element. -/
theorem resolve_generic {keyword : Text} (hkeyword : Text.lower keyword = "tarray<".toList)
    (t : Text) :
    r.resolve (keyword ++ t ++ ['>']) = .array (r.resolve t) := by
  have htrim : Text.trim (keyword ++ t ++ ['>']) = keyword ++ t ++ ['>'] := by
    obtain ⟨d, ds, rfl, hd⟩ := TypeExpr.exists_cons_keyword hkeyword (by decide)
    refine Text.trim_eq_self (by simpa using hd) fun c hc => ?_
    rw [List.getLast?_concat, Option.mem_some_iff] at hc
    exact hc ▸ rfl
  have helement : arrayElement? (Text.trim (keyword ++ t ++ ['>'])) = some (Text.trim t) := by
    rw [htrim, TypeExpr.arrayElement?_generic hkeyword]
  rw [resolve_of_array helement, resolve_trim]

/-- What is spelled is resolved **as the tree says**. -/
theorem resolve_of_spelled {e : TypeExpr} {t : Text} (h : e.Spelled t) :
    r.resolve t = e.around (r.resolveName e.base) := by
  -- By the tree. At each level the blanks around it are trimmed before its keyword is told.
  induction h with
  | @name b before after hname hbefore hafter =>
    have hnone : arrayElement? (Text.trim b) = none :=
      hname.trimmed.symm ▸ hname.arrayElement?_eq_none
    rw [r.resolve_between hbefore hafter, resolve_of_name hnone, hname.trimmed, resolveElement,
      if_neg (mt List.isEmpty_iff.1 hname.ne_nil)]
    rfl
  | arrayOf h hkeyword hbefore hafter ih =>
    rw [r.resolve_between hbefore hafter, r.resolve_arrayOf hkeyword h.trim_ne_nil, ih]
    rfl
  | generic _ hkeyword hbefore hafter ih =>
    rw [r.resolve_between hbefore hafter, r.resolve_generic hkeyword, ih]
    rfl

/-- **Types are resolved by their structure.** A text that spells a type expression is resolved to
the arrays of the expression around what its name stands for. And whatever a text is, it is resolved
to finitely many arrays around what one name stands for or around a type that is not there: never to
a class itself, and never to a type without a name. -/
theorem resolve_spelled (r : Registry) :
    (∀ (e : TypeExpr) (t : Text), e.Spelled t →
      ∃ type, r.Means e.base type ∧ r.resolve t = e.around type)
    ∧ ∀ t : Text,
      (∃ n core, n ≤ t.length ∧ r.resolve t = SemanticType.array^[n] core
        ∧ (core = .unresolved [] ∨ ∃ name, name ≠ [] ∧ r.Means name core))
      ∧ (∀ name fields, (r.resolve t).element ≠ .class_ name fields)
      ∧ (r.resolve t).typeName ≠ [] := by
  refine ⟨fun e t h => ⟨_, r.means_resolveName _, r.resolve_of_spelled h⟩,
    fun t => ⟨r.exists_core t, ?_⟩⟩
  obtain ⟨n, core, -, hresolve, hcore⟩ := r.exists_core t
  rw [hresolve, SemanticType.element_iterate]
  obtain rfl | ⟨name, hname, hmeans⟩ := hcore
  · exact ⟨fun _ _ => SemanticType.noConfusion, SemanticType.typeName_iterate (by decide) n⟩
  · refine ⟨fun _ _ => ?_, SemanticType.typeName_iterate (hmeans.typeName_ne_nil hname) n⟩
    obtain ⟨q, rfl⟩ | ⟨declared, rfl⟩ := hmeans.plain
    · exact SemanticType.noConfusion
    · exact SemanticType.noConfusion

/-- Two classes go by one name, and the name of a third one ends in it. -/
def namesakes : Registry :=
  .ofList [("Model.OldTPerson".toList, .class_ "OldTPerson".toList {}),
    ("Model.TPerson".toList, .class_ "TPerson".toList {}),
    ("Archive.TPerson".toList, .class_ "TPerson".toList {})]

/-- Both ways to write an array inside one another, with all kinds of blanks. -/
theorem resolve_spelled_nested :
    TypeExpr.Spelled (.arrayOf (.generic (.arrayOf (.name "TPerson".toList))))
        " ARRAY of TArray< array Of \tTPerson >\n".toList
      ∧ ∃ type, namesakes.Means "TPerson".toList type
        ∧ namesakes.resolve " ARRAY of TArray< array Of \tTPerson >\n".toList
          = .array (.array (.array type)) := by
  have hname : TypeExpr.Spelled (.name "TPerson".toList)
      ("\t".toList ++ "TPerson".toList ++ " ".toList) :=
    .name (by decide) (by decide) (by decide)
  have hinner := hname.arrayOf (by decide : Text.lower "array Of ".toList = _)
    (by decide : Text.Blanks " ".toList)
    (by decide : Text.Blanks [])
  have hmiddle := hinner.generic (by decide : Text.lower "TArray<".toList = _)
    (by decide : Text.Blanks [])
    (by decide : Text.Blanks [])
  have hspelled := hmiddle.arrayOf (by decide : Text.lower "ARRAY of ".toList = _)
    (by decide : Text.Blanks " ".toList)
    (by decide : Text.Blanks "\n".toList)
  exact ⟨hspelled, (resolve_spelled namesakes).1 _ _ hspelled⟩

end Registry

end PascalAtlas
