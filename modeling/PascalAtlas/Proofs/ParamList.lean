import PascalAtlas.Params
import PascalAtlas.SemanticType

/-!
# Parameter lists that are read back

A parameter list is written with `; ` between the parameters and ` : ` before a type. It is read by
cutting at the first `;`, `:` and `,` of each stretch, by taking a modifier away at the beginning
and a default value at the end. If none of these cuts falls inside a parameter (`Param.Clean`), then
it comes back without the modifier that its name may begin with
(`Param.parseList_renderList_of_clean`). So a parameter is read back if its name does not begin with
one (`Param.Canonical`), and then so is every list of such parameters
(`Param.parseList_renderList`).
-/

namespace PascalAtlas

/-! ## Trimming and cutting -/

namespace Text

/-- A blank in front does not count. -/
theorem trim_cons_blank {c : Char} (hc : isBlank c = true) (t : Text) : trim (c :: t) = trim t := by
  rw [trim, trimStart, List.dropWhile_cons_of_pos hc]
  rfl

/-- Nor does one at the end. -/
theorem trim_concat_blank {c : Char} (hc : isBlank c = true) (t : Text) :
    trim (t ++ [c]) = trim t := by
  have hend (t : Text) : trimEnd (t ++ [c]) = trimEnd t := by
    rw [trimEnd, List.reverse_append, List.reverse_singleton, List.singleton_append,
      List.dropWhile_cons_of_pos hc]
    rfl
  rw [trim, trimStart, List.dropWhile_append, trim]
  split
  next hempty =>
    rw [trimStart, List.isEmpty_iff.1 hempty, List.dropWhile_cons_of_pos hc]
    rfl
  next => exact hend _

/-- Without a blank in front there is nothing to take off. -/
theorem trimStart_eq_self {t : Text} (hhead : ∀ c ∈ t.head?, isBlank c = false) :
    trimStart t = t := by
  cases t with
  | nil => rfl
  | cons c cs => exact List.dropWhile_cons_of_neg (by simp [hhead c rfl])

/-- Nor without one at the end. -/
theorem trimEnd_eq_self {t : Text} (hlast : ∀ c ∈ t.getLast?, isBlank c = false) :
    trimEnd t = t := by
  rw [trimEnd]
  cases hrev : t.reverse with
  | nil => rw [List.reverse_eq_nil_iff.1 hrev]; rfl
  | cons c cs =>
    have hc : isBlank c = false := hlast c (by rw [List.getLast?_eq_head?_reverse, hrev]; rfl)
    rw [List.dropWhile_cons_of_neg (by simp [hc]), ← hrev, List.reverse_reverse]

/-- A text that neither begins nor ends with a blank is trimmed. -/
theorem trim_eq_self {t : Text} (hhead : ∀ c ∈ t.head?, isBlank c = false)
    (hlast : ∀ c ∈ t.getLast?, isBlank c = false) : trim t = t := by
  rw [trim, trimStart_eq_self hhead, trimEnd_eq_self hlast]

/-- Trimming leaves a text **without blanks** as it is. -/
theorem trim_eq_of_not_blank {t : Text} (h : ∀ c ∈ t, isBlank c = false) : trim t = t :=
  trim_eq_self (fun c hc => h c (List.mem_of_mem_head? hc))
    fun c hc => h c (List.mem_of_mem_getLast? hc)

/-- A text that is trimmed has no blank in front. -/
theorem head_of_trim {t : Text} (ht : trim t = t) : ∀ c ∈ t.head?, isBlank c = false := by
  intro c hc
  cases t with
  | nil => cases hc
  | cons d ds =>
    obtain rfl : d = c := Option.some.inj hc
    refine Bool.eq_false_iff.2 fun hblank => ?_
    have hlength := Registry.length_trim_le ds
    rw [← trim_cons_blank hblank, ht, List.length_cons] at hlength
    omega

/-- And none at the end. -/
theorem last_of_trim {t : Text} (ht : trim t = t) : ∀ c ∈ t.getLast?, isBlank c = false := by
  intro c hc
  obtain ⟨ds, rfl⟩ := List.getLast?_eq_some_iff.1 hc
  refine Bool.eq_false_iff.2 fun hblank => ?_
  have hlength := Registry.length_trim_le ds
  rw [← trim_concat_blank hblank, ht, List.length_append, List.length_singleton] at hlength
  omega

theorem head_dropWhile {t : Text} {c : Char} (hc : c ∈ (t.dropWhile isBlank).head?) :
    isBlank c = false := by
  have hhead := List.head?_dropWhile_not isBlank t
  rw [show (t.dropWhile isBlank).head? = some c from hc] at hhead
  simpa using hhead

/-- Blanks are taken off the front only. -/
theorem trimStart_append {a : Text} (ha : trimStart a ≠ []) (b : Text) :
    trimStart (a ++ b) = trimStart a ++ b := by
  rw [trimStart, List.dropWhile_append]
  exact if_neg (mt List.isEmpty_iff.1 ha)

/-- The end of a trimmed text is trimmed if it does not begin with a blank. -/
theorem trim_of_suffix {t u : Text} (ht : trim t = t) (hu : u <:+ t)
    (hhead : ∀ c ∈ u.head?, isBlank c = false) :
    trim u = u := by
  refine trim_eq_self hhead fun c hc => last_of_trim ht c ?_
  obtain ⟨front, rfl⟩ := hu
  rw [List.getLast?_append, hc]
  rfl

/-- In a trimmed text something stands behind every blank. -/
theorem trimStart_ne_nil {front rest : Text} {c : Char}
    (ht : trim (front ++ c :: rest) = front ++ c :: rest) (hc : isBlank c = true) :
    trimStart rest ≠ [] := by
  intro hnil
  have htake : rest.takeWhile isBlank = rest := by
    have happend := List.takeWhile_append_dropWhile (p := isBlank) (l := rest)
    rwa [show rest.dropWhile isBlank = [] from hnil, List.append_nil] at happend
  have hblank : ∀ d ∈ c :: rest, isBlank d = true := by
    intro d hd
    obtain rfl | hd := List.mem_cons.1 hd
    · exact hc
    · rw [← htake] at hd
      exact List.all_eq_true.1 List.all_takeWhile d hd
  have hlast : (front ++ c :: rest).getLast?
      = some ((c :: rest).getLast (List.cons_ne_nil _ _)) := by
    rw [List.getLast?_append, List.getLast?_eq_some_getLast (List.cons_ne_nil _ _)]
    rfl
  have hend := last_of_trim ht _ hlast
  rw [hblank _ (List.getLast_mem _)] at hend
  cases hend

variable {p : Char → Bool}

/-- A text is cut at the **first** character that passes the test. -/
theorem cutAt?_append {a : Text} (ha : ∀ c ∈ a, p c = false) {c : Char} (hc : p c = true)
    (b : Text) :
    cutAt? p (a ++ c :: b) = some (a, b) := by
  induction a with
  | nil => rw [List.nil_append, cutAt?, if_pos hc]
  | cons d ds ih =>
    rw [List.cons_append, cutAt?, if_neg (by simp [ha d]), ih fun e he => ha e (by simp [he])]
    rfl

/-- Without one it is not cut. -/
theorem cutAt?_eq_none {a : Text} (ha : ∀ c ∈ a, p c = false) : cutAt? p a = none := by
  induction a with
  | nil => rfl
  | cons d ds ih =>
    rw [cutAt?, if_neg (by simp [ha d]), ih fun e he => ha e (by simp [he])]
    rfl

/-- And only then. -/
theorem uncut_of_cutAt?_eq_none {t : Text} (h : cutAt? p t = none) : ∀ c ∈ t, p c = false := by
  induction t with
  | nil => simp
  | cons d ds ih =>
    rw [cutAt?] at h
    split at h
    next => cases h
    next hd =>
      intro c hc
      obtain rfl | hc := List.mem_cons.1 hc
      · exact Bool.eq_false_iff.2 hd
      · exact ih (Option.map_eq_none_iff.1 h) c hc

/-- Where a text is cut, and that nothing before it could be cut at. -/
theorem cutAt?_eq_some {t a b : Text} (h : cutAt? p t = some (a, b)) :
    ∃ c, t = a ++ c :: b ∧ p c = true ∧ ∀ d ∈ a, p d = false := by
  induction t generalizing a with
  | nil => cases h
  | cons d ds ih =>
    rw [cutAt?] at h
    split at h
    next hd =>
      obtain ⟨rfl, rfl⟩ := Prod.mk.inj (Option.some.inj h)
      exact ⟨d, rfl, hd, by simp⟩
    next hd =>
      obtain ⟨⟨a', b'⟩, hcut, heq⟩ := Option.map_eq_some_iff.1 h
      obtain ⟨rfl, rfl⟩ := Prod.mk.inj heq
      obtain ⟨c, rfl, hc, hfront⟩ := ih hcut
      refine ⟨c, rfl, hc, fun e he => ?_⟩
      obtain rfl | he := List.mem_cons.1 he
      · exact Bool.eq_false_iff.2 hd
      · exact hfront e he

/-- Without a divider the whole is one part. -/
theorem splitBy_eq_self {α : Type} {q : α → Bool} {a : List α} (ha : ∀ x ∈ a, q x = false) :
    splitBy q a = [a] := by
  induction a with
  | nil => rfl
  | cons x xs ih => rw [splitBy, if_neg (by simp [ha x]), ih fun z hz => ha z (by simp [hz])]

theorem splitBy_ne_nil {α : Type} (q : α → Bool) (xs : List α) : splitBy q xs ≠ [] := by
  cases xs with
  | nil => simp [splitBy]
  | cons x xs =>
    rw [splitBy]
    split
    · simp
    · split <;> simp

/-- A divider divides, whatever stands on either side. -/
theorem splitBy_append_cons {α : Type} {q : α → Bool} {y : α} (hy : q y = true) (xs ys : List α) :
    splitBy q (xs ++ y :: ys) = splitBy q xs ++ splitBy q ys := by
  induction xs with
  | nil =>
    show splitBy q (y :: ys) = [] :: splitBy q ys
    rw [splitBy, if_pos hy]
  | cons x xs ih =>
    rw [List.cons_append, splitBy, splitBy, ih]
    split
    · rfl
    · cases h : splitBy q xs with
      | nil => exact absurd h (splitBy_ne_nil q xs)
      | cons piece pieces => rfl

/-- The first part ends at the first divider. -/
theorem splitBy_append {α : Type} {q : α → Bool} {a : List α} (ha : ∀ x ∈ a, q x = false) {y : α}
    (hy : q y = true) (b : List α) : splitBy q (a ++ y :: b) = a :: splitBy q b := by
  rw [splitBy_append_cons hy, splitBy_eq_self ha, List.singleton_append]

end Text

/-! ## Parameters -/

namespace Param

/-- A parameter that **no separator falls into**. -/
structure Clean (p : Param) : Prop where
  name_ne : p.name ≠ []
  name_trim : Text.trim p.name = p.name
  name_uncut : ∀ c ∈ p.name, c ≠ ';' ∧ c ≠ ':' ∧ c ≠ ','
  type_trim : Text.trim p.typeName = p.typeName
  type_uncut : ∀ c ∈ p.typeName, c ≠ ';' ∧ c ≠ '='

/-- A parameter that **no cut falls into**. -/
structure Canonical (p : Param) : Prop where
  name_ne : p.name ≠ []
  name_trim : Text.trim p.name = p.name
  name_uncut : ∀ c ∈ p.name, c ≠ ';' ∧ c ≠ ':' ∧ c ≠ ','
  /-- No modifier stands before the name. -/
  unmodified : ∀ front c back, p.name = front ++ c :: back → Text.isBlank c = true →
    Text.isOneOf front modifiers = false
  type_trim : Text.trim p.typeName = p.typeName
  type_uncut : ∀ c ∈ p.typeName, c ≠ ';' ∧ c ≠ '='

variable {p : Param}

theorem Canonical.clean (h : p.Canonical) : p.Clean :=
  ⟨h.name_ne, h.name_trim, h.name_uncut, h.type_trim, h.type_uncut⟩

/-- A parameter with a type as it is written. -/
theorem render_of_type (htype : p.typeName ≠ []) :
    p.render = p.name ++ ' ' :: ':' :: ' ' :: p.typeName := by
  rw [render, if_neg (by simpa using htype), List.append_assoc]
  rfl

theorem render_of_no_type (htype : p.typeName = []) : p.render = p.name := by
  rw [render, if_pos (by simpa using htype)]

/-- What is written of a parameter has no blanks around it. -/
theorem Clean.trim_render (h : p.Clean) : Text.trim p.render = p.render := by
  by_cases htype : p.typeName = []
  · rw [render_of_no_type htype, h.name_trim]
  · rw [render_of_type htype]
    obtain ⟨c, cs, hname⟩ := List.exists_cons_of_ne_nil h.name_ne
    obtain ⟨d, ds, htext⟩ := List.exists_cons_of_ne_nil htype
    refine Text.trim_eq_self ?_ ?_
    · rw [hname, List.cons_append, List.head?_cons, ← List.head?_cons (l := cs), ← hname]
      exact Text.head_of_trim h.name_trim
    · have hlast := Text.last_of_trim h.type_trim
      rw [htext] at hlast ⊢
      simpa [List.getLast?_append, List.getLast?_cons] using hlast

/-! ### The modifier -/

/-- The parameter without the modifier that its name begins with. -/
def withoutModifier (p : Param) : Param :=
  { p with name := dropModifier p.name }

/-- Without a blank there is no modifier. -/
theorem dropModifier_of_no_blank {t : Text} (ht : ∀ c ∈ t, Text.isBlank c = false) :
    dropModifier t = t := by
  rw [dropModifier, Text.cutAt?_eq_none ht]

/-- The word before the first blank decides, unless the text behind shows that it is a name. -/
theorem dropModifier_append {first rest ds : Text} {c d : Char}
    (hfirst : ∀ x ∈ first, Text.isBlank x = false) (hc : Text.isBlank c = true)
    (hrest : Text.trimStart rest = d :: ds) (hd : d ≠ ':' ∧ d ≠ ',') :
    dropModifier (first ++ c :: rest)
      = if Text.isOneOf first modifiers = true then d :: ds else first ++ c :: rest := by
  rw [dropModifier, Text.cutAt?_append hfirst hc]
  dsimp only
  rw [hrest]
  split
  next heq => exact absurd (List.cons.inj heq).1 hd.1
  next heq => exact absurd (List.cons.inj heq).1 hd.2
  next => rfl

/-- A clean name is one word, or its first word and what stands behind the blanks. -/
theorem Clean.name_cases (h : p.Clean) :
    (∀ c ∈ p.name, Text.isBlank c = false)
    ∨ ∃ first c rest d ds, p.name = first ++ c :: rest ∧ (∀ x ∈ first, Text.isBlank x = false)
      ∧ Text.isBlank c = true ∧ Text.trimStart rest = d :: ds ∧ d ≠ ':' ∧ d ≠ ',' := by
  cases hcut : Text.cutAt? Text.isBlank p.name with
  | none => exact .inl (Text.uncut_of_cutAt?_eq_none hcut)
  | some cut =>
    obtain ⟨c, hname, hc, hfirst⟩ := Text.cutAt?_eq_some hcut
    have htrim := h.name_trim
    rw [hname] at htrim
    obtain ⟨d, ds, hrest⟩ := List.exists_cons_of_ne_nil (Text.trimStart_ne_nil htrim hc)
    have hd : d ∈ p.name := by
      rw [hname]
      refine List.mem_append_right _
        (List.mem_cons_of_mem _ ((List.dropWhile_sublist Text.isBlank).subset ?_))
      rw [show cut.2.dropWhile Text.isBlank = d :: ds from hrest]
      exact List.mem_cons_self
    exact .inr ⟨cut.1, c, cut.2, d, ds, hname, hfirst, hc, hrest, (h.name_uncut d hd).2⟩

/-- Taking the modifier off leaves a parameter clean. -/
theorem Clean.withoutModifier (h : p.Clean) : p.withoutModifier.Clean := by
  suffices hname : dropModifier p.name ≠ [] ∧ Text.trim (dropModifier p.name) = dropModifier p.name
      ∧ dropModifier p.name <:+ p.name from
    ⟨hname.1, hname.2.1, fun c hc => h.name_uncut c (hname.2.2.subset hc),
      h.type_trim, h.type_uncut⟩
  have hsame : p.name ≠ [] ∧ Text.trim p.name = p.name ∧ p.name <:+ p.name :=
    ⟨h.name_ne, h.name_trim, List.suffix_rfl⟩
  obtain hblank | ⟨first, c, rest, d, ds, hname, hfirst, hc, hrest, hd⟩ := h.name_cases
  · rwa [dropModifier_of_no_blank hblank]
  · have hdrop := dropModifier_append hfirst hc hrest hd
    rw [← hname] at hdrop
    rw [hdrop]
    split
    next =>
      have hsuffix : d :: ds <:+ p.name := by
        rw [← hrest, hname]
        exact ((List.dropWhile_suffix _).trans (List.suffix_cons c rest)).trans
          (List.suffix_append ..)
      refine ⟨List.cons_ne_nil _ _, Text.trim_of_suffix h.name_trim hsuffix fun x hx => ?_, hsuffix⟩
      rw [← hrest] at hx
      exact Text.head_dropWhile hx
    next => exact hsame

/-- A modifier is taken away from the name alone: right before the colon no blank ends one. -/
theorem Clean.dropModifier_render (h : p.Clean) :
    dropModifier p.render = p.withoutModifier.render := by
  by_cases htype : p.typeName = []
  · rw [render_of_no_type htype, render_of_no_type (p := p.withoutModifier) htype]
    rfl
  · rw [render_of_type htype, render_of_type (p := p.withoutModifier) htype]
    show _ = dropModifier p.name ++ ' ' :: ':' :: ' ' :: p.typeName
    obtain hblank | ⟨first, c, rest, d, ds, hname, hfirst, hc, hrest, hd⟩ := h.name_cases
    · rw [dropModifier_of_no_blank hblank, dropModifier, Text.cutAt?_append hblank (by decide)]
      rfl
    · have hlonger : Text.trimStart (rest ++ ' ' :: ':' :: ' ' :: p.typeName)
          = d :: (ds ++ ' ' :: ':' :: ' ' :: p.typeName) := by
        rw [Text.trimStart_append (by rw [hrest]; exact List.cons_ne_nil _ _), hrest,
          List.cons_append]
      rw [hname, List.append_assoc, List.cons_append, dropModifier_append hfirst hc hlonger hd,
        dropModifier_append hfirst hc hrest hd]
      split
      · rfl
      · rw [List.append_assoc, List.cons_append]

theorem Canonical.withoutModifier_eq (h : p.Canonical) : p.withoutModifier = p := by
  suffices hname : dropModifier p.name = p.name by rw [withoutModifier, hname]
  obtain hblank | ⟨first, c, rest, d, ds, hname, hfirst, hc, hrest, hd⟩ := h.clean.name_cases
  · exact dropModifier_of_no_blank hblank
  · rw [hname, dropModifier_append hfirst hc hrest hd, h.unmodified first c rest hname hc,
      if_neg Bool.false_ne_true]

/-! ### Reading a group -/

/-- **A parameter is read back** from its group, once nothing is taken away at the beginning. -/
theorem Clean.ofGroup_eq (h : p.Clean) {group : Text}
    (hgroup : dropModifier (Text.trim group) = p.render) :
    ofGroup group = [p] := by
  have hsplit (t : Text) (ht : ∀ c ∈ t, c ≠ ',') : Text.splitBy (· == ',') t = [t] :=
    Text.splitBy_eq_self fun c hc => by simpa using ht c hc
  have hname : ∀ c ∈ p.name, (c == ':') = false := fun c hc => by
    simpa using (h.name_uncut c hc).2.1
  have hkept : ([p.name].filter fun name => !name.isEmpty) = [p.name] :=
    List.filter_cons_of_pos (by simpa using h.name_ne)
  rw [ofGroup, hgroup]
  by_cases htype : p.typeName = []
  · rw [render_of_no_type htype, Text.cutAt?_eq_none hname]
    dsimp only
    rw [hsplit _ fun c hc => (h.name_uncut c hc).2.2]
    rw [List.map_singleton, h.name_trim, hkept, List.map_singleton, ← htype]
  · -- The colon is the first one, for the name has none.
    have hcolon : Text.cutAt? (· == ':') p.render = some (p.name ++ [' '], ' ' :: p.typeName) := by
      rw [render_of_type htype, List.append_cons]
      refine Text.cutAt?_append (fun c hc => ?_) rfl _
      obtain hc | hc := List.mem_append.1 hc
      · exact hname c hc
      · rw [List.mem_singleton.1 hc]
        rfl
    -- The type has no equals sign, so no default value is taken away.
    have hdefault : dropDefault (' ' :: p.typeName) = p.typeName := by
      have hnone : Text.cutAt? (· == '=') (' ' :: p.typeName) = none := by
        refine Text.cutAt?_eq_none fun c hc => ?_
        obtain rfl | hc := List.mem_cons.1 hc
        · rfl
        · simpa using (h.type_uncut c hc).2
      rw [dropDefault, hnone]
      exact (Text.trim_cons_blank (by decide) _).trans h.type_trim
    have hcomma : ∀ c ∈ p.name ++ [' '], c ≠ ',' := by
      intro c hc
      obtain hc | hc := List.mem_append.1 hc
      · exact (h.name_uncut c hc).2.2
      · rw [List.mem_singleton.1 hc]
        decide
    rw [hcolon]
    dsimp only
    rw [hsplit _ hcomma, hdefault, List.map_singleton, Text.trim_concat_blank (by decide),
      h.name_trim, hkept]
    rfl

/-- A parameter is **read back**, without the modifier its name begins with. -/
theorem Clean.ofGroup_render (h : p.Clean) : ofGroup p.render = [p.withoutModifier] :=
  h.withoutModifier.ofGroup_eq (by rw [h.trim_render, h.dropModifier_render])

/-! ### Reading a list -/

/-- A space in front of a list does not count. -/
theorem parseList_space (t : Text) : parseList (' ' :: t) = parseList t := by
  have hgroup (g : Text) : ofGroup (' ' :: g) = ofGroup g := by
    rw [ofGroup, Text.trim_cons_blank (by decide), ofGroup]
  rw [parseList, parseList, Text.splitBy, if_neg (by decide)]
  cases hsplit : Text.splitBy (· == ';') t with
  | nil => exact List.append_nil _
  | cons g gs => simp only [List.flatMap_cons, hgroup]

/-- A clean parameter is not cut at a `;`. -/
theorem Clean.render_uncut (h : p.Clean) : ∀ c ∈ p.render, (c == ';') = false := by
  intro c hc
  rw [beq_eq_false_iff_ne]
  by_cases htype : p.typeName = []
  · rw [render_of_no_type htype] at hc
    exact (h.name_uncut c hc).1
  · rw [render_of_type htype] at hc
    simp only [List.mem_append, List.mem_cons] at hc
    obtain hc | rfl | rfl | rfl | hc := hc
    · exact (h.name_uncut c hc).1
    · decide
    · decide
    · decide
    · exact (h.type_uncut c hc).1

/-- What **a list of clean parameters** is read back as. -/
theorem parseList_renderList_of_clean {ps : List Param} (h : ∀ p ∈ ps, p.Clean) :
    parseList (renderList ps) = ps.map withoutModifier := by
  induction ps with
  | nil => rfl
  | cons p ps ih =>
    have hp := h p (by simp)
    cases ps with
    | nil =>
      show (Text.splitBy (· == ';') p.render).flatMap ofGroup = [p.withoutModifier]
      rw [Text.splitBy_eq_self hp.render_uncut, List.flatMap_singleton, hp.ofGroup_render]
    | cons q qs =>
      have hothers : parseList (renderList (q :: qs)) = (q :: qs).map withoutModifier :=
        ih fun r hr => h r (by simp [hr])
      have htext : renderList (p :: q :: qs) = p.render ++ ';' :: ' ' :: renderList (q :: qs) := by
        show p.render ++ "; ".toList ++ renderList (q :: qs) = _
        rw [List.append_assoc]
        rfl
      rw [htext, parseList, Text.splitBy_append hp.render_uncut rfl, List.flatMap_cons,
        hp.ofGroup_render, ← parseList, parseList_space, hothers]
      rfl

/-- **A list of canonical parameters is read back** from its text. -/
theorem parseList_renderList {ps : List Param} (h : ∀ p ∈ ps, p.Canonical) :
    parseList (renderList ps) = ps := by
  rw [parseList_renderList_of_clean fun p hp => (h p hp).clean,
    List.map_congr_left fun p hp => (h p hp).withoutModifier_eq, List.map_id']

end Param

end PascalAtlas
