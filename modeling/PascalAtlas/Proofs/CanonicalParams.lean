import PascalAtlas.Proofs.Casing
import PascalAtlas.Proofs.ParamList

/-!
# The parameter lists that are read back

Canonical parameters are read back from their list, and no others are. Whatever list is read, its
parameters are clean (`Param.clean_of_mem_parseList`): the cuts leave no separator in a name or a
type, and what they leave is trimmed. And a clean list is read back up to modifiers, so that it
stays the same only if no name begins with one (`Param.Clean.withoutModifier_eq_iff`).

Reading takes away one modifier. A name that still begins with a modifier then, as that of
`var var x`, loses it when the list is written and read again. This is the only way in which a list
that was read is not stable (`Param.parseList_renderList_iff`).
-/

namespace PascalAtlas

/-! ## What trimming and cutting leave -/

namespace Text

theorem mem_of_mem_trim {t : Text} {c : Char} (hc : c ∈ trim t) : c ∈ t := by
  have hstart : c ∈ trimStart t :=
    List.mem_reverse.1 ((List.dropWhile_sublist _).subset (List.mem_reverse.1 hc))
  exact (List.dropWhile_sublist _).subset hstart

theorem trim_trim (t : Text) : trim (trim t) = trim t := by
  refine trim_eq_self (fun c hc => ?_) fun c hc => ?_
  · -- What is taken away at the end leaves the beginning alone.
    refine head_dropWhile (t := t) ?_
    obtain ⟨back, hback⟩ : trim t <+: trimStart t := List.reverse_suffix.1 (by
      rw [trim, trimEnd, List.reverse_reverse]
      exact List.dropWhile_suffix _)
    show c ∈ (trimStart t).head?
    rw [← hback, List.head?_append, hc]
    rfl
  · rw [trim, trimEnd, List.getLast?_reverse] at hc
    exact head_dropWhile hc

/-- The **pieces of a text** have no separator in them, and nothing that the text does not have. -/
theorem mem_of_mem_splitBy {α : Type} {q : α → Bool} {xs piece : List α}
    (hpiece : piece ∈ splitBy q xs) :
    ∀ x ∈ piece, x ∈ xs ∧ q x = false := by
  induction xs generalizing piece with
  | nil =>
    rw [splitBy, List.mem_singleton] at hpiece
    simp [hpiece]
  | cons y ys ih =>
    have hlater {piece : List α} (hpiece : piece ∈ splitBy q ys) : ∀ x ∈ piece, x ∈ y :: ys
        ∧ q x = false :=
      fun x hx => ⟨List.mem_cons_of_mem _ (ih hpiece x hx).1, (ih hpiece x hx).2⟩
    rw [splitBy] at hpiece
    split at hpiece
    next =>
      obtain rfl | hpiece := List.mem_cons.1 hpiece
      · simp
      · exact hlater hpiece
    next hy =>
      -- The first piece of the rest grows by a character that is no separator.
      have hfirst : ∀ x ∈ [y], x ∈ y :: ys ∧ q x = false := by simpa using hy
      split at hpiece
      next => exact List.mem_singleton.1 hpiece ▸ hfirst
      next first others hsplit =>
        obtain rfl | hpiece := List.mem_cons.1 hpiece
        · intro x hx
          obtain rfl | hx := List.mem_cons.1 hx
          · exact hfirst x (by simp)
          · exact hlater (hsplit ▸ List.mem_cons_self) x hx
        · exact hlater (hsplit ▸ List.mem_cons_of_mem _ hpiece)

end Text

namespace Param

variable {p : Param}

/-! ## Parameters that are read -/

theorem mem_of_mem_dropModifier {group : Text} {c : Char} (hc : c ∈ dropModifier group) :
    c ∈ group := by
  unfold dropModifier at hc
  split at hc
  next => exact hc
  next first rest hcut =>
    obtain ⟨d, rfl, -, -⟩ := Text.cutAt?_eq_some hcut
    have hif {b : Bool} (hc : c ∈ if b = true then Text.trimStart rest else first ++ d :: rest) :
        c ∈ first ++ d :: rest := by
      split at hc
      · exact List.mem_append_right _
          (List.mem_cons_of_mem _ ((List.dropWhile_sublist _).subset hc))
      · exact hc
    exact hif hc

/-- A type is what stands before the default value, trimmed. -/
theorem dropDefault_eq (type : Text) :
    ∃ t, dropDefault type = Text.trim t ∧ ∀ c ∈ t, c ∈ type ∧ c ≠ '=' := by
  unfold dropDefault
  split
  next front back hcut =>
    obtain ⟨c, rfl, -, hfront⟩ := Text.cutAt?_eq_some hcut
    exact ⟨front, rfl, fun d hd => ⟨List.mem_append_left _ hd, by simpa using hfront d hd⟩⟩
  next hcut => exact ⟨type, rfl,
    fun c hc => ⟨hc, by simpa using Text.uncut_of_cutAt?_eq_none hcut c hc⟩⟩

/-- The text of a group is cut into the names and the type, and the colon is in neither. -/
theorem mem_ofGroup {group : Text} (hp : p ∈ ofGroup group) :
    ∃ names type, (∀ c ∈ names, c ∈ group ∧ c ≠ ':') ∧ (∀ c ∈ type, c ∈ group ∧ c ≠ '=')
      ∧ p.name ∈ (Text.splitBy (· == ',') names).map Text.trim ∧ p.name ≠ []
        ∧ p.typeName = Text.trim type := by
  have hgroup {c : Char} (hc : c ∈ dropModifier (Text.trim group)) : c ∈ group :=
    Text.mem_of_mem_trim (mem_of_mem_dropModifier hc)
  unfold ofGroup at hp
  dsimp only at hp
  obtain ⟨name, hname, rfl⟩ := List.mem_map.1 hp
  obtain ⟨hname, hne⟩ := List.mem_filter.1 hname
  replace hne : name ≠ [] := by simpa using hne
  split at hname
  next names type hcut =>
    obtain ⟨c, heq, -, hnames⟩ := Text.cutAt?_eq_some hcut
    rw [heq] at hgroup
    obtain ⟨t, htype, ht⟩ := dropDefault_eq type
    refine ⟨names, t, fun d hd => ⟨hgroup (by simp [hd]), by simpa using hnames d hd⟩,
      fun d hd => ⟨hgroup (by simp [(ht d hd).1]), (ht d hd).2⟩, hname, hne, htype⟩
  next hcut =>
    have hcolon := Text.uncut_of_cutAt?_eq_none hcut
    exact ⟨_, [], fun d hd => ⟨hgroup hd, by simpa using hcolon d hd⟩, by simp, hname, hne, rfl⟩

/-- **Every parameter that is read is clean.** -/
theorem clean_of_mem_parseList {raw : Text} (hp : p ∈ parseList raw) : p.Clean := by
  obtain ⟨group, hgroup, hp⟩ := List.mem_flatMap.1 hp
  have hsemi : ∀ c ∈ group, c ≠ ';' := fun c hc => by
    simpa using (Text.mem_of_mem_splitBy hgroup c hc).2
  obtain ⟨names, type, hnames, htype, hname, hne, htypeName⟩ := mem_ofGroup hp
  obtain ⟨piece, hpiece, hname⟩ := List.mem_map.1 hname
  refine ⟨hne, ?_, fun c hc => ?_, ?_, fun c hc => ?_⟩
  · rw [← hname, Text.trim_trim]
  · rw [← hname] at hc
    obtain ⟨hmem, hcomma⟩ := Text.mem_of_mem_splitBy hpiece c (Text.mem_of_mem_trim hc)
    exact ⟨hsemi c (hnames c hmem).1, (hnames c hmem).2, by simpa using hcomma⟩
  · rw [htypeName, Text.trim_trim]
  · rw [htypeName] at hc
    have hmem := htype c (Text.mem_of_mem_trim hc)
    exact ⟨hsemi c hmem.1, hmem.2⟩

/-! ## Names that begin with a modifier -/

/-- Whether **a modifier** stands before the name, in any case, with blanks and
more text behind it. -/
def Modified (p : Param) : Prop :=
  ∃ word blanks more, p.name = word ++ blanks ++ more ∧ Text.isOneOf word modifiers = true
    ∧ blanks ≠ [] ∧ (∀ c ∈ blanks, Text.isBlank c = true) ∧ more ≠ []

/-- A modifier is one word. -/
theorem not_blank_of_isOneOf {word : Text} (hword : Text.isOneOf word modifiers = true) :
    ∀ c ∈ word, Text.isBlank c = false := by
  intro c hc
  obtain ⟨m, hm, heq⟩ := List.any_eq_true.1 hword
  have hlower : c.toLower ∈ Text.lower m := by
    rw [← eq_of_beq heq]
    exact List.mem_map_of_mem hc
  have hmodifiers : ∀ m ∈ modifiers, ∀ d ∈ Text.lower m, Text.isBlank d = false := by decide
  rw [← test_toLower Text.isBlank (by decide) c]
  exact hmodifiers m hm _ hlower

/-- In a clean name more text stands behind every blank. -/
theorem Clean.modified (h : p.Clean) {word more : Text} {c : Char}
    (hname : p.name = word ++ c :: more) (hword : Text.isOneOf word modifiers = true)
    (hc : Text.isBlank c = true) : p.Modified := by
  have htrim := h.name_trim
  rw [hname] at htrim
  refine ⟨word, [c], more, ?_, hword, List.cons_ne_nil _ _, by simpa using hc, fun hnil => ?_⟩
  · rw [hname, List.append_assoc, List.singleton_append]
  · exact Text.trimStart_ne_nil htrim hc (by rw [hnil]; rfl)

/-- A modifier is taken away exactly where one stands. -/
theorem Clean.withoutModifier_eq_iff (h : p.Clean) : p.withoutModifier = p ↔ ¬ p.Modified := by
  have hfields : p.withoutModifier = p ↔ dropModifier p.name = p.name :=
    ⟨congrArg Param.name, fun hname => by rw [Param.withoutModifier, hname]⟩
  rw [hfields]
  obtain hblank | ⟨first, c, rest, d, ds, hname, hfirst, hc, hrest, hd⟩ := h.name_cases
  · refine iff_of_true (dropModifier_of_no_blank hblank) ?_
    rintro ⟨word, blanks, more, heq, -, hne, hblanks, -⟩
    obtain ⟨b, bs, rfl⟩ := List.exists_cons_of_ne_nil hne
    have hb := hblank b (by simp [heq])
    rw [hblanks b (by simp)] at hb
    cases hb
  · have hdrop := dropModifier_append hfirst hc hrest hd
    rw [← hname] at hdrop
    rw [hdrop]
    by_cases hmodifier : Text.isOneOf first modifiers = true
    · rw [if_pos hmodifier]
      refine iff_of_false (fun heq => ?_) fun hnot => hnot (h.modified hname hmodifier hc)
      -- What is left is shorter.
      have hle : (d :: ds).length ≤ rest.length := hrest ▸ (List.dropWhile_sublist _).length_le
      have hlength := congrArg List.length (heq.trans hname)
      rw [List.length_append, List.length_cons (a := c)] at hlength
      omega
    · rw [if_neg hmodifier]
      refine iff_of_true rfl ?_
      rintro ⟨word, blanks, more, heq, hword, hne, hblanks, -⟩
      -- Both words end at the first blank of the name.
      obtain ⟨b, bs, rfl⟩ := List.exists_cons_of_ne_nil hne
      have hcut := Text.cutAt?_append hfirst hc rest
      rw [← hname, heq, List.append_assoc, List.cons_append,
        Text.cutAt?_append (not_blank_of_isOneOf hword) (hblanks b (by simp))] at hcut
      exact hmodifier ((Prod.mk.inj (Option.some.inj hcut)).1 ▸ hword)

/-- The canonical parameters are the clean ones without a modifier. -/
theorem canonical_iff : p.Canonical ↔ p.Clean ∧ ¬ p.Modified := by
  refine ⟨fun h => ⟨h.clean, h.clean.withoutModifier_eq_iff.1 h.withoutModifier_eq⟩, fun h => ?_⟩
  obtain ⟨hclean, hmodified⟩ := h
  refine ⟨hclean.name_ne, hclean.name_trim, hclean.name_uncut, ?_, hclean.type_trim,
    hclean.type_uncut⟩
  intro front c back hname hc
  exact Bool.eq_false_iff.2 fun hfront => hmodified (hclean.modified hname hfront hc)

/-! ## The lists that are read back -/

/-- A clean list is read back if no name begins with a modifier, and only then. -/
theorem parseList_renderList_eq_iff {ps : List Param} (h : ∀ p ∈ ps, p.Clean) :
    parseList (renderList ps) = ps ↔ ∀ p ∈ ps, ¬ p.Modified := by
  rw [parseList_renderList_of_clean h]
  calc ps.map withoutModifier = ps
      ↔ ps.map withoutModifier = ps.map id := by rw [List.map_id]
    _ ↔ ∀ p ∈ ps, p.withoutModifier = p := List.map_inj_left
    _ ↔ ∀ p ∈ ps, ¬ p.Modified := forall₂_congr fun p hp => (h p hp).withoutModifier_eq_iff

/-- **Parameter lists are read back exactly if they are canonical.** A list is what its text is read
as if and only if every name is a nonempty trimmed text without `;`, `:` and `,` that does not begin
with a modifier, and every type is a trimmed text without `;` and `=`. So a list that was read is
read again as the same list exactly if none of its names begins with a modifier. -/
theorem parseList_renderList_iff :
    (∀ ps : List Param, parseList (renderList ps) = ps ↔
      ∀ p ∈ ps,
        (p.name ≠ [] ∧ Text.trim p.name = p.name
          ∧ (∀ c ∈ p.name, c ≠ ';' ∧ c ≠ ':' ∧ c ≠ ',') ∧ ¬ p.Modified)
        ∧ Text.trim p.typeName = p.typeName ∧ ∀ c ∈ p.typeName, c ≠ ';' ∧ c ≠ '=')
    ∧ ∀ raw : Text, parseList (renderList (parseList raw)) = parseList raw
      ↔ ∀ p ∈ parseList raw, ¬ p.Modified := by
  refine ⟨fun ps => ⟨fun heq p hp => ?_, fun h => ?_⟩, fun raw => ?_⟩
  · have hclean : ∀ p ∈ ps, p.Clean := fun p hp => clean_of_mem_parseList (heq.symm ▸ hp)
    have hmodified := (parseList_renderList_eq_iff hclean).1 heq p hp
    obtain ⟨hne, htrim, huncut, htype, htypeUncut⟩ := hclean p hp
    exact ⟨⟨hne, htrim, huncut, hmodified⟩, htype, htypeUncut⟩
  · refine parseList_renderList fun p hp => canonical_iff.2 ?_
    obtain ⟨⟨hne, htrim, huncut, hmodified⟩, htype, htypeUncut⟩ := h p hp
    exact ⟨⟨hne, htrim, huncut, htype, htypeUncut⟩, hmodified⟩
  · exact parseList_renderList_eq_iff fun p hp => clean_of_mem_parseList hp

/-- A second modifier is lost when the list is read again. -/
example :
    parseList "var VAR x: T".toList = [⟨"VAR x".toList, "T".toList⟩]
    ∧ parseList (renderList (parseList "var VAR x: T".toList)) = [⟨"x".toList, "T".toList⟩] := by
  decide

end Param

end PascalAtlas
