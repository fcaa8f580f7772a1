import PascalAtlas.Proofs.Matching
import PascalAtlas.Proofs.Seen
import PascalAtlas.Proofs.Told

/-!
# Words that patterns look for

Most patterns look for a reserved word that stands for itself. Such a pattern passes over every text
in which the word is not **spoken**: the words of a text are its runs of word characters
(`Text.runs`), a text is silent about some words if none of its own is one of them (`Text.Silent`),
and a search passes over a silent text (`Pattern.OpensWith.absent`).

To see that a text is silent it is enough to know its words. `Text.Says` gives them up to plain
names, which are never reserved.
-/

namespace PascalAtlas

/-! ## The words of a text -/

namespace Text

/-- The **runs of word characters** in a text. There is an empty one wherever two
other characters meet. -/
def runs (t : Text) : List Text :=
  splitBy (fun c => !isWordChar c) t

/-- A character of no word ends the words before it. -/
theorem runs_append_cons {c : Char} (hc : isWordChar c = false) (a b : Text) :
    runs (a ++ c :: b) = runs a ++ runs b :=
  splitBy_append_cons (by rw [hc]; rfl) a b

/-- A word is its only run. -/
theorem runs_word {x : Text} (hx : ∀ c ∈ x, isWordChar c = true) : runs x = [x] :=
  splitBy_eq_self fun c hc => by rw [hx c hc]; rfl

/-- Where a text goes on with another character, its words are those of the two parts. -/
theorem mem_runs_append {x a b : Text} (hb : b.head?.any isWordChar = false)
    (hx : x ∈ runs (a ++ b)) :
    x ∈ runs a ∨ x ∈ runs b := by
  cases b with
  | nil =>
    rw [List.append_nil] at hx
    exact .inl hx
  | cons c cs =>
    rw [runs_append_cons hb, List.mem_append] at hx
    refine hx.imp_right fun hx => ?_
    have hcs := runs_append_cons hb [] cs
    rw [List.nil_append] at hcs
    rw [hcs]
    exact List.mem_append_right _ hx

/-- A word with which a text begins is one of its words. -/
theorem mem_runs_of_append {x rest : Text} (hx : ∀ c ∈ x, isWordChar c = true)
    (hrest : rest.head?.any isWordChar = false) : x ∈ runs (x ++ rest) := by
  cases rest with
  | nil =>
    rw [List.append_nil, runs_word hx]
    exact List.mem_singleton_self x
  | cons c cs =>
    rw [runs_append_cons hrest, runs_word hx]
    simp

/-- A word that stands for itself is one of the words. -/
theorem mem_runs_standing {a x rest : Text} (ha : a.getLast?.any isWordChar = false)
    (hx : ∀ c ∈ x, isWordChar c = true) (hrest : rest.head?.any isWordChar = false) :
    x ∈ runs (a ++ (x ++ rest)) := by
  have hhere := mem_runs_of_append hx hrest
  obtain rfl | ⟨a, c, rfl⟩ := List.eq_nil_or_concat a
  · exact hhere
  · have hc : isWordChar c = false := by simpa using ha
    rw [List.concat_eq_append, List.append_assoc, List.singleton_append, runs_append_cons hc]
    exact List.mem_append_right _ hhere

/-- The characters of identifiers are characters of words. -/
theorem isWordChar_of_isIdentChar {c : Char} (hc : isIdentChar c = true) : isWordChar c = true := by
  have hrange := range_of_isIdentChar hc
  rw [isWordChar, if_pos (by omega)]
  exact hc

/-- The codes of the blanks. -/
def blankCodes : List Nat :=
  [9, 10, 11, 12, 13, 0x20, 0x85, 0xa0, 0x1680, 0x2000, 0x2001, 0x2002, 0x2003, 0x2004, 0x2005,
    0x2006, 0x2007, 0x2008, 0x2009, 0x200a, 0x2028, 0x2029, 0x202f, 0x205f, 0x3000]

theorem mem_blankCodes {c : Char} (hc : isBlank c = true) : c.toNat ∈ blankCodes := by
  simp only [isBlank, Bool.or_eq_true, Bool.and_eq_true, decide_eq_true_eq, beq_iff_eq] at hc
  simp only [blankCodes, List.mem_cons, List.not_mem_nil, or_false]
  omega

/-- Blanks are not. -/
theorem isWordChar_of_isBlank {c : Char} (hc : isBlank c = true) : isWordChar c = false := by
  have hcodes : ∀ n ∈ blankCodes, inRanges wordRanges n = false := by decide +kernel
  rw [isWordChar]
  split
  · refine Bool.eq_false_iff.2 fun hident => ?_
    rw [isBlank_of_isIdentChar hident] at hc
    cases hc
  · exact hcodes _ (mem_blankCodes hc)

end Text

/-! ## Words in patterns -/

namespace Pattern

open Cursor (between)

/-- A text **spells** a word, letter by letter, as patterns read it. -/
def Spells (w : String) (x : Text) : Prop :=
  List.Forall₂ (fun letter c => isLetter letter c = true) w.toList x

instance (w : String) (x : Text) : Decidable (Spells w x) :=
  inferInstanceAs (Decidable (List.Forall₂ _ _ _))

/-- Whether two words cannot be spelled at the same place. -/
def clash (v w : String) : Bool :=
  (v.toList.zip w.toList).any fun (letter, c) => !isLetter letter c

/-- A letter is written small or as a capital, and two letters also as a sign beyond ASCII. -/
theorem isLetter_iff {letter c : Char} :
    isLetter letter c = true ↔ c.toLower = letter ∨ (letter = 's' ∧ c = 'ſ')
      ∨ (letter = 'k' ∧ c = '\u212a') := by
  simp only [isLetter, Bool.or_eq_true, Bool.and_eq_true, beq_iff_eq, or_assoc]

theorem toLower_of_not_isUpper {c : Char} (hc : c.isUpper = false) : c.toLower = c := by
  refine dif_neg fun hupper => ?_
  have htrue : c.isUpper = true := decide_eq_true hupper
  rw [hc] at htrue
  cases htrue

/-- Whatever is read as a letter is a character of words. -/
theorem isWordChar_of_isLetter {letter c : Char} (hletter : letter.isLower = true)
    (h : isLetter letter c = true) :
    Text.isWordChar c = true := by
  obtain rfl | ⟨-, rfl⟩ | ⟨-, rfl⟩ := isLetter_iff.1 h
  · refine Text.isWordChar_of_isIdentChar (Text.isIdentChar_of_isAlpha (Bool.or_eq_true_iff.2 ?_))
    by_cases hupper : c.isUpper = true
    · exact .inl hupper
    · rw [toLower_of_not_isUpper (Bool.eq_false_iff.2 hupper)] at hletter
      exact .inr hletter
  · decide +kernel
  · decide +kernel

/-- A letter that is not beyond ASCII has that letter as its small letter. -/
theorem toLower_of_isLetter {letter c : Char} (hc : c.toNat < 128) (h : isLetter letter c = true) :
    c.toLower = letter := by
  obtain h | ⟨-, rfl⟩ | ⟨-, rfl⟩ := isLetter_iff.1 h
  · exact h
  · exact absurd hc (by decide)
  · exact absurd hc (by decide)

/-- A spelling has only characters of words. -/
theorem Spells.isWordChar {w : String} {x : Text} (hw : w.toList.all Char.isLower = true)
    (h : Spells w x) :
    ∀ c ∈ x, Text.isWordChar c = true := by
  rw [List.all_eq_true] at hw
  rw [Spells] at h
  generalize w.toList = letters at hw h
  induction h with
  | nil => simp
  | cons hletter _ ih =>
    intro c hc
    obtain rfl | hc := List.mem_cons.1 hc
    · exact isWordChar_of_isLetter (hw _ (by simp)) hletter
    · exact ih (fun l hl => hw l (by simp [hl])) c hc

/-- Within ASCII, a spelling is the word in some case. -/
theorem Spells.lower_eq {w : String} {x : Text} (hx : ∀ c ∈ x, c.toNat < 128) (h : Spells w x) :
    Text.lower x = w.toList := by
  rw [Spells] at h
  generalize w.toList = letters at h
  induction h with
  | nil => rfl
  | cons hletter _ ih =>
    rw [Text.lower, List.map_cons, toLower_of_isLetter (hx _ (by simp)) hletter]
    exact congrArg _ (ih fun d hd => hx d (by simp [hd]))

theorem isUpper_of_isLower {c : Char} (hc : c.isLower = true) : c.isUpper = false := by
  unfold Char.isLower at hc
  unfold Char.isUpper
  simp only [Bool.and_eq_true, decide_eq_true_eq, UInt32.le_iff_toNat_le] at hc
  simp only [decide_eq_false_iff_not, UInt32.le_iff_toNat_le]
  have hfirst : 'a'.val.toNat = 97 := rfl
  have hlast : 'Z'.val.toNat = 90 := rfl
  omega

theorem isLetter_self {letter : Char} (h : letter.isLower = true) :
    isLetter letter letter = true := by
  rw [isLetter, toLower_of_not_isUpper (isUpper_of_isLower h), beq_self_eq_true]
  rfl

/-- A word is one of its spellings. -/
theorem spells_self {w : String} (hw : w.toList.all Char.isLower = true) : Spells w w.toList := by
  rw [List.all_eq_true] at hw
  exact List.forall₂_same.2 fun letter hletter => isLetter_self (hw letter hletter)

/-- A text that is a word in any case spells it. -/
theorem spells_of_lower_eq {w : String} {x : Text} (h : Text.lower x = w.toList) : Spells w x := by
  rw [Spells, ← h, Text.lower, List.forall₂_map_left_iff, List.forall₂_same]
  intro c _
  rw [isLetter, beq_self_eq_true]
  rfl

/-- A character is the letter of at most one kind. -/
theorem isLetter_unique {l l' c : Char} (hl : l.isLower = true) (hl' : l'.isLower = true)
    (h : isLetter l c = true) (h' : isLetter l' c = true) : l = l' := by
  -- The two letters beyond ASCII are of one kind each; any other is of the kind
  -- of its small letter.
  have hlong {l : Char} (hl : l.isLower = true) (h : isLetter l 'ſ' = true) : l = 's' := by
    obtain rfl | ⟨rfl, -⟩ | ⟨-, hne⟩ := isLetter_iff.1 h
    · exact absurd hl (by decide)
    · rfl
    · exact absurd hne (by decide)
  have hkelvin {l : Char} (hl : l.isLower = true) (h : isLetter l '\u212a' = true) : l = 'k' := by
    obtain rfl | ⟨-, hne⟩ | ⟨rfl, -⟩ := isLetter_iff.1 h
    · exact absurd hl (by decide)
    · exact absurd hne (by decide)
    · rfl
  obtain hlower | ⟨-, rfl⟩ | ⟨-, rfl⟩ := isLetter_iff.1 h
  · obtain hlower' | ⟨-, rfl⟩ | ⟨-, rfl⟩ := isLetter_iff.1 h'
    · rw [← hlower, hlower']
    · rw [hlong hl h, hlong hl' h']
    · rw [hkelvin hl h, hkelvin hl' h']
  · rw [hlong hl h, hlong hl' h']
  · rw [hkelvin hl h, hkelvin hl' h']

/-- Where one word stands, no word stands with which it clashes. -/
theorem not_spells_of_clash {v w : String} (hv : v.toList.all Char.isLower = true)
    (hw : w.toList.all Char.isLower = true) (h : clash v w = true) {x y z rest : Text}
    (hx : Spells w x) (htext : x ++ rest = y ++ z) : ¬ Spells v y := by
  rw [List.all_eq_true] at hv hw
  rw [clash] at h
  rw [Spells] at hx ⊢
  generalize v.toList = ls, w.toList = ls' at h hx hv hw
  intro hy
  induction hy generalizing ls' x with
  | nil => simp at h
  | @cons l c ls y hl _ ih =>
    cases hx with
    | nil => simp at h
    | @cons l' d ls' x hl' hx =>
      rw [List.cons_append, List.cons_append, List.cons.injEq] at htext
      obtain ⟨rfl, htext⟩ := htext
      obtain rfl := isLetter_unique (hv l (by simp)) (hw l' (by simp)) hl hl'
      refine ih htext ls' ?_ hx (fun k hk => hv k (by simp [hk])) fun k hk => hw k (by simp [hk])
      simpa [isLetter_self (hv l (by simp))] using h

/-- What fits the pattern of a word spells it. -/
theorem spells_of_fits {w : String} {front x rest : Text} (h : (word w).Fits front x rest) :
    Spells w x := by
  rw [word] at h
  rw [Spells]
  generalize w.toList = letters at h
  induction letters generalizing front x with
  | nil =>
    obtain rfl : x = [] := h
    exact .nil
  | cons letter letters ih =>
    cases letters with
    | nil =>
      obtain ⟨c, rfl, hc⟩ := h
      exact .cons hc .nil
    | cons letter' letters =>
      obtain ⟨y, z, rfl, ⟨c, rfl, hc⟩, hz⟩ := h
      exact .cons hc (ih hz)

/-- The pattern of a word takes every spelling of it. -/
theorem takes_word {o : Nat} {front x rest : Text} {caps : Captures} {w : String}
    (hx : Spells w x) :
    (word w).Takes o front x rest caps caps := by
  rw [Spells] at hx
  rw [word]
  generalize w.toList = letters at hx
  induction hx generalizing front with
  | nil => exact takes_empty
  | @cons letter c letters x hletter hx ih =>
    cases hx with
    | nil => exact takes_char hletter
    | cons hletter' hx => exact Takes.seq (x := [c]) (takes_char hletter) ih

/-- What fits a choice of words spells one of them. -/
theorem spells_of_fits_words {ws : List String} {front x rest : Text}
    (h : (words ws).Fits front x rest) :
    ∃ w ∈ ws, Spells w x := by
  rw [words] at h
  induction ws with
  | nil =>
    obtain ⟨c, -, hc⟩ := h
    cases hc
  | cons v ws ih =>
    cases ws with
    | nil => exact ⟨v, by simp, spells_of_fits h⟩
    | cons v' ws =>
      obtain h | h := h
      · exact ⟨v, by simp, spells_of_fits h⟩
      · obtain ⟨w, hw, hspells⟩ := ih h
        exact ⟨w, by simp [hw], hspells⟩

/-- A choice of words takes a word with which **all others clash**. -/
theorem takes_words {o : Nat} {front x rest : Text} {caps : Captures} {ws : List String}
    {w : String} (hmem : w ∈ ws) (hws : ∀ v ∈ ws, v.toList.all Char.isLower = true)
    (hclash : ∀ v ∈ ws, v = w ∨ clash v w = true) (hx : Spells w x) :
    (words ws).Takes o front x rest caps caps := by
  have hw := hws w hmem
  rw [words]
  induction ws with
  | nil => cases hmem
  | cons v ws ih =>
    by_cases hv : v = w
    · subst hv
      cases ws with
      | nil => exact takes_word hx
      | cons v' ws => exact (takes_word hx).alt_left
    · have hmem' : w ∈ ws := (List.mem_cons.1 hmem).resolve_left fun h => hv h.symm
      have hothers := ih hmem' (fun v hv => hws v (by simp [hv])) fun v hv =>
        hclash v (by simp [hv])
      cases ws with
      | nil => cases hmem'
      | cons v' ws =>
        -- An alternative that comes first could be taken in its place, if it did not
        -- clash with the word.
        refine hothers.alt_right fun y z htext hfits => ?_
        exact not_spells_of_clash (hws v (by simp)) hw
          ((hclash v (by simp)).resolve_left hv) hx htext
          (spells_of_fits hfits)

end Pattern

/-! ## Silence -/

namespace Text

/-- A text in which **none of some words is spoken**. -/
def Silent (ws : List String) (t : Text) : Prop :=
  ∀ x ∈ runs t, ∀ w ∈ ws, ¬ Pattern.Spells w x

instance (ws : List String) (t : Text) : Decidable (Silent ws t) :=
  inferInstanceAs (Decidable (∀ x ∈ runs t, ∀ w ∈ ws, ¬ Pattern.Spells w x))

variable {ws vs : List String} {a b t : Text}

/-- A text is silent about fewer words, too. -/
theorem Silent.mono (h : t.Silent ws) (hsub : ∀ v ∈ vs, v ∈ ws) : t.Silent vs :=
  fun x hx v hv => h x hx v (hsub v hv)

/-- Silent texts are silent together, if no word reaches over the place where they meet. -/
theorem Silent.append (ha : a.Silent ws) (hb : b.Silent ws)
    (hhead : b.head?.any isWordChar = false) :
    Silent ws (a ++ b) :=
  fun x hx => (mem_runs_append hhead hx).elim (ha x) (hb x)

/-- A character of no word between them makes sure of it. -/
theorem Silent.append_cons {c : Char} (ha : a.Silent ws) (hc : isWordChar c = false)
    (hb : b.Silent ws) :
    Silent ws (a ++ c :: b) := by
  intro x hx
  rw [runs_append_cons hc, List.mem_append] at hx
  exact hx.elim (ha x) (hb x)

end Text

namespace Pattern

open Cursor (between)

/-- Whatever fits the pattern stands where one of some words stands for itself. -/
def OpensWith (ws : List String) (p : Pattern) : Prop :=
  ∀ front x rest, p.Fits front x rest → front.getLast?.any Text.isWordChar = false ∧
    ∃ w ∈ ws, ∃ y z, x ++ rest = y ++ z ∧ Spells w y ∧ z.head?.any Text.isWordChar = false

/-- Words that are looked for are in small letters. -/
def areWords (ws : List String) : Bool :=
  ws.all fun w => !w.toList.isEmpty && w.toList.all Char.isLower

theorem areWords.ne_nil {ws : List String} (hws : areWords ws = true) {w : String} (hw : w ∈ ws) :
    w.toList ≠ [] := by
  rw [areWords, List.all_eq_true] at hws
  have h := hws w hw
  rw [Bool.and_eq_true] at h
  simpa using h.1

theorem areWords.isLower {ws : List String} (hws : areWords ws = true) {w : String} (hw : w ∈ ws) :
    w.toList.all Char.isLower = true := by
  rw [areWords, List.all_eq_true] at hws
  have h := hws w hw
  rw [Bool.and_eq_true] at h
  exact h.2

/-- Nor are their spellings. -/
theorem Spells.ne_nil {w : String} {x : Text} (hw : w.toList ≠ []) (h : Spells w x) : x ≠ [] := by
  rintro rfl
  rw [Spells, List.forall₂_nil_right_iff] at h
  exact hw h

/-- Before a word that begins at a boundary there is no word. -/
theorem nonword_before {front x rest : Text} (hne : x ≠ []) (hx : ∀ c ∈ x, Text.isWordChar c = true)
    (h : (front.getLast?.any Text.isWordChar != (x ++ rest).head?.any Text.isWordChar) = true) :
    front.getLast?.any Text.isWordChar = false := by
  obtain ⟨c, cs, rfl⟩ := List.exists_cons_of_ne_nil hne
  rw [List.cons_append, List.head?_cons, Option.any_some, hx c (by simp)] at h
  simpa using h

/-- Nor is there one behind a word that ends at a boundary. -/
theorem nonword_after {front x rest : Text} (hne : x ≠ []) (hx : ∀ c ∈ x, Text.isWordChar c = true)
    (h : ((front ++ x).getLast?.any Text.isWordChar != rest.head?.any Text.isWordChar) = true) :
    rest.head?.any Text.isWordChar = false := by
  obtain ⟨cs, c, rfl⟩ := (List.eq_nil_or_concat x).resolve_left hne
  rw [List.concat_eq_append, ← List.append_assoc, List.getLast?_concat, Option.any_some,
    hx c (by simp)] at h
  simpa using h

/-- **A search passes over silence.** -/
theorem OpensWith.absent {ws : List String} {p : Pattern} (hp : p.OpensWith ws)
    (hws : areWords ws = true) {front t rest : Text} (ht : t.Silent ws)
    (hrest : rest.head?.any Text.isWordChar = false) : p.Absent front t rest := by
  intro s s' hsplit hne x r htext hfits
  obtain ⟨hbefore, w, hw, y, z, hy, hspells, hafter⟩ := hp _ _ _ hfits
  have hwords := hspells.isWordChar (areWords.isLower hws hw)
  -- The word lies inside the text, because what follows the text begins with another character.
  obtain ⟨z', rfl, hz'⟩ : ∃ z', s' = y ++ z' ∧ z'.head?.any Text.isWordChar = false := by
    rw [hy] at htext
    obtain ⟨z', rfl, rfl⟩ | ⟨y', rfl, rfl⟩ := List.append_eq_append_iff.1 htext
    · cases z' with
      | nil => exact ⟨[], by simp, rfl⟩
      | cons c cs =>
        have hc := hwords c (by simp)
        rw [List.cons_append, List.head?_cons, Option.any_some, hc] at hrest
        cases hrest
    · refine ⟨y', rfl, ?_⟩
      cases y' with
      | nil => rfl
      | cons c cs => exact hafter
  have hs : s.getLast?.any Text.isWordChar = false := by
    rw [List.getLast?_append] at hbefore
    cases h : s.getLast? with
    | none => rfl
    | some c => rwa [h, Option.some_or] at hbefore
  rw [hsplit] at ht
  exact ht y (Text.mem_runs_standing hs hwords hz') w hw hspells

/-- Nothing begins with a character that belongs to no word. -/
theorem OpensWith.absent_nonword {ws : List String} {p : Pattern} (hp : p.OpensWith ws)
    (hws : areWords ws = true) {c : Char} (hc : Text.isWordChar c = false) (front rest : Text) :
    p.Absent front [c] rest := by
  intro s s' hsplit hne x r htext hfits
  obtain ⟨-, w, hw, y, z, hy, hspells, -⟩ := hp _ _ _ hfits
  obtain ⟨d, ds, rfl⟩ := List.exists_cons_of_ne_nil hne
  obtain ⟨e, es, rfl⟩ := List.exists_cons_of_ne_nil (hspells.ne_nil (areWords.ne_nil hws hw))
  have hd : d = c := List.mem_singleton.1 (hsplit ▸ List.mem_append_right s (List.mem_cons_self ..))
  have he := hspells.isWordChar (areWords.isLower hws hw) e (by simp)
  rw [hy, List.cons_append, List.cons_append, List.cons.injEq] at htext
  rw [← htext.1, hd, hc] at he
  cases he

/-- In silence nothing is found. -/
theorem OpensWith.search?_eq_none {ws : List String} {p : Pattern} (hp : p.OpensWith ws)
    (hws : areWords ws = true) {o : Nat} {front t : Text} (ht : t.Silent ws) :
    p.search? (between o front t) = none := by
  refine Pattern.search?_eq_none (hp.absent hws ht rfl) fun x r hnil hfits => ?_
  obtain ⟨-, w, hw, y, z, hy, hspells, -⟩ := hp _ _ _ hfits
  rw [← hnil] at hy
  exact hspells.ne_nil (areWords.ne_nil hws hw) (List.append_eq_nil_iff.1 hy.symm).1

/-- Nothing is **found** in a silent text. -/
theorem OpensWith.find?_eq_none {ws : List String} {p : Pattern} (hp : p.OpensWith ws)
    (hws : areWords ws = true) {t : Text} (ht : t.Silent ws) : p.find? t = none :=
  @OpensWith.search?_eq_none ws p hp hws 0 [] t ht

/-! ## Patterns that open with a word -/

/-- Whatever fits the pattern spells one of some words. -/
def Spelled (ws : List String) (p : Pattern) : Prop :=
  ∀ front x rest, p.Fits front x rest → ∃ w ∈ ws, Spells w x

/-- Behind a word, whatever fits the pattern begins with another character. -/
def Breaks (p : Pattern) : Prop :=
  ∀ front x rest, p.Fits front x rest → front.getLast?.any Text.isWordChar = true →
    (x ++ rest).head?.any Text.isWordChar = false

/-- Whatever fits the pattern begins with one of some words, which ends there. -/
def LeadsWith (ws : List String) (p : Pattern) : Prop :=
  ∀ front x rest, p.Fits front x rest →
    ∃ w ∈ ws, ∃ y z, x ++ rest = y ++ z ∧ Spells w y ∧ z.head?.any Text.isWordChar = false

section

variable {ws vs : List String} {a b : Pattern}

/-- What fits a choice of words spells one of them, whatever is around it. -/
theorem spelled_words : (words ws).Spelled ws :=
  fun _ _ _ => spells_of_fits_words

theorem spelled_word {w : String} : (word w).Spelled [w] :=
  fun _ _ _ h => ⟨w, List.mem_singleton_self w, spells_of_fits h⟩

theorem Spelled.group (ha : a.Spelled ws) (number : Nat) : (group number a).Spelled ws :=
  ha

/-- Behind a word, a boundary is followed by another character. -/
theorem breaks_boundary : boundary.Breaks := by
  rintro front x rest ⟨rfl, h⟩ hfront
  rw [hfront] at h
  simpa using h

/-- Behind a word, a gap begins with a blank. -/
theorem breaks_gap : gap.Breaks := by
  rintro front x rest ⟨_, _, rfl, ⟨c, rfl, hc⟩, -⟩ -
  exact Text.isWordChar_of_isBlank hc

theorem Breaks.seq (ha : a.Breaks) : (seq a b).Breaks := by
  rintro front x rest ⟨y, z, rfl, hy, -⟩ hfront
  rw [List.append_assoc]
  exact ha _ _ _ hy hfront

/-- A word and what breaks behind it lead with the word. -/
theorem Spelled.leadsWith (ha : a.Spelled ws) (hb : b.Breaks) (hws : areWords ws = true) :
    (seq a b).LeadsWith ws := by
  rintro front x rest ⟨y, z, rfl, hy, hz⟩
  obtain ⟨w, hw, hspells⟩ := ha _ _ _ hy
  refine ⟨w, hw, y, z ++ rest, List.append_assoc _ _ _, hspells, hb _ _ _ hz ?_⟩
  obtain ⟨cs, c, rfl⟩ := (List.eq_nil_or_concat y).resolve_left
    (hspells.ne_nil (areWords.ne_nil hws hw))
  rw [List.concat_eq_append, ← List.append_assoc, List.getLast?_concat]
  exact hspells.isWordChar (areWords.isLower hws hw) c (by simp)

/-- What comes behind does not matter. -/
theorem LeadsWith.seq (ha : a.LeadsWith ws) : (seq a b).LeadsWith ws := by
  rintro front x rest ⟨y, z, rfl, hy, -⟩
  rw [List.append_assoc]
  exact ha _ _ _ hy

/-- With an option in front there are two ways to lead. -/
theorem LeadsWith.optional (ha : a.LeadsWith vs) (hb : b.LeadsWith ws) :
    (Pattern.seq (optional a) b).LeadsWith (vs ++ ws) := by
  rintro front x rest ⟨y, z, rfl, hy | rfl, hz⟩
  · obtain ⟨w, hw, h⟩ := ha _ _ _ hy
    rw [List.append_assoc]
    exact ⟨w, List.mem_append_left _ hw, h⟩
  · obtain ⟨w, hw, h⟩ := hb _ _ _ hz
    exact ⟨w, List.mem_append_right _ hw, h⟩

/-- At the beginning of a text a word stands for itself. -/
theorem LeadsWith.opens_first (hb : b.LeadsWith ws) : (Pattern.seq .first b).OpensWith ws := by
  rintro front x rest ⟨_, z, rfl, ⟨rfl, rfl⟩, hz⟩
  exact ⟨rfl, hb _ _ _ hz⟩

/-- Behind a boundary a word stands for itself. -/
theorem LeadsWith.opens_boundary (hb : b.LeadsWith ws) (hws : areWords ws = true) :
    (Pattern.seq .boundary b).OpensWith ws := by
  rintro front x rest ⟨_, z, rfl, ⟨rfl, hbefore⟩, hz⟩
  obtain ⟨w, hw, y, r, htext, hspells, hr⟩ := hb _ _ _ hz
  refine ⟨?_, w, hw, y, r, htext, hspells, hr⟩
  rw [htext] at hbefore
  exact nonword_before (hspells.ne_nil (areWords.ne_nil hws hw))
    (hspells.isWordChar (areWords.isLower hws hw)) hbefore

end

end Pattern

/-! ## What a text says -/

namespace Text

/-- Whether a word is **never a plain name**, because it is a keyword or has a meaning somewhere. -/
def isReserved (t : Text) : Bool :=
  (Keyword.ofWord? t).isSome || isOneOf t reservedNames

/-- Reserved words are reserved in any case. -/
theorem isReserved_lower (t : Text) : isReserved (lower t) = isReserved t := by
  have hnames : isOneOf (lower t) reservedNames = isOneOf t reservedNames := by
    rw [isOneOf, isOneOf]
    exact congrArg _ (funext fun w => by rw [eqIgnoreCase, eqIgnoreCase, TokenKind.lower_lower])
  rw [isReserved, isReserved, Keyword.ofWord?, Keyword.ofWord?, TokenKind.lower_lower, hnames]

/-- Plain names are not reserved. -/
theorem isReserved_of_isPlain {t : Text} (h : t.isPlain = true) : isReserved t = false := by
  rw [isPlain, Bool.and_eq_true, Bool.and_eq_true, Option.isNone_iff_eq_none, Bool.not_eq_true']
    at h
  rw [isReserved, h.1.2, h.2]
  rfl

/-- The words of a text are plain names and some others. -/
def Says (ws : List String) (t : Text) : Prop :=
  ∀ x ∈ runs t, x = [] ∨ x.isPlain = true ∨ ∃ w ∈ ws, x = w.toList

variable {ws vs : List String} {a b t : Text}

/-- What is said with some words is said with more of them. -/
theorem Says.mono (h : t.Says ws) (hsub : ∀ w ∈ ws, w ∈ vs) : t.Says vs := by
  intro x hx
  obtain h | h | ⟨w, hw, rfl⟩ := h x hx
  · exact .inl h
  · exact .inr (.inl h)
  · exact .inr (.inr ⟨w, hsub w hw, rfl⟩)

theorem says_nil : Says ws [] := by
  intro x hx
  exact .inl (List.mem_singleton.1 hx)

/-- Texts say together what they say alone, if no word reaches over the place where they meet. -/
theorem Says.append (ha : a.Says ws) (hb : b.Says ws) (hhead : b.head?.any isWordChar = false) :
    Says ws (a ++ b) :=
  fun x hx => (mem_runs_append hhead hx).elim (ha x) (hb x)

/-- A character of no word between them makes sure of it. -/
theorem Says.append_cons {c : Char} (ha : a.Says ws) (hc : isWordChar c = false) (hb : b.Says ws) :
    Says ws (a ++ c :: b) := by
  intro x hx
  rw [runs_append_cons hc, List.mem_append] at hx
  exact hx.elim (ha x) (hb x)

theorem Says.cons {c : Char} (hc : isWordChar c = false) (hb : b.Says ws) : Says ws (c :: b) :=
  says_nil.append_cons hc hb

/-- A word says itself. -/
theorem says_word {w : String} (hw : w ∈ ws) (hlower : w.toList.all Char.isLower = true) :
    Says ws w.toList := by
  intro x hx
  have hwords : ∀ c ∈ w.toList, isWordChar c = true := by
    intro c hc
    exact isWordChar_of_isIdentChar (isIdentChar_of_isLower (List.all_eq_true.1 hlower c hc))
  rw [runs_word hwords, List.mem_singleton] at hx
  exact .inr (.inr ⟨w, hw, hx⟩)

/-- A plain name says none of the words. -/
theorem says_name (x : PlainName) : Says ws x.text := by
  intro y hy
  rw [runs_word fun c hc => isWordChar_of_isIdentChar (x.isIdentChar_of_mem hc), List.mem_singleton]
    at hy
  rw [hy]
  exact .inr (.inl x.plain)

/-- Whether some words are reserved and **foreign** to others. -/
def areForeign (vs ws : List String) : Bool :=
  Pattern.areWords vs && ws.all (fun w => w.toList.all Char.isLower)
    && vs.all fun v => isReserved v.toList && ws.all fun w => Pattern.clash v w
    || v.toList.length != w.toList.length

/-- A text is silent about the reserved words that are not among its own. -/
theorem Says.silent (h : t.Says ws) (hforeign : areForeign vs ws = true) : t.Silent vs := by
  rw [areForeign, Bool.and_eq_true, Bool.and_eq_true, List.all_eq_true, List.all_eq_true]
    at hforeign
  obtain ⟨⟨hvs, hws⟩, hothers⟩ := hforeign
  intro x hx v hv hspells
  have hv' := hothers v hv
  rw [Bool.and_eq_true, List.all_eq_true] at hv'
  obtain ⟨hreserved, hothers⟩ := hv'
  obtain rfl | hplain | ⟨w, hw, rfl⟩ := h x hx
  · exact hspells.ne_nil (Pattern.areWords.ne_nil hvs hv) rfl
  · -- A plain name is no reserved word, however it is written.
    have hlower := hspells.lower_eq fun c hc => by
      have hall : x.all isIdentChar = true := by
        rw [isPlain, Bool.and_eq_true, Bool.and_eq_true, Bool.and_eq_true] at hplain
        exact hplain.1.1.2
      have hrange := range_of_isIdentChar (List.all_eq_true.1 hall c hc)
      omega
    rw [← hlower, isReserved_lower, isReserved_of_isPlain hplain] at hreserved
    cases hreserved
  · have hdiffer := hothers w hw
    rw [Bool.or_eq_true, bne_iff_ne] at hdiffer
    obtain hclash | hlength := hdiffer
    · exact @Pattern.not_spells_of_clash v w (Pattern.areWords.isLower hvs hv)
        (hws w hw) hclash _ w.toList [] []
        (Pattern.spells_self (hws w hw)) rfl hspells
    · exact hlength hspells.length_eq

end Text

end PascalAtlas
