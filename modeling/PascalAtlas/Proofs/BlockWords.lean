import PascalAtlas.Proofs.Cuts
import PascalAtlas.Proofs.Rendered

/-!
# Block words

The scanner finds the end of a class and the body of a routine by their block words alone. The block
words of a text are those of its runs that spell one, in their order
(`Pattern.matchesAfter_standing`), so what the scanner makes of a text is told by its runs.

* A text that is silent about `record` and `end` cannot close a class
  (`Scanner.closingEnd_blockWords`).
* A **level** text leaves as many blocks open as there were before it (`Scanner.bodyAmong_level`),
  so that the `end` behind it closes the body (`Scanner.body?_eq`).
-/

namespace PascalAtlas

/-- A text begins with a run of word characters, which may be empty. -/
theorem Text.exists_run (t : Text) :
    ∃ x rest, t = x ++ rest ∧ (∀ c ∈ x, isWordChar c = true)
      ∧ rest.head?.any isWordChar = false := by
  refine ⟨t.takeWhile isWordChar, t.dropWhile isWordChar, List.takeWhile_append_dropWhile.symm,
    List.all_eq_true.1 List.all_takeWhile, ?_⟩
  have hhead := List.head?_dropWhile_not isWordChar t
  cases h : (t.dropWhile isWordChar).head? with
  | none => rfl
  | some c =>
    rw [h] at hhead
    simpa using hhead

namespace Pattern

open Cursor (between)

/-! ## Words that stand for themselves -/

/-- One of some words, **standing** for itself. -/
def standing (ws : List String) : Pattern :=
  all [.boundary, .words ws, .boundary]

/-- Words of which no two can be spelled at the same place. -/
def areApart (ws : List String) : Bool :=
  areWords ws && ws.all fun v => ws.all fun w => v == w || clash v w

/-- Whether a text spells one of some words. -/
def spellsOne (ws : List String) (x : Text) : Bool :=
  ws.any fun w => decide (Spells w x)

variable {ws : List String} {o : Nat} {front x t rest : Text}

/-- A run spells one of some words if it spells a word among them. -/
theorem spellsOne_iff : spellsOne ws x = true ↔ ∃ w ∈ ws, Spells w x := by
  simp [spellsOne]

/-- Words that are apart are words. -/
theorem areApart.areWords (h : areApart ws = true) : areWords ws = true := by
  rw [areApart, Bool.and_eq_true] at h
  exact h.1

/-- Two words that are apart are the same, or cannot be spelled at one place. -/
theorem areApart.clash (h : areApart ws = true) {v w : String} (hv : v ∈ ws) (hw : w ∈ ws) :
    v = w ∨ clash v w = true := by
  rw [areApart, Bool.and_eq_true, List.all_eq_true] at h
  have hvw := List.all_eq_true.1 (h.2 v hv) w hw
  rwa [Bool.or_eq_true, beq_iff_eq] at hvw

/-- A word that **stands alone** is taken. -/
theorem takes_standing (hws : areApart ws = true) {caps : Captures}
    (hfront : front.getLast?.any Text.isWordChar = false) {w : String} (hw : w ∈ ws)
    (hx : Spells w x) (hrest : rest.head?.any Text.isWordChar = false) :
    (standing ws).Takes o front x rest caps caps := by
  have hlower := fun v (hv : v ∈ ws) => areWords.isLower (areApart.areWords hws) hv
  have hchars := hx.isWordChar (hlower w hw)
  have hne := hx.ne_nil (areWords.ne_nil (areApart.areWords hws) hw)
  have hhead : (x ++ rest).head?.any Text.isWordChar = true := by
    obtain ⟨c, cs, rfl⟩ := List.exists_cons_of_ne_nil hne
    exact hchars c (by simp)
  have hlast : (front ++ x).getLast?.any Text.isWordChar = true := by
    obtain ⟨cs, c, rfl⟩ := (List.eq_nil_or_concat x).resolve_left hne
    rw [List.concat_eq_append, ← List.append_assoc, List.getLast?_concat]
    exact hchars c (by simp)
  have hwords : (words ws).Takes o front x rest caps caps :=
    takes_words hw hlower (fun v hv => areApart.clash hws hv hw) hx
  have hafter : (boundary).Takes o (front ++ x) [] rest caps caps :=
    takes_boundary (by rw [hlast, hrest]; simp)
  have hbefore : (boundary).Takes o front [] (x ++ rest) caps caps :=
    takes_boundary (by rw [hfront, hhead]; simp)
  exact hbefore.after_nil (hwords.then_nil hafter)

/-- What is taken stands alone and spells one of the words. -/
theorem spells_of_fits_standing (hws : areWords ws = true) (h : (standing ws).Fits front x rest) :
    front.getLast?.any Text.isWordChar = false ∧ spellsOne ws x = true
      ∧ rest.head?.any Text.isWordChar = false := by
  obtain ⟨_, _, rfl, ⟨rfl, hbefore⟩, y, z, rfl, hword, ⟨rfl, hafter⟩⟩ := h
  obtain ⟨w, hw, hspells⟩ := spells_of_fits_words hword
  have hchars := hspells.isWordChar (areWords.isLower hws hw)
  have hne := hspells.ne_nil (areWords.ne_nil hws hw)
  rw [List.append_nil] at hbefore hafter ⊢
  exact ⟨nonword_before hne hchars hbefore, spellsOne_iff.2 ⟨w, hw, hspells⟩,
    nonword_after hne hchars hafter⟩

/-- A match begins with one of the words. -/
theorem opensWith_standing (hws : areWords ws = true) : (standing ws).OpensWith ws := by
  intro front x rest h
  obtain ⟨hfront, hx, hrest⟩ := spells_of_fits_standing hws h
  obtain ⟨w, hw, hspells⟩ := spellsOne_iff.1 hx
  exact ⟨hfront, w, hw, x, rest, rfl, hspells, hrest⟩

theorem advances_standing (hws : areWords ws = true) : (standing ws).Advances := by
  intro front x rest h
  obtain ⟨-, hx, -⟩ := spells_of_fits_standing hws h
  obtain ⟨w, hw, hspells⟩ := spellsOne_iff.1 hx
  exact hspells.ne_nil (areWords.ne_nil hws hw)

/-- One run of word characters is a match, or there is none in it. -/
theorem matchesAfter_run (hws : areApart ws = true)
    (hfront : front.getLast?.any Text.isWordChar = false) (hx : ∀ c ∈ x, Text.isWordChar c = true)
    (hrest : rest.head?.any Text.isWordChar = false) :
    (standing ws).matchesAfter o front (x ++ rest)
      = (if spellsOne ws x then [matchOf o front x rest []] else [])
        ++ (standing ws).matchesAfter o (front ++ x) rest := by
  have hwords := areApart.areWords hws
  split
  next hspells =>
    obtain ⟨w, hw, hspells⟩ := spellsOne_iff.1 hspells
    have hne := hspells.ne_nil (areWords.ne_nil hwords hw)
    exact (takes_standing hws hfront hw hspells hrest).matchesAfter_eq
      (advances_standing hwords) hne
  next hspells =>
    have hsilent : x.Silent ws := by
      intro y hy w hw hspells'
      rw [Text.runs_word hx, List.mem_singleton] at hy
      exact hspells (spellsOne_iff.2 ⟨w, hw, hy ▸ hspells'⟩)
    exact ((opensWith_standing hwords).absent hwords hsilent hrest).matchesAfter_eq
      (advances_standing hwords) o

/-- A character that belongs to no word is passed over. -/
theorem matchesAfter_nonword (hws : areApart ws = true) {c : Char}
    (hc : Text.isWordChar c = false) :
    (standing ws).matchesAfter o front (c :: rest)
      = (standing ws).matchesAfter o (front ++ [c]) rest := by
  have hwords := areApart.areWords hws
  exact ((opensWith_standing hwords).absent_nonword hwords hc front rest).matchesAfter_eq
    (advances_standing hwords) o

/-- **The matches in a text** are its runs that spell one of the words. -/
theorem matchesAfter_standing (hws : areApart ws = true)
    (hfront : front.getLast?.any Text.isWordChar = false)
    (hlast : t.getLast?.any Text.isWordChar = false) (o : Nat) (rest : Text) :
    ∃ ms, (standing ws).matchesAfter o front (t ++ rest)
      = ms ++ (standing ws).matchesAfter o (front ++ t) rest
      ∧ ms.map Match.text = t.runs.filter (spellsOne ws) := by
  -- Run by run. The last one is empty, because the text does not end with a word character.
  induction hlen : t.length using Nat.strongRecOn generalizing front t with
  | _ n ih =>
    subst hlen
    obtain ⟨x, t', rfl, hx, ht'⟩ := Text.exists_run t
    cases t' with
    | nil =>
      obtain rfl : x = [] := by
        rw [List.append_nil] at hlast
        cases h : x.getLast? with
        | none => exact List.getLast?_eq_none_iff.1 h
        | some c =>
          rw [h, Option.any_some, hx c (List.mem_of_getLast? h)] at hlast
          cases hlast
      refine ⟨[], ?_, ?_⟩
      · rw [List.append_nil, List.append_nil]
        rfl
      · show [] = [[]].filter (spellsOne ws)
        rw [List.filter_cons_of_neg, List.filter_nil]
        rw [spellsOne_iff]
        rintro ⟨w, hw, hspells⟩
        exact hspells.ne_nil (areWords.ne_nil (areApart.areWords hws) hw) rfl
    | cons c t' =>
      have hlast' : Option.any Text.isWordChar t'.getLast? = false := by
        cases t' with
        | nil => rfl
        | cons d ds => rwa [List.getLast?_append_cons, List.getLast?_cons_cons] at hlast
      obtain ⟨ms, hms, htexts⟩ :=
        @ih t'.length (by simp; omega) (front ++ x ++ [c]) t' (by simpa using ht') hlast' rfl
      refine ⟨(if spellsOne ws x then [matchOf o front x (c :: (t' ++ rest)) []] else []) ++ ms, ?_,
        ?_⟩
      · have hhead : (c :: (t' ++ rest)).head?.any Text.isWordChar = false := ht'
        rw [List.append_assoc x, List.cons_append, matchesAfter_run hws hfront hx hhead,
          matchesAfter_nonword hws ht', hms]
        simp only [List.append_assoc, List.cons_append, List.nil_append]
      · rw [List.map_append, htexts, Text.runs_append_cons ht', Text.runs_word hx,
          List.filter_append]
        by_cases hspells : spellsOne ws x = true <;> simp [hspells, matchOf]

end Pattern

namespace Scanner

open Text (Remains size)

/-! ## The end of a class -/

/-- The words that are block words. -/
def blockSpellings : List String :=
  ["begin", "asm", "case", "try", "record", "end"] ++ routineWords

theorem areApart_blockSpellings : Pattern.areApart blockSpellings = true := by decide +kernel

/-- A block word as it was found. -/
def BlockWord.ofMatch (m : Match) : BlockWord :=
  ⟨Text.lower m.text, m.start, m.stop⟩

/-- The block words behind a place. -/
def blockWordsAfter (o : Nat) (front t : Text) : List BlockWord :=
  ((Pattern.standing blockSpellings).matchesAfter o front t).map BlockWord.ofMatch

variable {masked front t rest : Text} {n o : Nat}

/-- The block words from an offset on are those of what remains there. -/
theorem blockWords_eq (h : masked.Remains n rest) :
    blockWords masked n = .ok (blockWordsAfter n [] rest) := by
  rw [blockWords, tail_eq h]
  rfl

/-- **The block words of a text** come from its runs. -/
theorem blockWordsAfter_append (hfront : front.getLast?.any Text.isWordChar = false)
    (hlast : t.getLast?.any Text.isWordChar = false) (o : Nat) (rest : Text) :
    ∃ ws, blockWordsAfter o front (t ++ rest) = ws ++ blockWordsAfter o (front ++ t) rest
      ∧ ws.map BlockWord.word = (t.runs.filter (Pattern.spellsOne blockSpellings)).map
        Text.lower := by
  obtain ⟨ms, hms, htexts⟩ :=
    Pattern.matchesAfter_standing areApart_blockSpellings hfront hlast o rest
  refine ⟨ms.map BlockWord.ofMatch, ?_, ?_⟩
  · rw [blockWordsAfter, hms, List.map_append]
    rfl
  · rw [← htexts, List.map_map, List.map_map]
    rfl

/-- A character that belongs to no word is passed over. -/
theorem blockWordsAfter_nonword {c : Char} (hc : Text.isWordChar c = false) :
    blockWordsAfter o front (c :: rest) = blockWordsAfter o (front ++ [c]) rest := by
  rw [blockWordsAfter, Pattern.matchesAfter_nonword areApart_blockSpellings hc]
  rfl

/-- A block word is found where it stands. -/
theorem blockWordsAfter_word (hfront : front.getLast?.any Text.isWordChar = false) {w : String}
    (hw : w ∈ blockSpellings) (hrest : rest.head?.any Text.isWordChar = false) :
    blockWordsAfter o front (w.toList ++ rest)
      = ⟨w.toList, o + size front, o + size (front ++ w.toList)⟩
        :: blockWordsAfter o (front ++ w.toList) rest := by
  have hwords := Pattern.areApart.areWords areApart_blockSpellings
  have hlower := Pattern.areWords.isLower hwords hw
  have hspells := Pattern.spells_self hlower
  have htext : Text.lower w.toList = w.toList := hspells.lower_eq fun c hc => by
    have hrange := Text.range_of_isIdentChar
      (Text.isIdentChar_of_isLower (List.all_eq_true.1 hlower c hc))
    omega
  rw [blockWordsAfter, (Pattern.takes_standing areApart_blockSpellings hfront hw hspells
    hrest).matchesAfter_eq (Pattern.advances_standing hwords) (Pattern.areWords.ne_nil hwords hw),
    List.map_cons, BlockWord.ofMatch, Pattern.matchOf, htext]
  rfl

/-- Words that are neither `record` nor `end` do not close a class. -/
theorem closingEnd_append {ws : List BlockWord}
    (hws : ∀ w ∈ ws, w.word ≠ "record".toList ∧ w.word ≠ "end".toList) (depth : Nat)
    (ws' : List BlockWord) : closingEnd depth (ws ++ ws') = closingEnd depth ws' := by
  induction ws with
  | nil => rfl
  | cons w ws ih =>
    obtain ⟨hrecord, hend⟩ := hws w (by simp)
    conv_lhs => unfold closingEnd
    dsimp only [List.cons_append]
    rw [if_neg (by simpa using hrecord), if_neg (by simpa using hend)]
    exact ih fun v hv => hws v (by simp [hv])

/-- **A text without `record` and `end`** is inside the class. -/
theorem closingEnd_blockWords (hfront : front.getLast?.any Text.isWordChar = false)
    (hlast : t.getLast?.any Text.isWordChar = false) (hsilent : t.Silent ["record", "end"])
    (depth : Nat) :
    closingEnd depth (blockWordsAfter o front (t ++ rest))
      = closingEnd depth (blockWordsAfter o (front ++ t) rest) := by
  obtain ⟨ws, hws, hwords⟩ := blockWordsAfter_append hfront hlast o rest
  rw [hws]
  refine closingEnd_append (fun w hw => ?_) depth _
  obtain ⟨x, hx, hword⟩ : ∃ x ∈ t.runs.filter (Pattern.spellsOne blockSpellings),
      Text.lower x = w.word :=
    List.mem_map.1 (hwords ▸ List.mem_map_of_mem hw)
  have hrun := List.mem_of_mem_filter hx
  constructor
  · intro hrecord
    exact hsilent x hrun "record" (by simp) (Pattern.spells_of_lower_eq (hword.trans hrecord))
  · intro hend
    exact hsilent x hrun "end" (by simp) (Pattern.spells_of_lower_eq (hword.trans hend))

/-! ## The body of a routine -/

theorem opensBlock_eq (x : Text) :
    Text.opensBlock x = (["begin", "asm", "case", "try"].any fun v => Text.lower x
        == v.toList) := by
  rfl

/-- One more word inside a body. -/
theorem bodyAmong_step {w : BlockWord} {x : Text} (hword : w.word = Text.lower x)
    (hrecord : w.word ≠ "record".toList) {depth depth' : Nat}
    (h : Text.depthStep depth x = some depth') (nested begun : Nat) (ws : List BlockWord) :
    bodyAmong masked (.block :: List.replicate depth .block) nested (some begun) (w :: ws)
      = bodyAmong masked (.block :: List.replicate depth' .block) nested (some begun) ws := by
  have hlower : Text.lower "end".toList = "end".toList := rfl
  rw [Text.depthStep.eq_def, opensBlock_eq, Text.eqIgnoreCase, ← hword] at h
  conv_lhs => unfold bodyAmong
  dsimp only
  by_cases hroutine : w.isRoutine = true
  · -- Inside of a block a routine word begins nothing, and to the depth it is a
    -- word like any other.
    obtain ⟨r, hr, hspelled⟩ := List.any_eq_true.1 hroutine
    have hdepth : depth = depth' := by
      rw [← beq_iff_eq.1 hspelled] at h
      simp only [routineWords, List.mem_cons, List.not_mem_nil, or_false] at hr
      obtain rfl | rfl | rfl | rfl := hr <;> exact Option.some.inj h
    rw [if_pos hroutine, hdepth]
    rfl
  rw [if_neg hroutine, if_neg (by simpa using hrecord)]
  by_cases hopen : w.word ∈ ["begin", "asm", "case", "try"].map String.toList
  · simp only [List.map_cons, List.map_nil, List.mem_cons, List.not_mem_nil, or_false] at hopen
    obtain hw | hw | hw | hw := hopen <;> rw [hw] at h ⊢ <;> cases h <;> rfl
  simp only [List.map_cons, List.map_nil, List.mem_cons, List.not_mem_nil, or_false, not_or]
    at hopen
  obtain ⟨hbegin, hasm, hcase, htry⟩ := hopen
  rw [if_neg (by simpa using ⟨hbegin, hasm⟩), if_neg (by simpa using hcase),
    if_neg (by simpa using htry)]
  by_cases hend : w.word = "end".toList
  · rw [hend] at h ⊢
    cases depth with
    | zero => cases h
    | succ depth =>
      cases h
      rfl
  · rw [if_neg (by simpa using hend)]
    rw [if_neg (by simpa using ⟨hbegin, hasm, hcase, htry⟩), hlower, if_neg (by simpa using hend)]
      at h
    rw [Option.some.inj h]

/-- **A level text** leaves the blocks open that were open before it. -/
theorem bodyAmong_level {ws : List BlockWord} {xs : List Text}
    (hwords : ws.map BlockWord.word = xs.map Text.lower)
    (hrecord : ∀ w ∈ ws, w.word ≠ "record".toList) {depth depth' : Nat}
    (h : Text.depthAfter depth xs = some depth') (nested begun : Nat) (ws' : List BlockWord) :
    bodyAmong masked (.block :: List.replicate depth .block) nested (some begun) (ws ++ ws')
      = bodyAmong masked (.block :: List.replicate depth' .block) nested (some begun) ws' := by
  induction xs generalizing ws depth with
  | nil =>
    rw [List.map_eq_nil_iff.1 hwords]
    cases h
    rfl
  | cons x xs ih =>
    obtain ⟨w, ws, rfl, hw, hws⟩ := List.map_eq_cons_iff.1 hwords
    obtain ⟨middle, hstep, hothers⟩ := Option.bind_eq_some_iff.1 h
    rw [List.cons_append, bodyAmong_step hw (hrecord w (by simp)) hstep]
    exact ih hws (fun v hv => hrecord v (by simp [hv])) hothers

/-- Only block words count. -/
theorem depthAfter_filter (depth : Nat) (xs : List Text) :
    Text.depthAfter depth (xs.filter (Pattern.spellsOne blockSpellings))
      = Text.depthAfter depth xs := by
  induction xs generalizing depth with
  | nil => rfl
  | cons x xs ih =>
    have hcons (xs : List Text) : Text.depthAfter depth (x :: xs)
        = (Text.depthStep depth x).bind fun middle => Text.depthAfter middle xs := rfl
    by_cases hx : Pattern.spellsOne blockSpellings x = true
    · rw [List.filter_cons_of_pos hx, hcons, hcons]
      exact congrArg _ (funext ih)
    · have hother : ∀ w ∈ blockSpellings, Text.lower x ≠ w.toList := fun w hw hlower =>
        hx (Pattern.spellsOne_iff.2 ⟨w, hw, Pattern.spells_of_lower_eq hlower⟩)
      have hopens : ¬ Text.opensBlock x = true := by
        rw [opensBlock_eq, List.any_eq_true]
        rintro ⟨w, hw, hlower⟩
        have hsub : ∀ w ∈ ["begin", "asm", "case", "try"], w ∈ blockSpellings := by decide
        exact hother w (hsub w hw) (beq_iff_eq.1 hlower)
      have hend : ¬ Text.eqIgnoreCase x "end".toList = true := fun hlower =>
        hother "end" (by decide) (beq_iff_eq.1 hlower)
      have hstep : Text.depthStep depth x = some depth := by
        rw [Text.depthStep.eq_def, if_neg hopens, if_neg hend]
      rw [List.filter_cons_of_neg hx, hcons, hstep]
      exact ih depth

/-- **The words of a block**: its `begin`, those of what stands in it, and its `end`. -/
theorem blockWordsAfter_inBlock (n : Nat) (inside : Text)
    (hrest : rest.head?.any Text.isWordChar = false) :
    ∃ ws, blockWordsAfter n [] (' ' :: (Text.inBlock inside ++ rest))
        = ⟨"begin".toList, n + 1, n + 6⟩
          :: (ws ++ ⟨"end".toList, n + 8 + size inside, n + 11 + size inside⟩
          :: blockWordsAfter n (" begin\n".toList ++ (inside ++ ['\n']) ++ "end".toList) rest)
      ∧ ws.map BlockWord.word = (inside.runs.filter (Pattern.spellsOne blockSpellings)).map
        Text.lower := by
  have htext : ' ' :: (Text.inBlock inside ++ rest)
      = ' ' :: ("begin".toList ++ '\n' :: ((inside ++ ['\n']) ++ ("end".toList ++ rest))) := by
    show ' ' :: ("begin\n".toList ++ inside ++ "\nend".toList ++ rest) = _
    simp
  have hlast : (inside ++ ['\n']).getLast?.any Text.isWordChar = false := by
    rw [List.getLast?_concat]
    rfl
  obtain ⟨ws, hinside, hwords⟩ :=
    @blockWordsAfter_append " begin\n".toList _ (by decide) hlast n ("end".toList ++ rest)
  have hbegin := @blockWordsAfter_word [' ']
    ('\n' :: ((inside ++ ['\n']) ++ ("end".toList ++ rest))) n (by decide) "begin"
    (by decide) rfl
  have hend := @blockWordsAfter_word (" begin\n".toList ++ (inside ++ ['\n'])) rest n (by
    rw [← List.append_assoc, List.getLast?_concat]
    rfl) "end" (by decide) hrest
  refine ⟨ws, ?_, ?_⟩
  · have hsize : size (inside ++ ['\n']) = size inside + 1 := Text.size_append _ _
    rw [htext, blockWordsAfter_nonword (by decide), List.nil_append, hbegin,
      blockWordsAfter_nonword (by decide)]
    refine congrArg _ (hinside.trans (congrArg _ (hend.trans ?_)))
    simp only [Text.size_append, hsize]
    congr 2
    · show n + (7 + (size inside + 1)) = _
      omega
    · show n + (7 + (size inside + 1) + 3) = _
      omega
  · -- The line break adds an empty run, which is no word.
    have hnil : (Text.runs []).filter (Pattern.spellsOne blockSpellings) = [] := by decide
    rw [hwords, Text.runs_append_cons (by decide), List.filter_append, hnil, List.append_nil]

/-- **The body of a routine** is what stands in its block, if that is level. -/
theorem body?_eq {inside : Text} (hclosed : Text.depthAfter 0 inside.runs = some 0)
    (hsilent : inside.Silent ["record"])
    (h : masked.Remains n (' ' :: (Text.inBlock inside ++ rest)))
    (hrest : rest.head?.any Text.isWordChar = false) :
    body? masked n = .ok (some ⟨n + 6, n + 8 + size inside, n + 11 + size inside⟩) := by
  obtain ⟨ws, hall, hwords⟩ := blockWordsAfter_inBlock n inside hrest
  have hrecord : ∀ w ∈ ws, w.word ≠ "record".toList := by
    intro w hw hword
    obtain ⟨x, hx, hlower⟩ := List.mem_map.1 (hwords ▸ List.mem_map_of_mem hw)
    exact hsilent x (List.mem_of_mem_filter hx) "record" (by simp)
      (Pattern.spells_of_lower_eq (hlower.trans hword))
  have hlevel := @bodyAmong_level masked ws _ hwords hrecord 0 0
    (by rw [depthAfter_filter, hclosed]) 0 (n + 6)
  rw [body?, blockWords_eq h, hall]
  exact hlevel _

end Scanner

end PascalAtlas
