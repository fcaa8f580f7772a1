import PascalAtlas.Proofs.BlockWords

/-!
# The body of a routine

The scanner looks for the body of a routine among its block words, with a stack of what is open and
a count of the local routines whose body is still to come. What it should find is said here without
either, by a **grammar** of block words (`Scanner.Derives`): local records and local routines, which
may have local routines of their own, and then the block of the routine.

Each form of the grammar is passed over by the search in its own way (`Scanner.Passes`): a local
record leaves stack and count as they are, the block of a local routine takes one from the count,
and what stands inside a block changes neither. All this is one induction over derivations
(`Scanner.Derives.passes`), in which the stack below and the words behind are arbitrary. So the
first block that is no local routine's is the body, and the `end` that belongs to it is found
however deep the nesting is.
-/

namespace PascalAtlas

/-! ## Where matches stand -/

namespace Pattern

open Cursor (between)

variable {p : Pattern} {o : Nat} {front t : Text}

/-- A match **in** a text: what comes before it, what it covers and what comes after it make up the
text, and its groups lie in it. -/
def Occurs (p : Pattern) (o : Nat) (front t : Text) (m : Match) : Prop :=
  ∃ s x rest caps, t = s ++ (x ++ rest) ∧ p.Fits (front ++ s) x rest
    ∧ m = matchOf o (front ++ s) x rest caps
    ∧ Captures.LieIn m.start m.stop m.captures

/-- A match behind the front of a text is a match in the text. -/
theorem Occurs.of_append {s : Text} {m : Match} (h : p.Occurs o (front ++ s) t m) :
    p.Occurs o front (s ++ t) m := by
  obtain ⟨s', x, rest, caps, rfl, hfits, rfl, hcaps⟩ := h
  rw [List.append_assoc] at hfits hcaps ⊢
  exact ⟨s ++ s', x, rest, caps, (List.append_assoc _ _ _).symm, hfits, rfl, hcaps⟩

/-- An occurrence lies behind what has been read. -/
theorem Occurs.le_start {m : Match} (h : p.Occurs o front t m) : o + Text.size front ≤ m.start := by
  obtain ⟨s, x, rest, caps, -, -, rfl, -⟩ := h
  show _ ≤ o + Text.size (front ++ s)
  rw [Text.size_append]
  omega

/-- What a search finds does occur. -/
theorem occurs_of_search? {m : Match} (h : p.search? (between o front t) = some m) :
    p.Occurs o front t m := by
  have hat {front t : Text} {m : Match} (h : p.matchAt? (between o front t) = some m) :
      Captures.LieIn m.start m.stop m.captures := by
    obtain ⟨x, rest, added, rfl, -, hadded, hm⟩ := exists_fits_of_run h
    rw [List.append_nil] at hm
    obtain rfl := Option.some.inj hm
    exact hadded
  obtain ⟨s, x, rest, caps, ht, hfits, hm⟩ := search?_eq_some h
  refine ⟨s, x, rest, caps, ht, hfits, hm, ?_⟩
  have hcases := search?_append p o front t []
  rw [List.append_nil, h] at hcases
  rcases hcases with ⟨s', s'', -, -, m', hfound, hm'⟩ | hend
  · exact Option.some.inj hm' ▸ hat hfound
  · exact hat hend.symm

/-- **The matches of a text** are in it, one behind the other. -/
theorem matchesFrom_occurs (n : Nat) :
    (∀ m ∈ p.matchesFrom n (between o front t), p.Occurs o front t m)
      ∧ (p.matchesFrom n (between o front t)).Pairwise fun m m' => m.stop ≤ m'.start := by
  induction n generalizing front t with
  | zero => exact ⟨by simp [matchesFrom], .nil⟩
  | succ n ih =>
    rw [matchesFrom]
    cases hsearch : p.search? (between o front t) with
    | none => exact ⟨by simp, .nil⟩
    | some m =>
      obtain ⟨s, x, rest, caps, rfl, -, rfl, -⟩ := occurs_of_search? hsearch
      have hlater : ∀ m' ∈ p.matchesFrom n (between o (front ++ s ++ x) rest),
          p.Occurs o (front ++ s ++ x) rest m' := (@ih (front ++ s ++ x) rest).1
      refine ⟨?_, List.pairwise_cons.2 ⟨fun m' hm' => (hlater m' hm').le_start,
        (@ih (front ++ s ++ x) rest).2⟩⟩
      intro m' hm'
      rcases List.mem_cons.1 hm' with rfl | hm'
      · exact occurs_of_search? hsearch
      · exact Occurs.of_append (Occurs.of_append (hlater m' hm'))

end Pattern

namespace Text

/-- Where a text has been cut, both parts are there. -/
theorem remains_of_drop? {n : Nat} {t rest : Text} (h : drop? n t = some rest) :
    t.Remains n rest := by
  induction t generalizing n with
  | nil =>
    cases n with
    | zero => exact ⟨[], Option.some.inj h ▸ rfl, rfl⟩
    | succ n => cases h
  | cons c cs ih =>
    cases n with
    | zero => exact ⟨[], Option.some.inj h ▸ rfl, rfl⟩
    | succ n =>
      rw [drop?] at h
      split at h
      next hle =>
        obtain ⟨front, rfl, hsize⟩ := ih h
        refine ⟨c :: front, rfl, ?_⟩
        rw [size, hsize]
        omega
      next => cases h

end Text

namespace Scanner

open Text (Remains size)

variable {masked : Text} {n : Nat}

/-! ## Where block words stand -/

/-- A block word **stands in** a text: it covers what spells it. -/
def BlockWord.StandsIn (masked : Text) (w : BlockWord) : Prop :=
  ∃ front x rest, masked = front ++ (x ++ rest) ∧ Text.lower x = w.word ∧ size front = w.start
    ∧ size (front ++ x) = w.stop

theorem BlockWord.StandsIn.remains {w : BlockWord} (h : w.StandsIn masked) :
    ∃ rest, masked.Remains w.start rest := by
  obtain ⟨front, x, rest, rfl, -, hstart, -⟩ := h
  exact ⟨x ++ rest, front, rfl, hstart⟩

/-- **The block words behind an offset** stand in the text, one behind the other. -/
theorem standsIn_of_blockWords {ws : List BlockWord} (h : blockWords masked n = .ok ws) :
    (∀ w ∈ ws, n ≤ w.start ∧ w.StandsIn masked) ∧ ws.Pairwise fun w w' => w.stop ≤ w'.start := by
  cases hrest : Text.drop? n masked with
  | none =>
    -- The offset does not lie between two characters, so there is no text behind it to look at.
    have hfault : ∃ e, blockWords masked n = .error e := by
      rw [blockWords, tail, cut, Text.slice?, hrest]
      split
      next hslice => split at hslice <;> cases hslice
      next => exact ⟨_, rfl⟩
    obtain ⟨e, he⟩ := hfault
    rw [he] at h
    cases h
  | some rest =>
    have hremains := Text.remains_of_drop? hrest
    rw [blockWords_eq hremains] at h
    obtain rfl := Except.ok.inj h
    obtain ⟨hoccurs, hordered⟩ := @Pattern.matchesFrom_occurs (.standing blockSpellings) n
      [] rest rest.length
    refine ⟨?_, List.pairwise_map.2 hordered⟩
    intro w hw
    obtain ⟨m, hm, rfl⟩ := List.mem_map.1 hw
    obtain ⟨s, x, rest', caps, rfl, -, rfl, -⟩ := hoccurs m hm
    -- A match is in what remains; with the text before the offset in front of it, it
    -- is in the whole text.
    obtain ⟨front, rfl, rfl⟩ := hremains
    refine ⟨Nat.le_add_right _ _, front ++ s, x, rest', (List.append_assoc _ _ _).symm, rfl, ?_, ?_⟩
    · exact Text.size_append _ _
    · rw [List.append_assoc]
      exact Text.size_append _ _

/-! ## Procedural types -/

/-- Whether a routine word names a **procedural type**: `=` or `:` is the last sign before it. -/
def BlockWord.namesType (masked : Text) (w : BlockWord) : Bool :=
  w.isRoutine && (Text.take? w.start masked).any fun front =>
    (Text.trimEnd front).getLast?.any fun c => c == '=' || c == ':'

/-- A place is in **type position** if an `=` or a `:` stands before it. -/
theorem inTypePosition_eq (front rest : Text) : inTypePosition (front ++ rest) (size front)
    = .ok ((Text.trimEnd front).getLast?.any fun c => c == '=' || c == ':') := by
  simp only [inTypePosition, cut_front, bind, Except.bind]
  split
  next h => rw [h]; rfl
  next h => rw [h]; rfl
  next hequal hcolon =>
    cases hlast : (Text.trimEnd front).getLast? with
    | none => rfl
    | some c =>
      have hc : c ≠ '=' ∧ c ≠ ':' := ⟨fun h => hequal (h ▸ hlast), fun h => hcolon (h ▸ hlast)⟩
      simp only [Option.any_some, beq_eq_false_iff_ne.2 hc.1, beq_eq_false_iff_ne.2 hc.2]
      rfl

theorem BlockWord.StandsIn.inTypePosition_eq {w : BlockWord} (h : w.StandsIn masked)
    (hw : w.isRoutine = true) :
    inTypePosition masked w.start = .ok (w.namesType masked) := by
  obtain ⟨front, x, rest, rfl, -, hstart, -⟩ := h
  rw [← hstart, Scanner.inTypePosition_eq, namesType, hw, ← hstart, Text.take?_append]
  rfl

/-- A word that names a procedural type is passed over, whatever is open. -/
theorem bodyAmong_type {w : BlockWord} (h : w.StandsIn masked) (hw : w.namesType masked = true)
    (opened : List Open) (nested : Nat) (begun : Option Nat) (ws : List BlockWord) :
    bodyAmong masked opened nested begun (w :: ws) = bodyAmong masked opened nested begun ws := by
  have hroutine : w.isRoutine = true := (Bool.and_eq_true_iff.1 hw).1
  conv_lhs => unfold bodyAmong
  simp only [hroutine, h.inTypePosition_eq hroutine, hw, bind, Except.bind]
  simp

/-- So the search can be told without these words. -/
theorem bodyAmong_filter {ws : List BlockWord} (h : ∀ w ∈ ws, w.StandsIn masked)
    (opened : List Open) (nested : Nat) (begun : Option Nat) :
    bodyAmong masked opened nested begun ws
      = bodyAmong masked opened nested begun (ws.filter (!·.namesType masked)) := by
  induction ws generalizing opened nested begun with
  | nil => rfl
  | cons w ws ih =>
    have hothers := ih fun v hv => h v (by simp [hv])
    by_cases hw : w.namesType masked = true
    · rw [List.filter_cons_of_neg (by simp [hw]), bodyAmong_type (h w (by simp)) hw]
      exact hothers _ _ _
    · rw [List.filter_cons_of_pos (by simp [hw])]
      unfold bodyAmong
      simp only [hothers]

/-! ## The grammar of block words -/

namespace BlockWord

def isRecord (w : BlockWord) : Bool := w.word == "record".toList

def isCase (w : BlockWord) : Bool := w.word == "case".toList

def isEnd (w : BlockWord) : Bool := w.word == "end".toList

/-- Whether a word can open the block of a routine. -/
def opensBody (w : BlockWord) : Bool := w.word == "begin".toList || w.word == "asm".toList

/-- Whether a word opens a block where statements stand. -/
def opensBlock (w : BlockWord) : Bool := w.opensBody || w.word == "try".toList || w.isCase

end BlockWord

/-- The forms of the grammar. -/
inductive BlockForm where
  /-- Local declarations: records, and routines with what belongs to them. -/
  | locals
  /-- A record, also inside another. -/
  | record
  /-- What stands in a record. -/
  | members
  /-- The block of a routine. -/
  | main
  /-- What stands in a block. -/
  | block

/-- **The grammar of block words**: which words make up a form. -/
inductive Derives : BlockForm → List BlockWord → Prop
  | locals_nil : Derives .locals []
  | locals_record {ls rs : List BlockWord} (before : Derives .locals ls)
    (record : Derives .record rs) :
    Derives .locals (ls ++ rs)
  | locals_routine {ls ks ms : List BlockWord} {w : BlockWord} (before : Derives .locals ls)
      (hw : w.isRoutine = true)
      (inner : Derives .locals ks) (body : Derives .main ms) :
      Derives .locals (ls ++ w :: (ks ++ ms))
  | record {ms : List BlockWord} {r e : BlockWord} (hr : r.isRecord = true)
      (inside : Derives .members ms)
      (he : e.isEnd = true) : Derives .record (r :: (ms ++ [e]))
  | members_nil : Derives .members []
  | members_record {ms rs : List BlockWord} (before : Derives .members ms)
    (record : Derives .record rs) :
    Derives .members (ms ++ rs)
  | members_word {ms : List BlockWord} {w : BlockWord} (before : Derives .members ms)
      (hw : (w.isCase || w.isRoutine) = true) : Derives .members (ms ++ [w])
  | main {bs : List BlockWord} {m e : BlockWord} (hm : m.opensBody = true)
      (inside : Derives .block bs)
      (he : e.isEnd = true) : Derives .main (m :: (bs ++ [e]))
  | block_nil : Derives .block []
  | block_routine {bs : List BlockWord} {w : BlockWord} (before : Derives .block bs)
    (hw : w.isRoutine = true) :
    Derives .block (bs ++ [w])
  | block_block {bs cs : List BlockWord} {w e : BlockWord} (before : Derives .block bs)
      (hw : w.opensBlock = true)
      (inside : Derives .block cs) (he : e.isEnd = true) : Derives .block (bs ++ w :: (cs ++ [e]))

/-! ## One word of the search -/

section Words

variable {w : BlockWord} (opened : List Open) (nested : Nat) (begun : Option Nat)
  (ws : List BlockWord)

/-- A routine word counts outside of everything, and nowhere else. -/
theorem bodyAmong_routine (hw : w.isRoutine = true)
    (hposition : inTypePosition masked w.start = .ok false) :
    bodyAmong masked opened nested begun (w :: ws)
      = bodyAmong masked opened (if opened.isEmpty && begun.isNone then nested + 1
          else nested) begun ws := by
  conv_lhs => unfold bodyAmong
  simp only [hw, hposition, bind, Except.bind]
  cases opened.isEmpty && begun.isNone <;> rfl

theorem bodyAmong_record (hw : w.isRecord = true) :
    bodyAmong masked opened nested begun (w :: ws)
      = bodyAmong masked (.record :: opened) nested begun ws := by
  obtain ⟨word, start, stop⟩ := w
  obtain rfl : word = _ := beq_iff_eq.1 hw
  rfl

/-- The first `begin` that is no local routine's begins the body. -/
theorem bodyAmong_opensBody (hw : w.opensBody = true) :
    bodyAmong masked opened nested begun (w :: ws) = bodyAmong masked (.block :: opened) nested
      (if opened.isEmpty && nested == 0 && begun.isNone then some w.stop else begun) ws := by
  obtain ⟨word, start, stop⟩ := w
  rw [BlockWord.opensBody, Bool.or_eq_true, beq_iff_eq, beq_iff_eq] at hw
  obtain rfl | rfl : word = _ ∨ word = _ := hw <;> rfl

/-- Inside a block, every word that opens one opens another. -/
theorem bodyAmong_opensBlock (hw : w.opensBlock = true) :
    bodyAmong masked (.block :: opened) nested begun (w :: ws)
      = bodyAmong masked (.block :: .block :: opened) nested begun ws := by
  rw [BlockWord.opensBlock, Bool.or_eq_true, Bool.or_eq_true] at hw
  obtain (hw | hw) | hw := hw
  · rw [bodyAmong_opensBody _ _ _ _ hw]
    rfl
  all_goals
    obtain ⟨word, start, stop⟩ := w
    obtain rfl : word = _ := beq_iff_eq.1 hw
    rfl

/-- Inside a record, `case` begins the variant part and opens nothing. -/
theorem bodyAmong_case (hw : w.isCase = true) :
    bodyAmong masked (.record :: opened) nested begun (w :: ws)
      = bodyAmong masked (.record :: opened) nested begun ws := by
  obtain ⟨word, start, stop⟩ := w
  obtain rfl : word = _ := beq_iff_eq.1 hw
  rfl

/-- An `end` closes what was opened last, if something else is open. -/
theorem bodyAmong_end (hw : w.isEnd = true) (closed next : Open) :
    bodyAmong masked (closed :: next :: opened) nested begun (w :: ws)
      = bodyAmong masked (next :: opened) nested begun ws := by
  obtain ⟨word, start, stop⟩ := w
  obtain rfl : word = _ := beq_iff_eq.1 hw
  rfl

/-- An `end` outside of the body closes a local record, or the block of a local routine. -/
theorem bodyAmong_end_local (hw : w.isEnd = true) (closed : Open) :
    bodyAmong masked [closed] nested none (w :: ws)
      = bodyAmong masked [] (if closed = .block then nested - 1 else nested) none ws := by
  obtain ⟨word, start, stop⟩ := w
  obtain rfl : word = _ := beq_iff_eq.1 hw
  rfl

/-- The `end` of the body. -/
theorem bodyAmong_end_body (hw : w.isEnd = true) (closed : Open) (start : Nat) :
    bodyAmong masked [closed] nested (some start) (w :: ws)
      = .ok (some ⟨start, w.start, w.stop⟩) := by
  obtain ⟨word, start', stop⟩ := w
  obtain rfl : word = _ := beq_iff_eq.1 hw
  rfl

end Words

/-! ## The search passes over a form -/

/-- How the search **passes over** the words of a form, whatever comes behind them. -/
def Passes (masked : Text) : BlockForm → List BlockWord → Prop
  | .locals, ws => ∀ nested rest,
    bodyAmong masked [] nested none (ws ++ rest) = bodyAmong masked [] nested none rest
  | .record, ws => ∀ opened nested rest,
    bodyAmong masked opened nested none (ws ++ rest) = bodyAmong masked opened nested none rest
  | .members, ws => ∀ opened nested rest,
    bodyAmong masked (.record :: opened) nested none (ws ++ rest)
      = bodyAmong masked (.record :: opened) nested none rest
  | .main, ws => ∀ nested rest,
    bodyAmong masked [] (nested + 1) none (ws ++ rest) = bodyAmong masked [] nested none rest
  | .block, ws => ∀ opened nested begun rest,
    bodyAmong masked (.block :: opened) nested begun (ws ++ rest)
      = bodyAmong masked (.block :: opened) nested begun rest

/-- The words of a block stand inside it, and its `end` closes it. -/
theorem Passes.block_end {bs : List BlockWord} {e : BlockWord} (h : Passes masked .block bs)
    (he : e.isEnd = true) (opened : List Open) (nested : Nat) (begun : Option Nat)
    (rest : List BlockWord) :
    bodyAmong masked (.block :: .block :: opened) nested begun (bs ++ e :: rest)
      = bodyAmong masked (.block :: opened) nested begun rest := by
  rw [h, bodyAmong_end _ _ _ _ he]

/-- **The search passes over every form** in which no word names a procedural type. -/
theorem Derives.passes {form : BlockForm} {ws : List BlockWord} (h : Derives form ws)
    (hws : ∀ w ∈ ws, w.isRoutine = true → inTypePosition masked w.start = .ok false) :
    Passes masked form ws := by
  induction h with
  | locals_nil => exact fun _ _ => rfl
  | locals_record _ _ ihbefore ihrecord =>
    intro nested rest
    rw [List.append_assoc, ihbefore (fun w hw => hws w (by simp [hw])),
      ihrecord (fun w hw => hws w (by simp [hw]))]
  | @locals_routine ls ks ms w _ hw _ _ ihbefore ihinner ihbody =>
    intro nested rest
    rw [List.append_assoc, List.cons_append, List.append_assoc,
      ihbefore (fun v hv => hws v (by simp [hv])),
      bodyAmong_routine _ _ _ _ hw (hws w (by simp) hw), ihinner (fun v hv => hws v (by simp [hv]))]
    exact ihbody (fun v hv => hws v (by simp [hv])) nested rest
  | @record ms r e hr _ he ih =>
    intro opened nested rest
    rw [List.cons_append, List.append_assoc, List.singleton_append, bodyAmong_record _ _ _ _ hr,
      ih (fun w hw => hws w (by simp [hw]))]
    cases opened with
    | nil => exact bodyAmong_end_local _ _ he _
    | cons next opened => exact bodyAmong_end _ _ _ _ he _ _
  | members_nil => exact fun _ _ _ => rfl
  | members_record _ _ ihbefore ihrecord =>
    intro opened nested rest
    rw [List.append_assoc, ihbefore (fun w hw => hws w (by simp [hw])),
      ihrecord (fun w hw => hws w (by simp [hw]))]
  | @members_word ms w _ hw ih =>
    intro opened nested rest
    rw [List.append_assoc, ih (fun v hv => hws v (by simp [hv])), List.singleton_append]
    rcases Bool.or_eq_true_iff.1 hw with hcase | hroutine
    · exact bodyAmong_case _ _ _ _ hcase
    · exact bodyAmong_routine _ _ _ _ hroutine (hws w (by simp) hroutine)
  | @main bs m e hm _ he ih =>
    intro nested rest
    -- A local routine is still to come, so this block is not the body.
    rw [List.cons_append, List.append_assoc, List.singleton_append, bodyAmong_opensBody _ _ _ _ hm]
    show bodyAmong masked [.block] (nested + 1) none (bs ++ e :: rest) = _
    rw [ih (fun w hw => hws w (by simp [hw])), bodyAmong_end_local _ _ he]
    rfl
  | block_nil => exact fun _ _ _ _ => rfl
  | @block_routine bs w _ hw ih =>
    intro opened nested begun rest
    rw [List.append_assoc, ih (fun v hv => hws v (by simp [hv])), List.singleton_append]
    exact bodyAmong_routine _ _ _ _ hw (hws w (by simp) hw)
  | @block_block bs cs w e _ hw _ he ihbefore ihinside =>
    intro opened nested begun rest
    rw [List.append_assoc, ihbefore (fun v hv => hws v (by simp [hv])), List.cons_append,
      List.append_assoc, List.singleton_append, bodyAmong_opensBlock _ _ _ _ hw]
    exact (ihinside fun v hv => hws v (by simp [hv])).block_end he _ _ _ _

/-- Local declarations, then a block: **the block is the body**. -/
theorem bodyAmong_eq {locals block : List BlockWord} {opening closing : BlockWord}
    (hlocals : Passes masked .locals locals) (hopening : opening.opensBody = true)
    (hblock : Passes masked .block block) (hclosing : closing.isEnd = true)
    (others : List BlockWord) :
    bodyAmong masked [] 0 none (locals ++ opening :: (block ++ closing :: others))
      = .ok (some ⟨opening.stop, closing.start, closing.stop⟩) := by
  rw [hlocals, bodyAmong_opensBody _ _ _ _ hopening]
  show bodyAmong masked [.block] 0 (some opening.stop) (block ++ closing :: others) = _
  rw [hblock, bodyAmong_end_body _ _ hclosing]

/-- A text with two words in it, one behind the other. -/
theorem BlockWord.StandsIn.between {w w' : BlockWord} (h : w.StandsIn masked)
    (h' : w'.StandsIn masked) (hle : w.stop ≤ w'.start) :
    ∃ front x inner y back, masked = front ++ (x ++ (inner ++ (y ++ back)))
      ∧ Text.lower x = w.word ∧ Text.lower y = w'.word
      ∧ size front = w.start ∧ size (front ++ x) = w.stop ∧ size (front ++ x ++ inner) = w'.start
      ∧ size (front ++ x ++ inner ++ y) = w'.stop := by
  obtain ⟨front, x, rest, rfl, hx, hstart, hstop⟩ := h
  obtain ⟨front', y, back, htext, hy, hstart', hstop'⟩ := h'
  rw [← List.append_assoc] at htext
  rcases List.append_eq_append_iff.1 htext with ⟨inner, rfl, rfl⟩ | ⟨inner, hx', hback⟩
  · exact ⟨front, x, inner, y, back, rfl, hx, hy, hstart, hstop, hstart', hstop'⟩
  · -- The second word is not before the end of the first, so nothing lies between them.
    obtain rfl : inner = [] := by
      by_cases hne : inner = []
      · exact hne
      · have hpos := Text.size_pos hne
        rw [hx', Text.size_append] at hstop
        omega
    rw [List.append_nil] at hx'
    rw [List.nil_append] at hback
    refine ⟨front, x, [], y, back, ?_, hx, hy, hstart, hstop, ?_, ?_⟩
    · rw [List.nil_append, hback]
    · rw [List.append_nil, hx', hstart']
    · rw [List.append_nil, hx', hstop']

/-! ## The body that is found -/

/-- **The body of a routine is found.** If the block words behind the heading, those that name
procedural types left out, begin with local declarations and a block, then the body is what stands
between the two words of that block, however deep the records and routines before it and the blocks
inside it are nested, and whatever follows. -/
theorem body?_of_derives {masked : Text} {start : Nat} {ws locals block others : List BlockWord}
    {opening closing : BlockWord} (hwords : blockWords masked start = .ok ws)
    (hws : ws.filter (!·.namesType masked) = locals ++ opening :: (block ++ closing :: others))
    (hlocals : Derives .locals locals) (hopening : opening.opensBody = true)
    (hblock : Derives .block block) (hclosing : closing.isEnd = true) :
    body? masked start = .ok (some ⟨opening.stop, closing.start, closing.stop⟩)
      ∧ ∃ front x inner y back, masked = front ++ (x ++ (inner ++ (y ++ back)))
        ∧ Text.lower x = opening.word ∧ Text.lower y = closing.word
        ∧ size front = opening.start ∧ size (front ++ x) = opening.stop
        ∧ size (front ++ x ++ inner) = closing.start
        ∧ size (front ++ x ++ inner ++ y) = closing.stop
        ∧ cut masked opening.stop closing.start = .ok inner := by
  obtain ⟨hstands, hordered⟩ := standsIn_of_blockWords hwords
  have hfree : ∀ w ∈ ws.filter (!·.namesType masked),
      w.StandsIn masked ∧ (w.isRoutine = true → inTypePosition masked w.start = .ok false) := by
    intro w hw
    obtain ⟨hw, htype⟩ := List.mem_filter.1 hw
    have hstand := (hstands w hw).2
    refine ⟨hstand, fun hroutine => ?_⟩
    rw [hstand.inTypePosition_eq hroutine, (by simpa using htype : w.namesType masked = false)]
  have hordered' := hordered.filter (!·.namesType masked)
  rw [hws] at hfree hordered'
  have hle : opening.stop ≤ closing.start := by
    have hbehind := (List.pairwise_cons.1 (List.pairwise_append.1 hordered').2.1).1
    exact hbehind closing (by simp)
  refine ⟨?_, ?_⟩
  · rw [body?, hwords]
    show bodyAmong masked [] 0 none ws = _
    rw [bodyAmong_filter (fun w hw => (hstands w hw).2), hws]
    exact bodyAmong_eq (hlocals.passes fun w hw => (hfree w (by simp [hw])).2) hopening
      (hblock.passes fun w hw => (hfree w (by simp [hw])).2) hclosing others
  · obtain ⟨front, x, inner, y, back, rfl, hx, hy, hstart, hstop, hstart', hstop'⟩ :=
      (hfree opening (by simp)).1.between (hfree closing (by simp)).1 hle
    refine ⟨front, x, inner, y, back, rfl, hx, hy, hstart, hstop, hstart', hstop', ?_⟩
    rw [← hstart', ← hstop, Text.size_append (front ++ x)]
    exact cut_eq ⟨front ++ x, by rw [List.append_assoc], rfl⟩

/-- What follows a heading: a variable of a procedural type, a record with a variant part, a
function with a local procedure of its own and a protected block in it, and an assembler block in
capitals; then the block of a program. -/
def nestedLocals : Text :=
  ("P; var H: procedure; R: record case B: Byte of 0: (); end;\n"
    ++ "function F: Byte; procedure D; begin end;\n").toList
    ++ "begin try end end;\nASM case A of end end; begin".toList

/-- Its body is the assembler block. -/
theorem body?_of_derives_nested :
    ∃ ws locals block others opening closing, blockWords nestedLocals 2 = .ok ws
      ∧ ws.filter (!·.namesType nestedLocals) = locals ++ opening :: (block ++ closing :: others)
      ∧ Derives .locals locals ∧ opening.opensBody = true ∧ Derives .block block
      ∧ closing.isEnd = true
      ∧ body? nestedLocals 2 = .ok (some ⟨123, 138, 141⟩)
      ∧ ∃ front x inner y back, nestedLocals = front ++ (x ++ (inner ++ (y ++ back)))
        ∧ Text.lower x = opening.word ∧ Text.lower y = closing.word
        ∧ size front = opening.start ∧ size (front ++ x) = opening.stop
        ∧ size (front ++ x ++ inner) = closing.start
        ∧ size (front ++ x ++ inner ++ y) = closing.stop
        ∧ cut nestedLocals opening.stop closing.start = .ok inner := by
  let word (w : String) (start stop : Nat) : BlockWord := ⟨w.toList, start, stop⟩
  let record := [word "record" 24 30, word "case" 31 35, word "end" 54 57]
  let inner := [word "procedure" 77 86, word "begin" 90 95, word "end" 96 99]
  let main := [word "begin" 101 106, word "try" 107 110, word "end" 111 114, word "end" 115 118]
  let locals := record ++ word "function" 59 67 :: (inner ++ main)
  let block := [word "case" 124 128, word "end" 134 137]
  have hwords : (blockWords nestedLocals 2).toOption.map (List.filter (!·.namesType nestedLocals))
      = some (locals ++ word "asm" 120 123
        :: (block ++ word "end" 138 141 :: [word "begin" 143 148])) := by
    decide +kernel
  have hrecord : Derives .record record := .record rfl (.members_word .members_nil rfl) rfl
  have hinner : Derives .locals inner :=
    .locals_routine .locals_nil rfl .locals_nil (.main rfl .block_nil rfl)
  have hmain : Derives .main main := .main rfl (.block_block .block_nil rfl .block_nil rfl) rfl
  have hlocals : Derives .locals locals :=
    .locals_routine (.locals_record .locals_nil hrecord) rfl hinner hmain
  have hblock : Derives .block block := .block_block .block_nil rfl .block_nil rfl
  cases hws : blockWords nestedLocals 2 with
  | error e =>
    rw [hws] at hwords
    cases hwords
  | ok ws =>
    rw [hws] at hwords
    have hfilter := Option.some.inj hwords
    exact ⟨ws, locals, block, _, _, _, rfl, hfilter, hlocals, rfl, hblock, rfl,
      body?_of_derives hws hfilter hlocals rfl hblock rfl⟩

end Scanner

end PascalAtlas
