import Mathlib.Data.List.Forall2
import PascalAtlas.Parser

/-!
# What the grammar sees

The grammar tests what kind of token comes next and, where it is a name, which name it is without
regard to ASCII case. It never looks at the text of a literal or at an offset. So two lists of
tokens that **look alike** to it (`TokenKind.seen`) are parsed in step: token for token, node for
node and error for error.

This is shown once, for every step of the language in which the grammar is written
(`Step.like_run`). The two runs are related by a `Likeness`, which says when two tokens and
two offsets correspond.
-/

namespace PascalAtlas

open List (Forall₂)

/-! ## Kinds -/

namespace TokenKind

/-- A kind **as the grammar sees it**: names in small letters, literals without their text. -/
def seen : TokenKind → TokenKind
  | .ident name => .ident (Text.lower name)
  | .number _ => .number []
  | .str _ => .str []
  | .charCode _ => .charCode []
  | k => k

/-- The shape of a token is seen. -/
theorem sameShape_seen (k other : TokenKind) : k.seen.sameShape other = k.sameShape other := by
  cases k <;> cases other <;> rfl

theorem toLower_toLower (c : Char) : c.toLower.toLower = c.toLower := by
  by_cases hc : 'A'.val ≤ c.val ∧ c.val ≤ 'Z'.val
  · -- A capital becomes a small letter, which is no capital.
    have hlower : ¬ (c.toLower.val ≥ 'A'.val ∧ c.toLower.val ≤ 'Z'.val) := by
      have hle := UInt32.le_iff_toNat_le.1 hc.1
      have hge := UInt32.le_iff_toNat_le.1 hc.2
      have hsmall : c.toLower.val = c.val + ('a'.val - 'A'.val) := congrArg Char.val (dif_pos hc)
      rw [hsmall]
      simp only [UInt32.le_iff_toNat_le, ge_iff_le, UInt32.toNat_add]
      simp at hle hge ⊢
      omega
    generalize c.toLower = d at hlower ⊢
    exact dif_neg hlower
  · have hlower : c.toLower = c := dif_neg hc
    rw [hlower, hlower]

/-- Small letters stay as they are. -/
theorem lower_lower (t : Text) : Text.lower (Text.lower t) = Text.lower t := by
  rw [Text.lower, Text.lower, List.map_map]
  exact List.map_congr_left fun c _ => toLower_toLower c

/-- Which word a token is, is seen. -/
theorem isWord_seen (k : TokenKind) (word : Text) : k.seen.isWord word = k.isWord word := by
  cases k with
  | ident name =>
    show Text.eqIgnoreCase (Text.lower name) word = Text.eqIgnoreCase name word
    rw [Text.eqIgnoreCase, lower_lower, Text.eqIgnoreCase]
  | _ => rfl

theorem isOneOf_seen (k : TokenKind) (words : List Text) :
    k.seen.isOneOf words = k.isOneOf words := by
  cases k with
  | ident name =>
    show words.any (Text.eqIgnoreCase (Text.lower name)) = words.any (Text.eqIgnoreCase name)
    have hname : Text.eqIgnoreCase (Text.lower name) = Text.eqIgnoreCase name := by
      funext word
      rw [Text.eqIgnoreCase, lower_lower, Text.eqIgnoreCase]
    rw [hname]
  | _ => rfl

/-- The end of the file is seen. -/
theorem eof_of_seen {k : TokenKind} : k.seen = .eof ↔ k = .eof := by
  cases k <;> simp [seen]

end TokenKind

/-! ## Scans -/

namespace Scan

/-- A scan that looks at no more than the grammar does. -/
def Blind (scan : Scan) : Prop :=
  ∀ n k next, scan n k.seen next.seen = scan n k next

end Scan

namespace Step

/-- A step all of whose scans are blind. -/
def Blind : Step → Prop
  | .take scan | .takeClosed scan _ => scan.Blind
  | .seq a b | .branch _ a b => a.Blind ∧ b.Blind
  | .loop _ body | .node _ body => body.Blind
  | .ifMoved body moved still => body.Blind ∧ moved.Blind ∧ still.Blind
  | .guarded recovery body => recovery.Blind ∧ body.Blind
  | _ => True

end Step

/-! ## Likeness -/

/-- When the tokens and offsets of two texts **correspond**. Either the order of offsets corresponds
too, or all offsets do. -/
structure Likeness where
  token : Token → Token → Prop
  offset : Nat → Nat → Prop
  seen_eq : ∀ {t t' : Token}, token t t' → t.kind.seen = t'.kind.seen
  start_like : ∀ {t t' : Token}, token t t' → offset t.start t'.start
  stop_like : ∀ {t t' : Token}, token t t' → offset t.stop t'.stop
  ordered : (∀ {a a' b b' : Nat}, offset a a' → offset b b' → (a ≤ b ↔ a' ≤ b'))
    ∨ ∀ a a', offset a a'

/-- Offsets that correspond only to themselves are ordered alike. -/
theorem Likeness.ordered_of_eq :
    (∀ {a a' b b' : Nat}, a' = a → b' = b → (a ≤ b ↔ a' ≤ b')) ∨ ∀ a a' : Nat, a' = a := by
  refine .inl ?_
  rintro a _ b _ rfl rfl
  exact Iff.rfl

/-- Trees of the same shape over tokens that correspond. -/
inductive Tree.Like (L : Likeness) : Tree → Tree → Prop
  | leaf {t t' : Token} (h : L.token t t') : Like L (.leaf t) (.leaf t')
  | node {kind : NodeKind} {start start' stop stop' : Nat} {children children' : List Tree}
      (hstart : L.offset start start') (hstop : L.offset stop stop')
      (hchildren : Forall₂ (Like L) children children') :
      Like L (.node kind start stop children) (.node kind start' stop' children')

variable {L : Likeness}

/-- Trees that look alike begin at offsets that correspond. -/
theorem Tree.Like.start {a b : Tree} (h : Tree.Like L a b) : L.offset a.start b.start := by
  cases h with
  | leaf h => exact L.start_like h
  | node hstart _ _ => exact hstart

/-- They end at offsets that correspond. -/
theorem Tree.Like.stop {a b : Tree} (h : Tree.Like L a b) : L.offset a.stop b.stop := by
  cases h with
  | leaf h => exact L.stop_like h
  | node _ hstop _ => exact hstop

/-- Two lists that correspond are both empty, or have first items that correspond. -/
theorem head_like {α : Type} {R : α → α → Prop} {l l' : List α} (h : Forall₂ R l l') :
    (l = [] ∧ l' = []) ∨ ∃ a a', l.head? = some a ∧ l'.head? = some a' ∧ R a a' := by
  cases h with
  | nil => exact .inl ⟨rfl, rfl⟩
  | cons h _ => exact .inr ⟨_, _, rfl, rfl, h⟩

/-- Nodes over children that look alike do so too, empty ones at offsets that correspond. -/
theorem Tree.like_ofChildren {children children' : List Tree}
    (h : Forall₂ (Tree.Like L) children children') (kind : NodeKind) {offset offset' : Nat}
    (hoffset : L.offset offset offset') :
    Tree.Like L (ofChildren kind children offset) (ofChildren kind children' offset') := by
  have hlast := head_like (List.rel_reverse h)
  rw [List.head?_reverse, List.head?_reverse, List.reverse_eq_nil_iff, List.reverse_eq_nil_iff]
    at hlast
  rcases hlast with ⟨rfl, rfl⟩ | ⟨last, last', hl, hl', hlast⟩
  · exact .node hoffset hoffset .nil
  rcases head_like h with ⟨rfl, rfl⟩ | ⟨first, first', hf, hf', hfirst⟩
  · cases hl
  simp only [ofChildren, hl, hl', hf, hf']
  rcases L.ordered with hordered | hall
  · by_cases hle : first.start ≤ last.stop
    · rw [if_pos hle, if_pos ((hordered hfirst.start hlast.stop).1 hle)]
      exact .node hfirst.start hlast.stop h
    · rw [if_neg hle, if_neg (mt (hordered hfirst.start hlast.stop).2 hle)]
      exact .node hoffset hoffset h
  · split <;> split <;> exact .node (hall _ _) (hall _ _) h

/-- Errors of the same cause at tokens that correspond, or where no token is left. -/
def ParseError.Like (L : Likeness) (e e' : ParseError) : Prop :=
  e.cause = e'.cause ∧ (L.token ⟨e.found, e.start, e.stop⟩ ⟨e'.found, e'.start, e'.stop⟩
    ∨ e.found = .eof ∧ e'.found = .eof ∧ L.offset e.start e'.start ∧ L.offset e.stop e'.stop)

/-- Unfinished nodes of the same kind with children that correspond. -/
def Frame.Like (L : Likeness) (f f' : Frame) : Prop :=
  f.kind = f'.kind ∧ Forall₂ (Tree.Like L) f.children f'.children

/-- States of two parsers that go **in step**. -/
structure State.Like (L : Likeness) (s s' : State) : Prop where
  rest : Forall₂ L.token s.rest s'.rest
  frames : Forall₂ (Frame.Like L) s.frames s'.frames
  errors : Forall₂ (ParseError.Like L) s.errors s'.errors
  part : s.part = s'.part
  bodiless : s.bodiless = s'.bodiless
  closed : s.closed = s'.closed
  lastStart : L.offset s.lastStart s'.lastStart

/-- Outcomes of two parsers that go in step. -/
inductive Outcome.Like (L : Likeness) : Outcome → Outcome → Prop
  | ok {s s' : State} (h : s.Like L s') : Like L (.ok s) (.ok s')
  | fail {e e' : ParseError} {s s' : State} (he : e.Like L e') (h : s.Like L s') :
    Like L (.fail e s) (.fail e' s')
  | stuck {s s' : State} (h : s.Like L s') : Like L (.stuck s) (.stuck s')

/-! ## One move -/

namespace State

variable {s s' : State}

/-- What comes first in tokens that look alike is seen as the same kind. -/
theorem headKind_like {rest rest' : List Token} (h : Forall₂ L.token rest rest') :
    (headKind rest).seen = (headKind rest').seen := by
  cases h with
  | nil => rfl
  | cons ht _ => exact L.seen_eq ht

/-- The token that comes next is seen as the same. -/
theorem Like.kind (h : s.Like L s') : s.kind.seen = s'.kind.seen :=
  headKind_like h.rest

/-- The token after it is seen as the same, too. -/
theorem Like.kindAfter (h : s.Like L s') : s.kindAfter.seen = s'.kindAfter.seen := by
  have htail : Forall₂ L.token s.rest.tail s'.rest.tail := by
    rw [← List.drop_one, ← List.drop_one]
    exact List.forall₂_drop 1 h.rest
  exact headKind_like htail

/-- Where the next token begins, the offsets correspond. -/
theorem Like.offset (h : s.Like L s') : L.offset s.offset s'.offset := by
  have hrest := h.rest
  unfold State.offset
  generalize s.rest = rest at hrest
  generalize s'.rest = rest' at hrest
  cases hrest with
  | nil => exact h.lastStart
  | cons ht _ => exact L.start_like ht

/-- One cause gives errors that look alike. -/
theorem Like.errorHere (h : s.Like L s') (cause : ParseCause) :
    (s.errorHere cause).Like L (s'.errorHere cause) := by
  have hrest := h.rest
  unfold State.errorHere
  generalize s.rest = rest at hrest
  generalize s'.rest = rest' at hrest
  cases hrest with
  | nil => exact ⟨rfl, .inr ⟨rfl, rfl, h.lastStart, h.lastStart⟩⟩
  | cons ht _ => exact ⟨rfl, .inl ht⟩

theorem Like.withRest (h : s.Like L s') {rest rest' : List Token}
    (hrest : Forall₂ L.token rest rest') :
    State.Like L { s with rest := rest } { s' with rest := rest' } :=
  ⟨hrest, h.frames, h.errors, h.part, h.bodiless, h.closed, h.lastStart⟩

theorem Like.withFrames (h : s.Like L s') {frames frames' : List Frame}
    (hframes : Forall₂ (Frame.Like L) frames frames') :
    State.Like L { s with frames := frames } { s' with frames := frames' } :=
  ⟨h.rest, hframes, h.errors, h.part, h.bodiless, h.closed, h.lastStart⟩

theorem Like.addError (h : s.Like L s') {e e' : ParseError} (he : e.Like L e') :
    State.Like L { s with errors := s.errors ++ [e] } { s' with errors := s'.errors ++ [e'] } :=
  ⟨h.rest, h.frames, List.rel_append h.errors (.cons he .nil), h.part, h.bodiless,
    h.closed, h.lastStart⟩

/-- Each move keeps states alike; this one adds trees that look alike. -/
theorem Like.push (h : s.Like L s') {trees trees' : List Tree}
    (htrees : Forall₂ (Tree.Like L) trees trees') :
    (s.push trees).Like L (s'.push trees') := by
  have hframes := h.frames
  unfold State.push
  generalize s.frames = frames at hframes
  generalize s'.frames = frames' at hframes
  cases hframes with
  | nil => exact h
  | cons hf hfs => exact h.withFrames (.cons ⟨hf.1, List.rel_append hf.2 htrees⟩ hfs)

theorem Like.bump (h : s.Like L s') : s.bump.Like L s'.bump := by
  have hrest := h.rest
  unfold State.bump
  generalize s.rest = rest at hrest
  generalize s'.rest = rest' at hrest
  cases hrest with
  | nil => exact h
  | @cons t t' ts ts' ht hts =>
    have heof : t.kind = .eof ↔ t'.kind = .eof := by
      rw [← TokenKind.eof_of_seen, L.seen_eq ht, TokenKind.eof_of_seen]
    by_cases hkind : t.kind = .eof
    · simp only [if_pos hkind, if_pos (heof.1 hkind)]
      exact h
    · simp only [if_neg hkind, if_neg (mt heof.2 hkind)]
      exact (h.withRest hts).push (.cons (.leaf ht) .nil)

theorem Like.advance (h : s.Like L s') (n : Nat) : (s.advance n).Like L (s'.advance n) := by
  refine (h.withRest (List.forall₂_drop n h.rest)).push ?_
  exact List.rel_map (fun _ _ ht => .leaf ht) (List.forall₂_take n h.rest)

theorem Like.openNode (h : s.Like L s') (kind : NodeKind) :
    (s.openNode kind).Like L (s'.openNode kind) :=
  h.withFrames (.cons ⟨rfl, .nil⟩ h.frames)

theorem Like.closeNode (h : s.Like L s') : s.closeNode.Like L s'.closeNode := by
  have hframes := h.frames
  unfold State.closeNode
  generalize s.frames = frames at hframes
  generalize s'.frames = frames' at hframes
  cases hframes with
  | nil => exact h
  | @cons f f' _ _ hf hfs =>
    cases hfs with
    | nil => exact h
    | cons hg hgs =>
      have hnode := Tree.like_ofChildren hf.2 f.kind h.offset
      rw [hf.1] at hnode
      refine h.withFrames (.cons ⟨hg.1, List.rel_append hg.2 (.cons ?_ .nil)⟩ hgs)
      rw [hf.1]
      exact hnode

theorem Like.collapse (h : s.Like L s') (depth : Nat) :
    (s.collapse depth).Like L (s'.collapse depth) := by
  have hlength := h.frames.length_eq
  unfold State.collapse
  refine h.withFrames (.cons ⟨rfl, ?_⟩ ?_)
  · rw [hlength]
    exact List.rel_flatMap (List.rel_reverse (List.forall₂_take _ h.frames)) fun _ _ hf => hf.2
  · rw [hlength]
    exact List.forall₂_drop _ h.frames

end State

/-! ## Scans and tests -/

/-- A **blind** scan passes over as many tokens in both lists. -/
theorem Scan.Blind.run_eq {scan : Scan} (hscan : scan.Blind) {rest rest' : List Token}
    (h : Forall₂ L.token rest rest') (n : Nesting) : scan.run n rest = scan.run n rest' := by
  induction h generalizing n with
  | nil => rfl
  | @cons t t' ts ts' ht hts ih =>
    have heof : t.kind = .eof ↔ t'.kind = .eof := by
      rw [← TokenKind.eof_of_seen, L.seen_eq ht, TokenKind.eof_of_seen]
    have hmove : scan n t.kind (headKind ts) = scan n t'.kind (headKind ts') := by
      rw [← hscan, L.seen_eq ht, State.headKind_like hts, hscan]
    unfold Scan.run
    by_cases hkind : t.kind = .eof
    · rw [if_pos hkind, if_pos (heof.1 hkind)]
    · rw [if_neg hkind, if_neg (mt heof.2 hkind), hmove]
      cases scan n t'.kind (headKind ts') with
      | stop => rfl
      | last => rfl
      | go n' => simp only [ih n']

/-- No test tells apart what looks alike. -/
theorem Test.holds_like {s s' : State} (h : s.Like L s') (test : Test) :
    test.holds s = test.holds s' := by
  induction test with
  | here kind =>
    rw [holds, ← TokenKind.sameShape_seen, h.kind, TokenKind.sameShape_seen, holds]
  | ahead kind =>
    rw [holds, ← TokenKind.sameShape_seen, h.kindAfter, TokenKind.sameShape_seen, holds]
  | word spelling => rw [holds, ← TokenKind.isWord_seen, h.kind, TokenKind.isWord_seen, holds]
  | bodiless => exact h.bodiless
  | inInterface => rw [holds, h.part, holds]
  | closed => exact h.closed
  | never => rfl
  | or a b iha ihb => rw [holds, holds, iha, ihb]
  | and a b iha ihb => rw [holds, holds, iha, ihb]
  | not a ih => rw [holds, holds, ih]

/-! ## Steps -/

/-- A blind recovery keeps states alike. -/
theorem State.Like.recover {recovery : Scan} (hrecovery : recovery.Blind)
    {entry entry' s s' : State} (hentry : entry.Like L entry') (h : s.Like L s')
    {e e' : ParseError} (he : e.Like L e') :
    (State.recover recovery entry e s).Like L (State.recover recovery entry' e' s') := by
  have hcollapsed := (h.addError he).collapse entry.frames.length
  rw [State.recover, State.recover, ← hentry.frames.length_eq, ← hentry.rest.length_eq]
  generalize State.collapse _ { s with errors := _ } = c at hcollapsed ⊢
  generalize State.collapse _ { s' with errors := _ } = c' at hcollapsed ⊢
  have hadvanced := hcollapsed.advance (recovery.run {} c.rest).1
  rw [← hrecovery.run_eq hcollapsed.rest, ← hadvanced.rest.length_eq]
  split
  · exact hadvanced.bump.closeNode
  · exact hadvanced.closeNode

/-- Outcomes look alike if what comes after them does. -/
theorem Outcome.Like.andThen {o o' : Outcome} (h : o.Like L o') {f f' : State → Outcome}
    (hf : ∀ {s s' : State}, s.Like L s' → (f s).Like L (f' s')) :
    (o.andThen f).Like L (o'.andThen f') := by
  cases h with
  | ok h => exact hf h
  | fail he h => exact .fail he h
  | stuck h => exact .stuck h

/-- Loops over bodies that keep states alike do as many rounds in both. -/
theorem Step.like_runLoop {test : Test} {body body' : State → Outcome}
    (hbody : ∀ {s s' : State}, s.Like L s' → (body s).Like L (body' s')) (n : Nat) {s s' : State}
    (h : s.Like L s') : (runLoop test body n s).Like L (runLoop test body' n s') := by
  induction n generalizing s s' with
  | zero =>
    rw [runLoop, runLoop, Test.holds_like h test]
    split
    · exact .stuck h
    · exact .ok h
  | succ n ih =>
    rw [runLoop, runLoop, Test.holds_like h test]
    split
    · exact (hbody h).andThen ih
    · exact .ok h

/-- **Two runs of a step go in step** if its scans are blind and the rules do. -/
theorem Step.like_run {call call' : Rule → State → Outcome}
    (hcall : ∀ rule {s s' : State}, s.Like L s' → (call rule s).Like L (call' rule s'))
    (a : Step) (ha : a.Blind) {s s' : State} (h : s.Like L s') :
    (a.run call s).Like L (a.run call' s') := by
  induction a generalizing s s' with
  | skip => exact .ok h
  | bump => exact .ok h.bump
  -- A blind scan consumes as many tokens from one as from the other.
  | take scan =>
    rw [run, run, ha.run_eq h.rest]
    exact .ok (h.advance _)
  | takeClosed scan cause =>
    rw [run, run, ha.run_eq h.rest]
    have hadvance := h.advance (scan.run {} s'.rest).1
    dsimp only
    split
    · exact .ok hadvance
    · exact .fail (hadvance.errorHere cause) hadvance
  | fail cause => exact .fail (h.errorHere cause) h
  | report cause => exact .ok (h.addError (h.errorHere cause))
  | seq a b iha ihb => exact (iha ha.1 h).andThen (ihb ha.2)
  | branch test a b iha ihb =>
    rw [run, run, Test.holds_like h test]
    split
    · exact iha ha.1 h
    · exact ihb ha.2 h
  -- The rounds are bounded by the tokens that are left, and these are as many in both.
  | loop test body ih =>
    rw [run, run, h.rest.length_eq]
    exact like_runLoop (ih ha) _ h
  | ifMoved body moved still ihb ihm ihs =>
    refine (ihb ha.1 h).andThen ?_
    intro t t' ht
    rw [ht.rest.length_eq, h.rest.length_eq]
    split
    · exact ihm ha.2.1 ht
    · exact ihs ha.2.2 ht
  | node kind body ih => exact (ih ha (h.openNode kind)).andThen fun ht => .ok ht.closeNode
  | guarded recovery body ih =>
    have hbody := ih ha.2 h
    rw [run, run]
    generalize body.run call s = o at hbody
    generalize body.run call' s' = o' at hbody
    cases hbody with
    | ok ht => exact .ok ht
    | fail he ht => exact .ok (h.recover ha.1 ht he)
    | stuck ht => exact .stuck ht
  | enter part => exact .ok ⟨h.rest, h.frames, h.errors, rfl, h.bodiless, h.closed, h.lastStart⟩
  | noteBodiless value => exact .ok ⟨h.rest, h.frames, h.errors, h.part, rfl, h.closed, h.lastStart⟩
  | noteClosed => exact .ok ⟨h.rest, h.frames, h.errors, h.part, h.bodiless, rfl, h.lastStart⟩
  | call rule => exact hcall rule h

/-- The rules of a blind grammar go in step. -/
theorem Rule.like_run {grammar : Rule → Step} (hgrammar : ∀ rule, (grammar rule).Blind) (n : Nat)
    (rule : Rule) {s s' : State} (h : s.Like L s') :
    (Rule.run grammar n rule s).Like L (Rule.run grammar n rule s') := by
  induction n generalizing rule s s' with
  | zero => exact .stuck h
  | succ n ih => exact Step.like_run (fun rule _ _ => ih rule) (grammar rule) (hgrammar rule) h

/-! ## The grammar -/

namespace Scan

/-- The scans of the grammar are blind, each because of the kinds it asks for. -/
theorem blind_expression (stops : List TokenKind) : (expression stops).Blind := by
  intro n k next
  have hstops : (k.seen.sameShape : TokenKind → Bool) = k.sameShape :=
    funext (TokenKind.sameShape_seen k)
  have hterminator : isTerminator k.seen = isTerminator k := by cases k <;> rfl
  have hbrackets : bracketsAfter n.brackets k.seen
    = bracketsAfter n.brackets k := by cases k <;> rfl
  rw [expression, expression, hstops, hterminator, hbrackets]

/-- A scan over a type is blind if its stops are. -/
theorem blind_typeRef {isStop : TokenKind → Bool} (hstop : ∀ k, isStop k.seen = isStop k) :
    (typeRef isStop).Blind := by
  intro n k next
  unfold typeRef
  rw [hstop]
  cases k <;> rfl

theorem blind_balanced (opening closing : TokenKind) : (balanced opening closing).Blind := by
  intro n k next
  rw [balanced, balanced, TokenKind.sameShape_seen, TokenKind.sameShape_seen]

theorem blind_upTo (stops : List TokenKind) : (upTo stops).Blind := by
  intro n k next
  have hstops : (k.seen.sameShape : TokenKind → Bool) = k.sameShape :=
    funext (TokenKind.sameShape_seen k)
  rw [upTo, upTo, hstops]

theorem blind_throughEnd : throughEnd.Blind := by
  intro n k next
  cases k <;> rfl

theorem blind_upToSemi : upToSemi.Blind := by
  intro n k next
  cases k <;> rfl

theorem blind_locals : locals.Blind := by
  intro n k next
  cases k <;> cases next <;> rfl

theorem blind_toDeclaration : toDeclaration.Blind := by
  intro n k next
  cases k <;> cases next <;> rfl

theorem blind_pastMember : pastMember.Blind := by
  rintro ⟨brackets, blocks, afterType⟩ k next
  cases brackets <;> cases k <;> rfl

theorem blind_toStatementEnd : toStatementEnd.Blind := by
  intro n k next
  cases k <;> rfl

end Scan

namespace Grammar

open Step (all choose expect expectIdent errorToken)

theorem endsPropertyType_seen (k : TokenKind) : endsPropertyType k.seen = endsPropertyType k := by
  rw [endsPropertyType, endsPropertyType, TokenKind.sameShape_seen, TokenKind.isOneOf_seen]

theorem endsType_seen (k : TokenKind) : endsType k.seen = endsType k := by
  cases k <;> rfl

/-- Statements are parsed by blind scans alone. -/
theorem blind_statements (stops : List TokenKind) : (statements stops).Blind := by
  simp [statements, Step.Blind, choose, errorToken, Scan.blind_toStatementEnd]

theorem blind_routineHeading : routineHeading.Blind := by
  simp [routineHeading, Step.Blind, all, Step.when, expectIdent, optionalBracketed, bracketed,
    formalParams, typeUpTo, optionalSemi, directiveClause, Scan.blind_balanced, Scan.blind_upTo,
    Scan.blind_upToSemi, Scan.blind_typeRef endsType_seen]

/-- What **any rule** stands for is parsed by blind scans alone. -/
theorem blind_rules (rule : Rule) : (rules rule).Blind := by
  cases rule with
  | statement =>
    simp [rules, statement, Step.Blind, choose, all, Step.when, expect, compound, conditional,
      headed, caseStatement, caseArm, repetition, tryStatement, handler, assembler, expression,
      optionalSemi, blind_statements, Scan.blind_expression, Scan.blind_upTo]
  | routine =>
    simp [rules, routine, routineBody, Step.Blind, choose, all, Step.when, expect, compound,
      assembler, localDecls, optionalSemi, blind_routineHeading, blind_statements, Scan.blind_upTo,
      Scan.blind_locals]

theorem blind_typeSection : typeSection.Blind := by
  simp [typeSection, typeDecl, classType, classRest, members, member, fieldDecl, propertyDecl,
    variantPart, Step.Blind, choose, all, Step.when, expect, expectIdent, errorToken,
    optionalBracketed, bracketed, typeUpTo, optionalSemi, blind_routineHeading, Scan.blind_balanced,
    Scan.blind_upTo, Scan.blind_upToSemi, Scan.blind_pastMember, Scan.blind_throughEnd,
    Scan.blind_toDeclaration, Scan.blind_typeRef endsType_seen,
    Scan.blind_typeRef endsPropertyType_seen]

/-- The **unit** is parsed by blind scans alone. -/
theorem blind_unit : unit.Blind := by
  simp [unit, unitItem, declaration, unitHeader, usesClause, usedUnit, dottedName, unitSection,
    localDecls, compound, Step.Blind, choose, all, Step.when, expect, expectIdent, errorToken,
    optionalBracketed, bracketed, blind_typeSection, blind_statements, Scan.blind_balanced,
    Scan.blind_toDeclaration, Scan.blind_locals]

end Grammar

/-! ## Trees of whole texts -/

/-- Parsing begins alike on tokens that look alike. -/
theorem State.like_initial {tokens tokens' : List Token} (h : Forall₂ L.token tokens tokens')
    (hzero : L.offset 0 0) : (State.initial tokens).Like L (State.initial tokens') := by
  refine ⟨h, .cons ⟨rfl, .nil⟩ .nil, .nil, rfl, rfl, rfl, ?_⟩
  have hlast := head_like (List.rel_reverse h)
  rw [List.head?_reverse, List.head?_reverse, List.reverse_eq_nil_iff, List.reverse_eq_nil_iff]
    at hlast
  rcases hlast with ⟨rfl, rfl⟩ | ⟨t, t', ht, ht', hlike⟩
  · exact hzero
  · simp only [State.initial, ht, ht']
    exact L.start_like hlike

/-- Outcomes that look alike leave states that do. -/
theorem Outcome.Like.state {o o' : Outcome} (h : o.Like L o') : o.state.Like L o'.state := by
  cases h with
  | ok h => exact h
  | fail _ h => exact h
  | stuck h => exact h

/-- States that look alike have roots that do. -/
theorem State.Like.root {s s' : State} (h : s.Like L s') (hzero : L.offset 0 0) :
    s.root.Like L s'.root := by
  have hclosed (n : Nat) : ((n.repeat State.closeNode s).Like L (n.repeat State.closeNode s')) := by
    induction n with
    | zero => exact h
    | succ n ih => exact ih.closeNode
  have hframes := (hclosed (s.frames.length - 1)).frames
  unfold State.root State.closeAll
  rw [← h.frames.length_eq]
  generalize (Nat.repeat State.closeNode _ s).frames = frames at hframes
  generalize (Nat.repeat State.closeNode _ s').frames = frames' at hframes
  cases hframes with
  | nil => exact .node hzero hzero .nil
  | @cons f f' _ _ hf _ =>
    have hnode := Tree.like_ofChildren hf.2 f.kind h.offset
    simp only
    rw [← hf.1]
    exact hnode

/-- **Tokens that look alike are parsed alike.** -/
theorem Token.like_parse {tokens tokens' : List Token} (h : Forall₂ L.token tokens tokens')
    (hzero : L.offset 0 0) :
    (parse tokens).root.Like L (parse tokens').root
      ∧ Forall₂ (ParseError.Like L) (parse tokens).errors (parse tokens').errors := by
  have hrules (rule : Rule) {s s' : State} (hs : s.Like L s') :=
    Rule.like_run Grammar.blind_rules (tokens.length + 1) rule hs
  have hrun := Step.like_run hrules Grammar.unit Grammar.blind_unit (State.like_initial h hzero)
  have hstate : (parseState tokens).Like L (parseState tokens') := by
    rw [parseState, parseState, ← h.length_eq]
    exact hrun.state
  exact ⟨hstate.root hzero, hstate.errors⟩

end PascalAtlas
