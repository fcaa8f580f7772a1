import PascalAtlas.Proofs.Casing
import PascalAtlas.Proofs.Local
import PascalAtlas.Proofs.Lossless
import PascalAtlas.Proofs.MaskedUnit

/-!
# Texts that look alike

The tree of a text says nothing about its layout. Take away the offsets, and put for each token its
index among the tokens of the text: what remains is the **outline** of the tree. Two texts whose
tokens look alike to the grammar, one by one, have the same outline, whatever stands between the
tokens and whatever the literals say (`outline_of_alike`). And where the texts differ in the case of
ASCII letters only, all offsets are the same too.

That the trees have one shape is what it means for two parsers to go in step. The indices take two
facts more: the tokens of a text are different from one another, so each has one index; and every
error is met **at a token** (`Runs.located`), because the end of the tokens is never passed.
-/

namespace PascalAtlas

open List (Forall₂)

/-! ## Errors are met at tokens -/

/-- The token at which an error was met. -/
def ParseError.token (e : ParseError) : Token :=
  ⟨e.found, e.start, e.stop⟩

/-- A state in the middle of some tokens that still has their end **before** it, and whose errors
were met at tokens. -/
structure State.Located (tokens : List Token) (s : State) : Prop where
  rest : s.rest <:+ tokens
  ends : ∃ t ∈ s.rest, t.kind = .eof
  errors : ∀ e ∈ s.errors, e.token ∈ tokens

/-- An outcome whose state is located, and whose failure was met at a token. -/
def Outcome.Located (tokens : List Token) : Outcome → Prop
  | .ok s | .stuck s => s.Located tokens
  | .fail e s => e.token ∈ tokens ∧ s.Located tokens

namespace State.Located

variable {tokens : List Token} {s s' : State}

/-- Only the rest and the errors of a state have to be located. -/
theorem of_eq (h : s.Located tokens) (hrest : s'.rest = s.rest) (herrors : s'.errors = s.errors) :
    s'.Located tokens :=
  ⟨hrest ▸ h.rest, hrest ▸ h.ends, herrors ▸ h.errors⟩

/-- An error at the next token is met at a token of the text, because the last one stays. -/
theorem errorHere (h : s.Located tokens) (cause : ParseCause) :
    (s.errorHere cause).token ∈ tokens := by
  obtain ⟨e, he, -⟩ := h.ends
  obtain ⟨t, ts, hts⟩ := List.exists_cons_of_ne_nil (List.ne_nil_of_mem he)
  have hhere : (s.errorHere cause).token = t := by
    rw [State.errorHere, hts]
    rfl
  rw [hhere]
  exact h.rest.subset (by rw [hts]; exact List.mem_cons_self ..)

/-- A located error may be added. -/
theorem addError (h : s.Located tokens) {e : ParseError} (he : e.token ∈ tokens) :
    State.Located tokens { s with errors := s.errors ++ [e] } := by
  refine ⟨h.rest, h.ends, ?_⟩
  intro e' he'
  rcases List.mem_append.1 he' with he' | he'
  · exact h.errors e' he'
  · rw [List.mem_singleton.1 he']
    exact he

/-- Where tokens are consumed that are not the end, the end is still to come. -/
theorem move (h : s.Located tokens) {n : Nat} (hpassed : ∀ t ∈ s.rest.take n, t.kind ≠ .eof)
    (hrest : s'.rest = s.rest.drop n) (herrors : s'.errors = s.errors) : s'.Located tokens := by
  refine ⟨?_, ?_, herrors ▸ h.errors⟩
  · rw [hrest]
    exact (List.drop_suffix _ _).trans h.rest
  · obtain ⟨t, ht, hkind⟩ := h.ends
    rw [← List.take_append_drop n s.rest] at ht
    rcases List.mem_append.1 ht with ht | ht
    · exact absurd hkind (hpassed t ht)
    · exact ⟨t, hrest ▸ ht, hkind⟩

/-- A scan stays among the tokens. -/
theorem advance (h : s.Located tokens) (scan : Scan) :
    (s.advance (scan.run {} s.rest).1).Located tokens :=
  h.move (scan.kind_ne_eof_of_passed {} s.rest) (rest_advance s _) (errors_advance s _)

/-- So does a single move. -/
theorem bump (h : s.Located tokens) : s.bump.Located tokens := by
  by_cases heof : s.kind = .eof
  · rw [bump_eof heof]
    exact h
  · obtain ⟨t, ts, hts⟩ := List.exists_cons_of_ne_nil (ne_nil_of_kind heof)
    have ht : t.kind ≠ .eof := by rwa [kind, hts, headKind] at heof
    refine h.move (n := 1) ?_ ?_ (errors_bump s)
    · rw [hts]
      simpa using ht
    · rw [bump_eq hts ht, hts]
      rfl

theorem closeNode (h : s.Located tokens) : s.closeNode.Located tokens :=
  h.of_eq (rest_closeNode s) (errors_closeNode s)

/-- A recovery stays among the tokens, and its error is where it was met. -/
theorem recover (h : s.Located tokens) (recovery : Scan) (entry : State) {e : ParseError}
    (he : e.token ∈ tokens) :
    (State.recover recovery entry e s).Located tokens := by
  have hcollapsed : (State.collapse entry.frames.length
      { s with errors := s.errors ++ [e] }).Located tokens :=
    (h.addError he).of_eq rfl rfl
  have hadvanced := hcollapsed.advance recovery
  rw [State.recover]
  split
  · exact hadvanced.bump.closeNode
  · exact hadvanced.closeNode

end State.Located

/-- **Every error is met at a token**, as long as the tokens have an end. -/
theorem Step.Runs.located {grammar : Rule → Step} {b : Nat} {a : Step} {s : State} {o : Outcome}
    {tokens : List Token} (h : Runs grammar b a s o) : s.Located tokens → o.Located tokens := by
  induction h with
  | bump => exact State.Located.bump
  | take => exact fun hs => hs.advance _
  | takeClosed_ok => exact fun hs => hs.advance _
  | takeClosed_fail => exact fun hs => ⟨(hs.advance _).errorHere _, hs.advance _⟩
  | fail => exact fun hs => ⟨hs.errorHere _, hs⟩
  | report => exact fun hs => hs.addError (hs.errorHere _)
  | enter => exact fun hs => hs.of_eq rfl rfl
  | noteBodiless => exact fun hs => hs.of_eq rfl rfl
  | noteClosed => exact fun hs => hs.of_eq rfl rfl
  | seq_ok _ _ ih₁ ih₂ => exact fun hs => ih₂ (ih₁ hs)
  | loop_round _ _ _ _ ih₁ ih₂ => exact fun hs => ih₂ (ih₁ hs)
  | ifMoved_moved _ _ _ ih₁ ih₂ => exact fun hs => ih₂ (ih₁ hs)
  | ifMoved_still _ _ _ ih₁ ih₂ => exact fun hs => ih₂ (ih₁ hs)
  | node_ok _ ih => exact fun hs => (ih (hs.of_eq rfl rfl)).closeNode
  | node_fail _ ih => exact fun hs => ih (hs.of_eq rfl rfl)
  | guarded_fail _ ih => exact fun hs => (ih hs).2.recover _ _ (ih hs).1
  -- Here the state that is judged is the one of the premise, or the one at the start.
  | skip => exact id
  | loop_done => exact id
  | seq_fail _ ih => exact ih
  | branch_yes _ _ ih => exact ih
  | branch_no _ _ ih => exact ih
  | loop_fail _ _ _ ih => exact ih
  | ifMoved_fail _ ih => exact ih
  | guarded_ok _ ih => exact ih
  | call _ _ ih => exact ih

/-- **Every error of a parse is met at one of the tokens.** -/
theorem token_mem_of_error {tokens : List Token} (hend : ∃ t ∈ tokens, t.kind = .eof) :
    ∀ e ∈ (Token.parse tokens).errors, e.token ∈ tokens := by
  have hstart : (State.initial tokens).Located tokens :=
    ⟨List.suffix_refl _, hend, fun _ he => absurd he List.not_mem_nil⟩
  have hlocated : (Token.parseState tokens).Located tokens :=
    (Grammar.runs_unit tokens).located hstart
  exact hlocated.errors

/-! ## Outlines -/

/-- A tree without its offsets, in which each leaf is the **index** of a token. -/
inductive Shape where
  | leaf (index : Nat)
  | node (kind : NodeKind) (children : List Shape)

mutual

/-- The shape of a tree over some tokens. -/
def Tree.shape (tokens : List Token) : Tree → Shape
  | .leaf t => .leaf (tokens.idxOf t)
  | .node kind _ _ children => .node kind (Tree.shapes tokens children)

/-- The shapes of some trees. -/
def Tree.shapes (tokens : List Token) : List Tree → List Shape
  | [] => []
  | t :: ts => t.shape tokens :: Tree.shapes tokens ts

end

/-- The **outline** of a syntax tree over some tokens: its shape, and for each error its cause and
the index of the token at which it was met. -/
def SyntaxTree.outline (tokens : List Token) (tree : SyntaxTree) :
    Shape × List (ParseCause × Nat) :=
  (tree.root.shape tokens, tree.errors.map fun e => (e.cause, tokens.idxOf e.token))

/-! ## Indices -/

namespace Token

/-- The tokens of a text differ from one another, because their places do. -/
theorem Stream.nodup {src : Text} {pos : Nat} {tokens : List Token} (h : Stream src pos tokens) :
    tokens.Nodup := by
  induction h with
  | eof => exact List.pairwise_singleton _ _
  | token _ hlt _ _ _ rest ih =>
    refine List.nodup_cons.2 ⟨fun hmem => ?_, ih⟩
    have hle := (rest.le_start _ hmem).1
    omega

/-- The end of the tokens has the last index. -/
theorem Stream.idxOf_eof {src : Text} {pos : Nat} {tokens : List Token}
    (h : Stream src pos tokens) {t : Token} (ht : t ∈ tokens) (hkind : t.kind = .eof) :
    tokens.idxOf t + 1 = tokens.length := by
  obtain ⟨front, rfl, hfront⟩ := h.eq_append_eof
  have hout : ∀ u ∈ front, u ≠ t := by
    rintro u hu rfl
    exact (hfront u hu).1 hkind
  have hlast : t = ⟨.eof, Text.size src, Text.size src⟩ := by
    rcases List.mem_append.1 ht with ht | ht
    · exact absurd rfl (hout t ht)
    · exact List.mem_singleton.1 ht
  rw [List.idxOf_append_of_notMem fun hmem => hout t hmem rfl, ← hlast, List.idxOf_cons_self]
  simp

/-- Tokens **correspond** if they have the same index. -/
def atSameIndex {tokens tokens' : List Token}
    (h : tokens'.map (fun t => t.kind.seen) = tokens.map fun t => t.kind.seen) : Likeness where
  token t t' := ∃ i : Nat, tokens[i]? = some t ∧ tokens'[i]? = some t'
  offset _ _ := True
  seen_eq := by
    rintro t t' ⟨i, ht, ht'⟩
    have hi := congrArg (fun kinds : List TokenKind => kinds[i]?) h
    simpa [ht, ht'] using hi.symm
  start_like _ := trivial
  stop_like _ := trivial
  ordered := .inr fun _ _ => trivial

theorem forall₂_atSameIndex {tokens tokens' : List Token}
    (h : tokens'.map (fun t => t.kind.seen) = tokens.map fun t => t.kind.seen) :
    Forall₂ (atSameIndex h).token tokens tokens' := by
  have hlength : tokens'.length = tokens.length := by simpa using congrArg List.length h
  refine List.forall₂_iff_get.2 ⟨hlength.symm, fun i hi hi' => ⟨i, ?_, ?_⟩⟩
  · exact List.getElem?_eq_getElem hi
  · exact List.getElem?_eq_getElem hi'

/-- Where no token comes twice, each is found at its own index. -/
theorem idxOf_eq {tokens : List Token} (hnodup : tokens.Nodup) {i : Nat} {t : Token}
    (ht : tokens[i]? = some t) :
    tokens.idxOf t = i := by
  obtain ⟨hi, rfl⟩ := List.getElem?_eq_some_iff.1 ht
  exact hnodup.idxOf_getElem i hi

end Token

namespace Tree

variable {tokens tokens' : List Token}
  (h : tokens'.map (fun t => t.kind.seen) = tokens.map fun t => t.kind.seen)

mutual

/-- Trees that are alike, token by token, have **the same shape**. -/
theorem shape_of_like (hnodup : tokens.Nodup) (hnodup' : tokens'.Nodup) : (t : Tree) → {t' : Tree} →
    Like (Token.atSameIndex h) t t' → t'.shape tokens' = t.shape tokens
  | .leaf t, t', hlike => by
    cases hlike with
    | leaf ht =>
      obtain ⟨i, hi, hi'⟩ := ht
      rw [shape, shape, Token.idxOf_eq hnodup hi, Token.idxOf_eq hnodup' hi']
  | .node kind start stop children, t', hlike => by
    cases hlike with
    | node _ _ hchildren => rw [shape, shape, shapes_of_like hnodup hnodup' children hchildren]

/-- So have lists of them. -/
theorem shapes_of_like (hnodup : tokens.Nodup) (hnodup' : tokens'.Nodup) :
    (ts : List Tree) → {ts' : List Tree} →
    Forall₂ (Like (Token.atSameIndex h)) ts ts' → shapes tokens' ts' = shapes tokens ts
  | [], ts', hlike => by
    cases hlike
    rfl
  | t :: ts, ts', hlike => by
    cases hlike with
    | cons ht hts =>
      rw [shapes, shapes, shape_of_like hnodup hnodup' t ht, shapes_of_like hnodup hnodup' ts hts]

end

end Tree

/-! ## Outlines of texts that look alike -/

/-- Errors that are alike are met at the same index. -/
theorem idxOf_of_like {src src' : Text} {tokens tokens' : List Token}
    (hlex : Token.lex src = .ok tokens) (hlex' : Token.lex src' = .ok tokens')
    (h : tokens'.map (fun t => t.kind.seen) = tokens.map fun t => t.kind.seen) {e e' : ParseError}
    (hlike : e.Like (Token.atSameIndex h) e') (he : e.token ∈ tokens) (he' : e'.token ∈ tokens') :
    tokens'.idxOf e'.token = tokens.idxOf e.token := by
  have hstream := Token.stream_lex hlex
  have hstream' := Token.stream_lex hlex'
  rcases hlike.2 with ⟨i, hi, hi'⟩ | ⟨hend, hend', -⟩
  · exact (Token.idxOf_eq hstream'.nodup hi').trans (Token.idxOf_eq hstream.nodup hi).symm
  · -- Both errors are met at the end, which is the last token of either text.
    have hlength : tokens'.length = tokens.length := by simpa using congrArg List.length h
    have hlast := hstream.idxOf_eof he hend
    have hlast' := hstream'.idxOf_eof he' hend'
    omega

/-- The tokens of a text end with an `eof`. -/
theorem exists_eof {src : Text} {tokens : List Token} (h : Token.lex src = .ok tokens) :
    ∃ t ∈ tokens, t.kind = .eof := by
  obtain ⟨front, rfl, -⟩ := (Token.stream_lex h).eq_append_eof
  exact ⟨_, List.mem_append_right _ (List.mem_singleton.2 rfl), rfl⟩

/-- Parses of tokens that look alike have **the same outline**. -/
theorem outline_parse {src src' : Text} {tokens tokens' : List Token}
    (hlex : Token.lex src = .ok tokens) (hlex' : Token.lex src' = .ok tokens')
    (h : tokens'.map (fun t => t.kind.seen) = tokens.map fun t => t.kind.seen) :
    (Token.parse tokens').outline tokens' = (Token.parse tokens).outline tokens := by
  obtain ⟨hroot, herrors⟩ := Token.like_parse (Token.forall₂_atSameIndex h) trivial
  have hshape := Tree.shape_of_like h (Token.stream_lex hlex).nodup
    (Token.stream_lex hlex').nodup _ hroot
  have hmem := token_mem_of_error (exists_eof hlex)
  have hmem' := token_mem_of_error (exists_eof hlex')
  refine Prod.ext hshape ?_
  simp only [SyntaxTree.outline]
  generalize (Token.parse tokens).errors = errors at herrors hmem
  generalize (Token.parse tokens').errors = errors' at herrors hmem'
  induction herrors with
  | nil => rfl
  | @cons e e' es es' he _ ih =>
    have hindex := idxOf_of_like hlex hlex' h he (hmem e (List.mem_cons_self ..))
      (hmem' e' (List.mem_cons_self ..))
    rw [List.map_cons, List.map_cons, hindex, he.1]
    congr 1
    exact ih (fun e he => hmem e (List.mem_cons_of_mem _ he)) fun e he =>
      hmem' e (List.mem_cons_of_mem _ he)

/-! ## The case of letters -/

/-- The error with what was found in small letters. -/
def ParseError.lower (e : ParseError) : ParseError :=
  { e with found := e.found.lower }

/-- The tree with the texts of its tokens in small letters. All offsets stay. -/
def SyntaxTree.lower (tree : SyntaxTree) : SyntaxTree :=
  ⟨tree.root.relabel Token.lower, tree.errors.map ParseError.lower⟩

/-- Tokens correspond if they differ **in case** only, and so lie in the same place. -/
def Token.recasing : Likeness where
  token t t' := t'.lower = t.lower
  offset a a' := a' = a
  seen_eq := by
    intro t t' h
    have hkind := congrArg (fun t => t.kind.seen) h
    exact (t.kind.seen_lower.symm.trans hkind.symm).trans t'.kind.seen_lower
  start_like := by
    intro t t' h
    have hstart : t'.lower.start = t.lower.start := congrArg Token.start h
    exact hstart
  stop_like := by
    intro t t' h
    have hstop : t'.lower.stop = t.lower.stop := congrArg Token.stop h
    exact hstop
  ordered := Likeness.ordered_of_eq

namespace Tree

mutual

/-- Trees that are alike up to case are the same in lower case. -/
theorem relabel_of_like : (t : Tree) → {t' : Tree} → Like Token.recasing t t' →
    t'.relabel Token.lower = t.relabel Token.lower
  | .leaf t, t', hlike => by
    cases hlike with
    | leaf ht => rw [relabel, relabel, ht]
  | .node kind start stop children, t', hlike => by
    cases hlike with
    | node hstart hstop hchildren =>
      rw [relabel, relabel, hstart, hstop, relabelAll_of_like children hchildren]

/-- So are lists of them. -/
theorem relabelAll_of_like :
    (ts : List Tree) → {ts' : List Tree} → Forall₂ (Like Token.recasing) ts ts' →
    relabelAll Token.lower ts' = relabelAll Token.lower ts
  | [], ts', hlike => by
    cases hlike
    rfl
  | t :: ts, ts', hlike => by
    cases hlike with
    | cons ht hts => rw [relabelAll, relabelAll, relabel_of_like t ht, relabelAll_of_like ts hts]

end

end Tree

theorem lower_of_like {e e' : ParseError} (h : e.Like Token.recasing e') : e'.lower = e.lower := by
  obtain ⟨cause, found, start, stop⟩ := e
  obtain ⟨cause', found', start', stop'⟩ := e'
  obtain ⟨hcause, htoken | ⟨hfound, hfound', hstart, hstop⟩⟩ := h
  · have hkind : found'.lower = found.lower := congrArg Token.kind htoken
    have hstart : start' = start := congrArg Token.start htoken
    have hstop : stop' = stop := congrArg Token.stop htoken
    have hcause : cause = cause' := hcause
    simp only [ParseError.lower, hkind, hstart, hstop, hcause]
  · simp_all [ParseError.lower, Token.recasing]

/-- Tokens that are the same in lower case have trees that are the same in lower case. -/
theorem lower_parse {tokens tokens' : List Token}
    (h : tokens'.map Token.lower = tokens.map Token.lower) :
    (Token.parse tokens').lower = (Token.parse tokens).lower := by
  have hlike : Forall₂ Token.recasing.token tokens tokens' := by
    have hmap : Forall₂ (fun t u => u.lower = t) (tokens.map Token.lower) tokens' := by
      rw [← h]
      exact List.forall₂_map_left_iff.2 (List.forall₂_same.2 fun _ _ => rfl)
    exact (List.forall₂_map_left_iff (f := Token.lower)).1 hmap
  obtain ⟨hroot, herrors⟩ := Token.like_parse hlike rfl
  rw [SyntaxTree.lower, SyntaxTree.lower, Tree.relabel_of_like _ hroot]
  congr 1
  generalize (Token.parse tokens).errors = errors at herrors
  generalize (Token.parse tokens').errors = errors' at herrors
  induction herrors with
  | nil => rfl
  | cons he _ ih => rw [List.map_cons, List.map_cons, lower_of_like he, ih]

/-- **The grammar sees kinds, not layout and not case.** The leaves of a tree and its errors lie at
tokens of the text. Another text whose tokens look alike, one by one, has a tree of the same
outline; and a text that differs in the case of ASCII letters only has the same tree, offsets and
all, but for the case of letters in its tokens. -/
theorem outline_of_alike {src : Text} {tokens : List Token} (h : Token.lex src = .ok tokens) :
    ∃ tree, SyntaxTree.ofText src = .ok tree ∧ (∀ t ∈ tree.root.leaves, t ∈ tokens)
      ∧ (∀ e ∈ tree.errors, e.token ∈ tokens)
      ∧ (∀ src' tokens', Token.lex src' = .ok tokens' →
          (tokens'.map fun t => t.kind.seen) = (tokens.map fun t => t.kind.seen) →
          ∃ tree', SyntaxTree.ofText src' = .ok tree' ∧ tree'.outline tokens' = tree.outline tokens)
      ∧ ∀ src', Text.lower src' = Text.lower src →
          ∃ tokens' tree', Token.lex src' = .ok tokens' ∧ SyntaxTree.ofText src' = .ok tree'
            ∧ tree'.outline tokens' = tree.outline tokens ∧ tree'.lower = tree.lower := by
  refine ⟨Token.parse tokens, ofText_eq h, ?_, token_mem_of_error (exists_eof h), ?_, ?_⟩
  · intro t ht
    rw [← (leaves_append_rest tokens).1]
    exact List.mem_append_left _ ht
  · intro src' tokens' h' hseen
    exact ⟨Token.parse tokens', ofText_eq h', outline_parse h h' hseen⟩
  · intro src' hcase
    obtain ⟨tokens', h', hlower⟩ := Token.lex_recased hcase h
    -- Tokens in other letters look alike, so the outlines agree as before.
    have hseen : (tokens'.map fun t => t.kind.seen) = tokens.map fun t => t.kind.seen := by
      have hkinds := congrArg (List.map fun t => t.kind.seen) hlower
      rw [List.map_map, List.map_map] at hkinds
      have hsame : (fun t : Token => t.kind.seen) ∘ Token.lower = fun t => t.kind.seen :=
        funext fun t => t.kind.seen_lower
      rwa [hsame] at hkinds
    exact ⟨tokens', Token.parse tokens', h', ofText_eq h', outline_parse h h' hseen,
      lower_parse hlower⟩

/-- A member that cannot be read, in another layout and with another literal,
and in other letters. -/
theorem outline_of_alike_member :
    ∃ tokens tokens' tree, Token.lex "type T=class strict private 1 end".toList = .ok tokens
      ∧ Token.lex "TYPE t=(*=*)Class STRICT\nPrivate 23 END".toList = .ok tokens'
      ∧ (tokens'.map fun t => t.kind.seen) = (tokens.map fun t => t.kind.seen)
      ∧ SyntaxTree.ofText "type T=class strict private 1 end".toList = .ok tree
      ∧ (∃ tree', SyntaxTree.ofText "TYPE t=(*=*)Class STRICT\nPrivate 23 END".toList = .ok tree'
        ∧ tree'.outline tokens' = tree.outline tokens)
      ∧ ∃ tree', SyntaxTree.ofText "TYPE t=Class STRICT private 1 End".toList = .ok tree'
        ∧ tree'.lower = tree.lower := by
  have h : Token.lex "type T=class strict private 1 end".toList
      = .ok [⟨.keyword .kwType, 0, 4⟩, ⟨.ident ['T'], 5, 6⟩, ⟨.symbol .eq, 6, 7⟩,
        ⟨.keyword .kwClass, 7, 12⟩, ⟨.ident "strict".toList, 13, 19⟩,
        ⟨.ident "private".toList, 20, 27⟩, ⟨.number ['1'], 28, 29⟩, ⟨.keyword .kwEnd, 30, 33⟩,
        ⟨.eof, 33, 33⟩] := by
    with_unfolding_all rfl
  have h' : Token.lex "TYPE t=(*=*)Class STRICT\nPrivate 23 END".toList
      = .ok [⟨.keyword .kwType, 0, 4⟩, ⟨.ident ['t'], 5, 6⟩, ⟨.symbol .eq, 6, 7⟩,
        ⟨.keyword .kwClass, 12, 17⟩, ⟨.ident "STRICT".toList, 18, 24⟩,
        ⟨.ident "Private".toList, 25, 32⟩, ⟨.number ['2', '3'], 33, 35⟩, ⟨.keyword .kwEnd, 36, 39⟩,
        ⟨.eof, 39, 39⟩] := by
    with_unfolding_all rfl
  obtain ⟨tree, htree, -, -, houtline, hcase⟩ := outline_of_alike h
  obtain ⟨-, tree', -, htree', -, hlower⟩ :=
    hcase "TYPE t=Class STRICT private 1 End".toList (by decide)
  exact ⟨_, _, tree, h, h', by decide, htree, houtline _ _ h' (by decide), tree', htree', hlower⟩

end PascalAtlas
