import PascalAtlas.Proofs.ParamList
import PascalAtlas.Proofs.Parsed

/-!
# What is read from pieces

A unit is built from a tree node by node: of each node, the children of some kind are looked at,
and texts are cut from the source. So what is read from a piece is a list with one entry for each
of its nodes of that kind (`Piece.Tells`), and pieces one after the other tell their lists one
after the other. It does not matter where the piece stands, as long as its text **stands there in
the source** (`Text.StandsAt`).

What the pieces of a blueprint tell is what was written down: headings (`Routine.heading_eq`),
bodies (`Routine.tells_piece`) and classes (`Class.tells_piece`). Extents and statements are left
out, since a blueprint has none.
-/

namespace PascalAtlas

/-! ## Texts in their place -/

namespace Text

/-- A text **stands in a source** at a byte. -/
def StandsAt (src : Text) (n : Nat) (t : Text) : Prop :=
  ∃ front back, src = front ++ t ++ back ∧ size front = n

variable {src a b t : Text} {n : Nat}

/-- Where two texts stand, the first one stands. -/
theorem StandsAt.left (h : src.StandsAt n (a ++ b)) : src.StandsAt n a := by
  obtain ⟨front, back, rfl, hsize⟩ := h
  exact ⟨front, b ++ back, by simp, hsize⟩

/-- Behind the first text stands the second. -/
theorem StandsAt.right (h : src.StandsAt n (a ++ b)) : src.StandsAt (n + size a) b := by
  obtain ⟨front, back, rfl, rfl⟩ := h
  exact ⟨front ++ a, back, by simp, size_append _ _⟩

/-- It can be cut out there. -/
theorem StandsAt.slice?_eq (h : src.StandsAt n t) : slice? src n (n + size t) = some t := by
  obtain ⟨front, back, rfl, rfl⟩ := h
  rw [← size_append]
  exact slice?_three_parts front t back

end Text

/-! ## Reading a piece -/

/-- What is read from a tree if it is a node of a kind. -/
def Source.found {α : Type} (kind : NodeKind) (f : Source → Tree → α) (s : Source) (t : Tree) :
    List α :=
  if t.kind? == some kind then [f s t] else []

namespace Piece

variable {α : Type} {kind : NodeKind} {f : Source → Tree → α} {p q : Piece} {xs ys : List α}

/-- **What is read from a piece**, wherever it stands: from each of its nodes
of a kind one thing. -/
def Tells (kind : NodeKind) (f : Source → Tree → α) (xs : List α) (p : Piece) : Prop :=
  ∀ (s : Source) n, s.text.StandsAt n p.text → (p.trees n).flatMap (s.found kind f) = xs

theorem tells_blank (t : Text) : (blank t).Tells kind f [] := fun _ _ _ => rfl

theorem tells_token (k : TokenKind) (spelling : Text) :
    (token k spelling).Tells kind f [] := fun _ _ _ => rfl

/-- A piece without nodes tells nothing. -/
theorem Flat.tells {ok : TokenKind → Prop} (hp : p.Flat ok) : p.Tells kind f [] := by
  intro s n _
  rw [(hp n).1, List.flatMap_map]
  exact List.flatMap_eq_nil_iff.2 fun _ _ => rfl

/-- Pieces one after the other tell their lists **one after the other**. -/
theorem Tells.append (hp : p.Tells kind f xs) (hq : q.Tells kind f ys) :
    (p.append q).Tells kind f (xs ++ ys) := by
  intro s n h
  rw [trees_append, List.flatMap_append, hp s n h.left, hq s (n + p.size) h.right]

theorem Tells.spaced (hp : p.Tells kind f xs) : p.spaced.Tells kind f xs :=
  (tells_blank _).append hp

/-- So do all pieces of a list. -/
theorem tells_concat {β : Type} {g : β → Piece} {v : β → List α} (bs : List β)
    (h : ∀ b ∈ bs, (g b).Tells kind f (v b)) : (concat (bs.map g)).Tells kind f (bs.flatMap v) := by
  induction bs with
  | nil => exact tells_blank _
  | cons b bs ih => exact (h b (by simp)).append (ih fun c hc => h c (by simp [hc]))

/-- A node of the kind tells what is read from it. -/
theorem tells_node {x : α}
    (h : ∀ s n, s.text.StandsAt n p.text → f s (.node kind n (n + p.size) (p.trees n)) = x) :
    (node kind p).Tells kind f [x] := by
  intro s n hs
  show s.found kind f _ ++ [] = _
  rw [List.append_nil, Source.found, Tree.kind?, if_pos (by simp), h s n hs]

/-- The text of a node is the text of the piece in it. -/
theorem text_node {s : Source} {n : Nat} (h : s.text.StandsAt n p.text) (F : List Tree) :
    (Tree.node kind n (n + p.size) F).text s.text = p.text := by
  show (Text.slice? s.text n (n + Text.size p.text)).getD [] = _
  rw [h.slice?_eq]
  rfl

/-- A node of another kind tells nothing. -/
theorem tells_other {k : NodeKind} (hk : (k == kind) = false) : (node k p).Tells kind f [] := by
  intro s n _
  show s.found kind f _ ++ [] = _
  rw [List.append_nil, Source.found, Tree.kind?, if_neg]
  simpa using hk

end Piece

namespace Tree

variable {α : Type}

/-- The tokens among the trees of a flat piece. -/
theorem filterMap_token? {ok : TokenKind → Prop} {p : Piece} (hp : p.Flat ok) (n : Nat) :
    (p.trees n).filterMap token? = p.tokens n := by
  rw [(hp n).1, List.filterMap_map]
  exact List.filterMap_some

/-- The last token is in the last tree. -/
theorem lastTokenOf?_concat (F : List Tree) (t : Tree) :
    lastTokenOf? (F ++ [t]) = t.lastToken? := by
  induction F with
  | nil => rw [List.nil_append, lastTokenOf?]
  | cons u F ih =>
    obtain ⟨v, G, hG⟩ : ∃ v G, F ++ [t] = v :: G := List.exists_cons_of_ne_nil (by simp)
    rw [hG] at ih
    rw [List.cons_append, hG, lastTokenOf?, ih]

/-- The nodes of a kind among the children of a tree. -/
theorem map_nodes (kind : NodeKind) (f : Source → Tree → α) (s : Source) (t : Tree) :
    (t.nodes.filter fun c => c.kind? == some kind).map (f s)
      = t.children.flatMap (s.found kind f) := by
  rw [nodes, List.filter_filter]
  induction t.children with
  | nil => rfl
  | cons c cs ih =>
    rw [List.filter_cons, List.flatMap_cons, ← ih, Source.found]
    cases hkind : c.kind? == some kind with
    | true =>
      have hsome : c.kind?.isSome = true := by rw [beq_iff_eq.1 hkind]; rfl
      simp [hsome]
    | false => simp

/-- The first of them. -/
theorem map_child? (kind : NodeKind) (f : Source → Tree → α) (s : Source) (t : Tree) :
    (t.child? kind).map (f s) = (t.children.flatMap (s.found kind f)).head? := by
  rw [← map_nodes, List.head?_map, child?, List.head?_filter]

end Tree

/-! ## Plain names in texts -/

namespace Text

/-- So does squeezing. -/
theorem squeeze_eq_of_not_blank {t : Text} (h : ∀ c ∈ t, isBlank c = false) : squeeze t = t := by
  rw [squeeze, words, splitBy_eq_self h]
  cases t <;> rfl

end Text

namespace PlainName

/-- A name has only characters of identifiers. -/
theorem isIdentChar_of_mem (x : PlainName) {c : Char} (hc : c ∈ x.text) :
    Text.isIdentChar c = true := by
  obtain ⟨d, ds, htext, hd, hds⟩ := x.exists_cons
  rw [htext] at hc
  obtain rfl | hc := List.mem_cons.1 hc
  · exact Token.isIdentChar_of_isIdentStart c hd
  · exact hds c hc

theorem not_blank (x : PlainName) : ∀ c ∈ x.text, Text.isBlank c = false :=
  fun _ hc => Text.isBlank_of_isIdentChar (x.isIdentChar_of_mem hc)

theorem ne_nil (x : PlainName) : x.text ≠ [] := by
  obtain ⟨c, cs, htext, -⟩ := x.exists_cons
  rw [htext]
  exact List.cons_ne_nil _ _

/-- No sign stands in a name. -/
theorem ne_of_mem (x : PlainName) {c d : Char} (hc : c ∈ x.text) (hd : Text.isIdentChar d = false) :
    c ≠ d := by
  rintro rfl
  rw [x.isIdentChar_of_mem hc] at hd
  cases hd

end PlainName

namespace DottedName

/-- The kinds of the tokens of a dotted name. -/
def Inside (k : TokenKind) : Prop :=
  k = .symbol .dot ∨ ∃ name, k = .ident name

theorem flat_parts (xs : List PlainName) : (parts xs).Flat Inside := by
  refine Piece.flat_concat fun p hp => ?_
  obtain ⟨x, -, rfl⟩ := List.mem_map.1 hp
  exact (Piece.flat_token (.inl rfl) _).append
    ((Piece.flat_token (.inr ⟨_, rfl⟩) _).append (Piece.flat_blank _))

/-- A name with dots is made of tokens. -/
theorem flat_piece (d : DottedName) : d.piece.Flat Inside :=
  (Piece.flat_token (.inr ⟨_, rfl⟩) _).append (flat_parts d.others)

/-- The parts of the name of a routine are read one by one. -/
theorem nameParts_parts (xs : List PlainName) (n : Nat) (rest : List Token) :
    Source.nameParts 0 false ((parts xs).tokens n ++ rest)
      = xs.map PlainName.text ++ Source.nameParts 0 false rest := by
  induction xs generalizing n with
  | nil => rfl
  | cons x xs ih =>
    rw [parts, List.map_cons, Piece.concat, Piece.tokens_append, List.append_assoc, List.map_cons,
      List.cons_append, ← ih]
    rfl

/-- The characters of a dotted name are read with the dots between its parts. -/
theorem dottedChars_parts (xs : List PlainName) (n : Nat) (rest : List Token) :
    Source.dottedChars false ((parts xs).tokens n ++ rest)
      = (xs.flatMap fun x => '.' :: x.text) ++ Source.dottedChars false rest := by
  induction xs generalizing n with
  | nil => rfl
  | cons x xs ih =>
    rw [parts, List.map_cons, Piece.concat, Piece.tokens_append, List.append_assoc,
      List.flatMap_cons, List.append_assoc, ← ih]
    rfl

/-- A dotted name ends with a plain name. -/
theorem exists_last (d : DottedName) :
    ∃ (front : Text) (x : PlainName), d.text = front ++ x.text := by
  obtain ⟨first, others⟩ := d
  obtain rfl | ⟨front, last, rfl⟩ := List.eq_nil_or_concat others
  · exact ⟨[], first, List.append_nil _⟩
  · refine ⟨first.text ++ (front.flatMap fun x => '.' :: x.text) ++ ['.'], last, ?_⟩
    simp [text]

/-- A name with dots ends where no dot follows. -/
theorem dottedChars_end {rest : List Token} (hrest : headKind rest ≠ .symbol .dot) :
    Source.dottedChars false rest = [] := by
  cases rest with
  | nil => rfl
  | cons t ts =>
    have hkind : t.kind ≠ .symbol .dot := hrest
    unfold Source.dottedChars
    split
    next htrue => cases htrue
    next hdot _ => exact absurd hdot hkind
    next => rfl

/-- **A dotted name is read back** from its tokens, if what follows does not go on with it. -/
theorem dottedName_piece (d : DottedName) (n : Nat) {rest : List Token}
    (hrest : headKind rest ≠ .symbol .dot) :
    Source.dottedName (d.piece.tokens n ++ rest) = d.text := by
  have hchars : Source.dottedChars true (d.piece.tokens n ++ rest) = d.text := by
    show d.first.text ++ Source.dottedChars false
      ((parts d.others).tokens (n + d.first.piece.size) ++ rest) = _
    rw [dottedChars_parts, dottedChars_end hrest, List.append_nil]
    rfl
  obtain ⟨front, x, hlast⟩ := d.exists_last
  have hundotted : d.text.reverse.dropWhile (· == '.') = d.text.reverse := by
    rw [hlast, List.reverse_append]
    cases hrev : x.text.reverse with
    | nil => exact absurd (List.reverse_eq_nil_iff.1 hrev) x.ne_nil
    | cons c cs =>
      have hc : c ∈ x.text := by
        rw [← List.mem_reverse, hrev]
        exact List.mem_cons_self
      refine List.dropWhile_cons_of_neg ?_
      simpa using x.ne_of_mem hc (by decide)
  rw [Source.dottedName, hchars, hundotted, List.reverse_reverse]

end DottedName

namespace Blueprint

/-! ## Headings -/

/-- A type tells its name. -/
theorem tells_typePiece (type : PlainName) :
    (typePiece type).Tells .typeRef (fun s t => Text.squeeze (t.text s.text)) [type.text] := by
  refine Piece.tells_node fun s n h => ?_
  rw [Piece.text_node h]
  exact Text.squeeze_eq_of_not_blank type.not_blank

/-- The type of a declaration is the first one that is told. -/
theorem typeText_eq (s : Source) (decl : Tree) :
    s.typeText decl = (decl.children.flatMap
      (s.found .typeRef fun s t => Text.squeeze (t.text s.text))).head?.getD [] := by
  rw [← Tree.map_child? .typeRef (fun s t => Text.squeeze (t.text s.text)), Source.typeText]
  cases decl.child? .typeRef <;> rfl

/-- The parameters of a blueprint are written in the canonical way. -/
theorem Parameter.canonical (p : Parameter) : p.param.Canonical := by
  have hsign {x : PlainName} {c : Char} (hc : c ∈ x.text) : c ≠ ';' ∧ c ≠ ':' ∧ c ≠ ',' ∧ c ≠ '=' :=
    ⟨x.ne_of_mem hc (by decide), x.ne_of_mem hc (by decide), x.ne_of_mem hc (by decide),
      x.ne_of_mem hc (by decide)⟩
  have htype : ∀ c ∈ p.param.typeName, ∃ x : PlainName, c ∈ x.text := by
    intro c hc
    obtain ⟨name, _ | type⟩ := p
    · cases hc
    · exact ⟨type, hc⟩
  refine ⟨p.name.ne_nil, Text.trim_eq_of_not_blank p.name.not_blank, fun c hc => ?_,
    fun front c back hname hc => ?_, Text.trim_eq_of_not_blank fun c hc => ?_, fun c hc => ?_⟩
  · exact ⟨(hsign hc).1, (hsign hc).2.1, (hsign hc).2.2.1⟩
  · have hblank := p.name.not_blank c (by rw [show p.name.text = _ from hname]; simp)
    rw [hc] at hblank
    cases hblank
  · obtain ⟨x, hx⟩ := htype c hc
    exact x.not_blank c hx
  · obtain ⟨x, hx⟩ := htype c hc
    exact ⟨(hsign hx).1, (hsign hx).2.2.2⟩

/-- The text between the brackets of a parameter list. -/
def insideBrackets (t : Text) : Text :=
  let t := Text.trim t
  let t := (Text.dropPrefix? ['('] t).getD t
  (Text.dropSuffix? [')'] t).getD t

/-- Between brackets is what was put there. -/
theorem insideBrackets_eq (t : Text) : insideBrackets ('(' :: t ++ [')']) = t := by
  have htrim : Text.trim ('(' :: t ++ [')']) = '(' :: t ++ [')'] := by
    refine Text.trim_eq_self (fun c hc => ?_) fun c hc => ?_
    · obtain rfl : '(' = c := Option.some.inj hc
      rfl
    · rw [List.getLast?_concat] at hc
      obtain rfl : ')' = c := Option.some.inj hc
      rfl
  have hsuffix : Text.dropSuffix? [')'] (t ++ [')']) = some t := by
    rw [Text.dropSuffix?, List.reverse_append]
    show some t.reverse.reverse = _
    rw [List.reverse_reverse]
  rw [insideBrackets, htrim]
  show (Text.dropSuffix? [')'] (t ++ [')'])).getD _ = t
  rw [hsuffix]
  rfl

/-- The parameters of a heading are the first ones that are told. -/
theorem paramsText_eq (s : Source) (heading : Tree) :
    s.paramsText heading = (heading.children.flatMap
      (s.found .formalParams fun s t => insideBrackets (t.text s.text))).head?.getD [] := by
  rw [← Tree.map_child? .formalParams (fun s t => insideBrackets (t.text s.text)),
    Source.paramsText]
  cases heading.child? .formalParams <;> rfl

/-- Parameters tell their text. -/
theorem Routine.tells_paramsPiece (r : Routine) :
    r.paramsPiece.Tells .formalParams (fun s t => insideBrackets (t.text s.text))
      [Param.renderList (r.parameters.map Parameter.param)] := by
  refine Piece.tells_node fun s n h => ?_
  rw [Piece.text_node h, ← text_parameterList]
  exact insideBrackets_eq _

/-- Of the parts of a heading, only the parameters and the result are more than tokens. -/
theorem Routine.tells_headingParts {α : Type} {kind : NodeKind} {f : Source → Tree → α}
    {xs ys : List α} (owner : Option PlainName) (r : Routine)
    (hparams : r.paramsPiece.Tells kind f xs)
    (hresult : (resultPiece r.form.result?).Tells kind f ys) :
    (r.headingParts owner).Tells kind f (xs ++ ys) := by
  have hlast := hresult.append
    ((Piece.tells_token (.symbol .semi) Symbol.semi.spelling.toList).append (Piece.tells_blank []))
  rw [List.append_nil, List.append_nil] at hlast
  exact (Piece.tells_token _ _).append ((Piece.tells_token _ _).spaced.append
    ((DottedName.flat_parts _).tells.append (hparams.append hlast)))

/-- The type in a heading is the **result**, if there is one. -/
theorem Routine.typeText_heading (owner : Option PlainName) (r : Routine) {s : Source} {n m : Nat}
    (h : s.text.StandsAt n (r.headingParts owner).text) :
    s.typeText (.node .routineHeading n m ((r.headingParts owner).trees n))
      = (r.form.result?.map PlainName.text).getD [] := by
  have hresult : (resultPiece r.form.result?).Tells .typeRef
      (fun s t => Text.squeeze (t.text s.text))
      (r.form.result?.map PlainName.text).toList := by
    cases r.form.result? with
    | none => exact Piece.tells_blank _
    | some type =>
      exact (Piece.tells_token _ _).append
        ((tells_typePiece type).spaced.append (Piece.tells_blank _))
  have htells := r.tells_headingParts owner (Piece.tells_other (by decide)) hresult
  rw [typeText_eq, Tree.children, htells s n h]
  cases r.form.result? <;> rfl

/-- The parameters in a heading are **those of the routine**. -/
theorem Routine.paramsText_heading (owner : Option PlainName) (r : Routine) {s : Source} {n m : Nat}
    (h : s.text.StandsAt n (r.headingParts owner).text) :
    s.paramsText (.node .routineHeading n m ((r.headingParts owner).trees n))
      = Param.renderList (r.parameters.map Parameter.param) := by
  have hresult : (resultPiece r.form.result?).Tells .formalParams
      (fun s t => insideBrackets (t.text s.text)) [] := by
    cases r.form.result? with
    | none => exact Piece.tells_blank _
    | some type =>
      exact (Piece.tells_token _ _).append
        ((Piece.tells_other (by decide)).spaced.append (Piece.tells_blank _))
  have htells := r.tells_headingParts owner r.tells_paramsPiece hresult
  rw [paramsText_eq, Tree.children, htells s n h]
  rfl

/-- The tokens of a heading are its word, the parts of its name, and signs. -/
theorem Routine.nameParts_heading (owner : Option PlainName) (r : Routine) (n m : Nat) :
    ∃ t ts, (Tree.node .routineHeading n m ((r.headingParts owner).trees n)).tokens = t :: ts
      ∧ t.kind = .keyword r.form.keyword
      ∧ Source.nameParts 0 true ts
        = (r.fullName owner).first.text :: (r.fullName owner).others.map PlainName.text := by
  simp only [Tree.tokens, Tree.children, headingParts, Piece.concat, Piece.trees_append,
    List.filterMap_append, Tree.filterMap_token? (DottedName.flat_parts _)]
  refine ⟨_, _, rfl, rfl, ?_⟩
  show _ :: Source.nameParts 0 false ((DottedName.parts _).tokens _ ++ _) = _
  rw [DottedName.nameParts_parts]
  -- Behind the name stands a colon or the last sign, and no name goes on with either.
  cases r.form.result? <;> exact congrArg (_ :: ·) (List.append_nil _)

/-- **A heading is read back** from the texts of its parts. -/
theorem Routine.heading_declared (r : Routine) :
    PascalAtlas.Routine.heading r.name.text r.form.kind
      (Param.renderList (r.parameters.map Parameter.param))
      ((r.form.result?.map PlainName.text).getD []) = r.declared := by
  have htype : Text.trim ((r.form.result?.map PlainName.text).getD [])
      = (r.form.result?.map PlainName.text).getD [] := by
    cases r.form.result? with
    | none => rfl
    | some type => exact Text.trim_eq_of_not_blank type.not_blank
  have hparams : Param.parseList (Param.renderList (r.parameters.map Parameter.param))
      = r.parameters.map Parameter.param := by
    refine Param.parseList_renderList fun p hp => ?_
    obtain ⟨p, -, rfl⟩ := List.mem_map.1 hp
    exact p.canonical
  rw [PascalAtlas.Routine.heading, hparams, htype]
  rfl

/-- **A heading is read back**: the class that owns the routine, and the routine without a body. -/
theorem Routine.heading_eq (owner : Option PlainName) (r : Routine) {s : Source} {n m : Nat}
    (h : s.text.StandsAt n (r.headingParts owner).text) :
    s.heading (.node .routineHeading n m ((r.headingParts owner).trees n))
      = (owner.map PlainName.text, r.declared) := by
  obtain ⟨t, ts, htokens, hkind, hparts⟩ := r.nameParts_heading owner n m
  have hword : (t :: ts).dropWhile (fun t => t.kind == .keyword .kwClass) = t :: ts := by
    refine List.dropWhile_cons_of_neg ?_
    rw [hkind]
    cases r.form <;> exact Bool.false_ne_true
  have hroutine : Source.routineKind ((t :: ts).head?.map Token.kind) = r.form.kind := by
    rw [List.head?_cons, Option.map_some, hkind]
    cases r.form <;> rfl
  rw [Source.heading, htokens, hword, hroutine, List.tail_cons, hparts,
    r.paramsText_heading owner h, r.typeText_heading owner h]
  cases owner <;> exact congrArg _ r.heading_declared

/-! ## Routines -/

/-- A routine with the class that owns it, as far as the bare unit has it. -/
def routineOf (s : Source) (decl : Tree) : Option (Option Text × PascalAtlas.Routine) :=
  (s.routine? decl).map fun x => (x.1, x.2.bare)

/-- The routine that a node with a heading declares. -/
theorem routineOf_eq (owner : Option PlainName) (r : Routine) {s : Source} {n m start stop : Nat}
    {others : List Tree} (h : s.text.StandsAt n (r.headingParts owner).text) :
    routineOf s (.node .routineDecl start stop
        (.node .routineHeading n m ((r.headingParts owner).trees n) :: others))
      = match (Tree.node .routineDecl start stop others).child? .compound with
        | some block =>
          some (owner.map PlainName.text, (r.declared.withBody (s.innerText block) []).bare)
        | none =>
          match ((Tree.node .routineDecl start stop others).child? .simple).filter
              Source.isAssembler with
          | some block =>
            some (owner.map PlainName.text, (r.declared.withBody (s.innerText block) []).bare)
          | none => some (owner.map PlainName.text, r.declared) := by
  have hname : ¬ r.name.text.isEmpty = true := by simpa using r.name.ne_nil
  have hchild :
      (Tree.node .routineDecl start stop
        (.node .routineHeading n m ((r.headingParts owner).trees n) :: others)).child?
        .routineHeading = some (.node .routineHeading n m ((r.headingParts owner).trees n)) :=
    rfl
  rw [routineOf, Source.routine?, hchild, Option.bind_some, r.heading_eq owner h]
  show Option.map _ (if r.name.text.isEmpty then none else _) = _
  rw [if_neg hname]
  show Option.map _ (match (Tree.node .routineDecl start stop others).child? .compound with
    | some block => _
    | none =>
      match ((Tree.node .routineDecl start stop others).child? .simple).filter
          Source.isAssembler with
      | some block => _
      | none => _) = _
  cases (Tree.node .routineDecl start stop others).child? .compound with
  | some block => rfl
  | none =>
    cases ((Tree.node .routineDecl start stop others).child? .simple).filter Source.isAssembler
      <;> rfl

/-- A heading by itself tells a routine without a body. -/
theorem Routine.tells_declaredPiece (r : Routine) :
    r.declaredPiece.Tells .routineDecl routineOf [some (none, r.declared)] := by
  refine Piece.tells_node fun s n h => ?_
  exact routineOf_eq none r h

/-- **The body of a routine is read back**, with the line breaks around it. -/
theorem innerText_block {body : Text} {s : Source} {n stop : Nat}
    (h : s.text.StandsAt n (Text.inBlock body)) (F : List Tree) :
    s.innerText (.node .compound n stop
        (.leaf (Text.beginAt n) :: (F ++ [.leaf (Text.endAt body n)])))
      = '\n' :: body ++ ['\n'] := by
  -- The text between the two words is the body with its line breaks.
  have hinside : s.text.StandsAt (n + 5) ('\n' :: body ++ ['\n']) := by
    have hparts : Text.inBlock body
        = "begin".toList ++ (('\n' :: body ++ ['\n']) ++ "end".toList) := by
      show "begin\n".toList ++ body ++ "\nend".toList = _
      simp only [List.append_assoc, List.cons_append]
      rfl
    rw [hparts] at h
    exact h.right.left
  have hsize : Text.size ('\n' :: body ++ ['\n']) = Text.size body + 2 := by
    rw [List.cons_append]
    show 1 + Text.size (body ++ ['\n']) = _
    rw [Text.size_append]
    show 1 + (Text.size body + 1) = _
    omega
  have hfirst : (Tree.node .compound n stop
        (.leaf (Text.beginAt n) :: (F ++ [.leaf (Text.endAt body n)]))).firstToken?
      = some (Text.beginAt n) := by
    rw [Tree.firstToken?, Tree.firstTokenOf?, Tree.firstToken?]
  have hlast : (Tree.node .compound n stop
        (.leaf (Text.beginAt n) :: (F ++ [.leaf (Text.endAt body n)]))).lastToken?
      = some (Text.endAt body n) := by
    rw [Tree.lastToken?, ← List.cons_append, Tree.lastTokenOf?_concat, Tree.lastToken?]
  have hstop : max (n + Text.size body + 7) (n + 5)
      = n + 5 + Text.size ('\n' :: body ++ ['\n']) := by
    rw [hsize]
    omega
  rw [Source.innerText, hfirst, hlast]
  show (Text.slice? s.text (n + 5) (max (n + Text.size body + 7) (n + 5))).getD [] = _
  rw [hstop, hinside.slice?_eq]
  rfl

/-- An implementation tells **the routine with its body**, and its class. -/
theorem Routine.tells_piece (owner : Option PlainName) (r : Routine) :
    (r.piece owner).Tells .routineDecl routineOf [some (owner.map PlainName.text, r.routine)] := by
  refine Piece.tells_node fun s n h => ?_
  obtain ⟨-, F, -, htrees⟩ := r.trees_blockPiece (n + (r.headingPiece owner).size + 1)
  have hblock : s.text.StandsAt (n + (r.headingPiece owner).size + 1) (Text.inBlock r.body) := by
    have hstands := h.right.left.right (a := [' '])
    rwa [r.text_blockPiece] at hstands
  have hchildren : (Piece.concat [r.headingPiece owner, r.blockPiece.spaced, .symbol .semi]).trees n
      = .node .routineHeading n (n + (r.headingParts owner).size) ((r.headingParts owner).trees n)
        :: (r.blockPiece.trees (n + (r.headingPiece owner).size + 1) ++ [.leaf _]) := rfl
  rw [hchildren, htrees, routineOf_eq owner r h.left]
  show some (_, (r.declared.withBody (s.innerText _) []).bare) = _
  have htrim : Text.trim ('\n' :: r.body ++ ['\n']) = Text.trim r.body := by
    rw [Text.trim_concat_blank (by decide), Text.trim_cons_blank (by decide)]
  rw [innerText_block hblock, PascalAtlas.Routine.withBody, htrim]
  rfl

/-! ## Classes -/

/-- The fields of a declaration, as far as the bare unit has them. -/
def fieldsOf (s : Source) (decl : Tree) : List FieldDecl :=
  (s.fields decl).map FieldDecl.bare

/-- The heading of a method, as far as the bare unit has it. -/
def methodOf (s : Source) (m : Tree) : PascalAtlas.Routine :=
  ((s.heading m).2.withExtent (s.extentOf m)).bare

/-- A class, as far as the bare unit has it. -/
def classOf (s : Source) (decl : Tree) : Option ClassDecl :=
  (s.class? decl).map ClassDecl.bare

/-- The dotted name behind the first token. -/
def nameOf (_ : Source) (t : Tree) : Text :=
  Source.dottedName (t.tokens.drop 1)

/-- A class before its methods have bodies. -/
def Class.declared (c : Class) : ClassDecl :=
  { c.classDecl with methods := c.methods.map Routine.declared }

/-- A field tells its name and its type. -/
theorem Field.tells_piece (f : Field) :
    f.piece.Tells .fieldDecl fieldsOf [[{ name := f.name.text, typeName := f.type.text }]] := by
  refine Piece.tells_node fun s n h => ?_
  have htells : (Piece.concat [f.name.piece, .symbol .colon, (typePiece f.type).spaced,
        .symbol .semi]).Tells .typeRef
      (fun s t => Text.squeeze (t.text s.text)) [f.type.text] :=
    (Piece.tells_token _ _).append
      ((Piece.tells_token _ _).append ((tells_typePiece f.type).spaced.append
        ((Piece.tells_token _ _).append (Piece.tells_blank _))))
  have htype := typeText_eq s (.node .fieldDecl n (n + (Piece.concat [f.name.piece, .symbol .colon,
    (typePiece f.type).spaced, .symbol .semi]).size) ((Piece.concat [f.name.piece, .symbol .colon,
    (typePiece f.type).spaced, .symbol .semi]).trees n))
  rw [Tree.children, htells s n h] at htype
  rw [fieldsOf, Source.fields, htype]
  rfl

/-- A method tells its heading. -/
theorem Routine.tells_method (r : Routine) :
    (r.headingPiece none).Tells .routineHeading methodOf [r.declared] := by
  refine Piece.tells_node fun s n h => ?_
  rw [methodOf, r.heading_eq none h]
  rfl

/-- The ancestor tells its name. -/
theorem tells_heritagePiece (ancestor : Option PlainName) :
    (heritagePiece ancestor).Tells .heritage nameOf (ancestor.map PlainName.text).toList := by
  cases ancestor with
  | none => exact Piece.tells_blank _
  | some a =>
    refine Piece.tells_node fun s n _ => ?_
    refine (DottedName.dottedName_piece ⟨a, []⟩ (n + 1)
        (?_ : headKind [⟨.symbol .rParen, _, _⟩] ≠ _)).trans
      (List.append_nil _)
    simp [headKind]

/-- A class tells what its ancestor, its fields and its methods tell. -/
theorem Class.tells_bodyParts {α : Type} {kind : NodeKind} {f : Source → Tree → α} {xs : List α}
    {v : Field → List α} {w : Routine → List α} (c : Class)
    (hheritage : (heritagePiece c.ancestor).Tells kind f xs)
    (hfield : ∀ d : Field, d.piece.Tells kind f (v d))
    (hmethod : ∀ r : Routine, (r.headingPiece none).Tells kind f (w r)) :
    c.bodyParts.Tells kind f (xs ++ (c.fields.flatMap v ++ c.methods.flatMap w)) := by
  have hmember (m : Member) : (Member.piece m).spaced.Tells kind f (m.elim v w) := by
    cases m with
    | inl d => exact (hfield d).spaced
    | inr r => exact (hmethod r).spaced
  have hlist : c.membersPiece.Tells kind f (c.members.flatMap (Sum.elim v w)) :=
    Piece.tells_concat c.members fun m _ => hmember m
  rw [members, List.flatMap_append, List.flatMap_map, List.flatMap_map] at hlist
  have hlast := hlist.append
    ((Piece.tells_token (.keyword .kwEnd) Keyword.kwEnd.spelling.toList).spaced.append
      (Piece.tells_blank []))
  rw [List.append_nil, List.append_nil] at hlast
  exact (Piece.tells_token _ _).append (hheritage.append hlast)

theorem tells_heritagePiece_other {α : Type} {kind : NodeKind} {f : Source → Tree → α}
    (hkind : (.heritage == kind) = false) (ancestor : Option PlainName) :
    (heritagePiece ancestor).Tells kind f [] := by
  cases ancestor with
  | none => exact Piece.tells_blank _
  | some a => exact Piece.tells_other hkind

/-- The tokens in a class, outside of its ancestor and its members, are its
first and its last word. -/
theorem Class.tokens_bodyParts (c : Class) (n : Nat) :
    ∃ a b, (c.bodyParts.trees n).filterMap Tree.token? = [a, b] ∧ a.kind = .keyword .kwClass
      ∧ b.kind = .keyword .kwEnd := by
  have hheritage (n : Nat) : ((heritagePiece c.ancestor).trees n).filterMap Tree.token? = [] := by
    cases c.ancestor <;> rfl
  have hmembers (ms : List Member) (n : Nat) :
      ((Piece.concat (ms.map fun m => (Member.piece m).spaced)).trees n).filterMap Tree.token?
      = [] := by
    induction ms generalizing n with
    | nil => rfl
    | cons m ms ih =>
      rw [List.map_cons, Piece.concat, Piece.trees_append, List.filterMap_append, ih]
      cases m <;> rfl
  simp only [bodyParts, Piece.concat, Piece.trees_append, List.filterMap_append, hheritage,
    membersPiece, hmembers]
  exact ⟨_, _, rfl, rfl, rfl⟩

section

variable (c : Class) {s : Source} {n m : Nat}

/-- The ancestor is read back. -/
theorem Class.ancestor_eq (h : s.text.StandsAt n c.bodyParts.text) :
    (((Tree.node .classType n m (c.bodyParts.trees n)).child? .heritage).bind fun t =>
      (some (Source.dottedName (t.tokens.drop 1))).filter fun name => !name.isEmpty)
        = c.ancestor.map PlainName.text := by
  have htells := c.tells_bodyParts (tells_heritagePiece c.ancestor)
    (fun _ => Piece.tells_other (by decide))
    (fun _ => Piece.tells_other (by decide)) s n h
  have hchild : ((Tree.node .classType n m (c.bodyParts.trees n)).child? .heritage).map (nameOf s)
      = c.ancestor.map PlainName.text := by
    rw [Tree.map_child?, Tree.children, htells, List.flatMap_eq_nil_iff.2 fun _ _ => rfl,
      List.flatMap_eq_nil_iff.2 fun _ _ => rfl, List.append_nil]
    cases c.ancestor <;> rfl
  have hkept : (c.ancestor.map PlainName.text).filter (fun name => !name.isEmpty)
      = c.ancestor.map PlainName.text := by
    cases c.ancestor with
    | none => rfl
    | some a => exact Option.filter_some_pos (by simpa using a.ne_nil)
  rw [← hkept, ← hchild]
  cases (Tree.node .classType n m (c.bodyParts.trees n)).child? .heritage <;> rfl

/-- The fields are read back. -/
theorem Class.fields_eq (h : s.text.StandsAt n c.bodyParts.text) :
    ((Source.membersOf .fieldDecl (.node .classType n m (c.bodyParts.trees n))).flatMap
        s.fields).map FieldDecl.bare
      = c.fields.map fun f => { name := f.name.text, typeName := f.type.text } := by
  have htells := c.tells_bodyParts (tells_heritagePiece_other (by decide) _) Field.tells_piece
    (fun _ => Piece.tells_other (by decide)) s n h
  rw [Source.membersOf, List.map_flatMap, List.flatMap_def]
  show (List.map (fieldsOf s) _).flatten = _
  rw [Tree.map_nodes .fieldDecl fieldsOf, Tree.children, htells,
    List.flatMap_eq_nil_iff.2 fun _ _ => rfl, List.append_nil, List.nil_append,
    ← List.map_eq_flatMap, ← List.flatMap_def, ← List.map_eq_flatMap]

/-- There are no properties. -/
theorem Class.properties_eq (h : s.text.StandsAt n c.bodyParts.text) :
    Source.membersOf .propertyDecl (.node .classType n m (c.bodyParts.trees n)) = [] := by
  have htells : (c.bodyParts.trees n).flatMap (s.found .propertyDecl fun _ t => t) = _ :=
    c.tells_bodyParts (tells_heritagePiece_other (by decide) _)
      (fun _ => Piece.tells_other (by decide))
      (fun _ => Piece.tells_other (by decide)) s n h
  have hmap := Tree.map_nodes .propertyDecl (fun _ t => t) s
    (.node .classType n m (c.bodyParts.trees n))
  rw [Tree.children, htells, List.flatMap_eq_nil_iff.2 fun _ _ => rfl,
    List.flatMap_eq_nil_iff.2 fun _ _ => rfl] at hmap
  exact List.map_eq_nil_iff.1 hmap

/-- The headings of the methods are read back. -/
theorem Class.methods_eq (h : s.text.StandsAt n c.bodyParts.text) :
    (Source.membersOf .routineHeading (.node .classType n m (c.bodyParts.trees n))).map (methodOf s)
      = c.methods.map Routine.declared := by
  have htells := c.tells_bodyParts (tells_heritagePiece_other (by decide) _)
    (fun _ => Piece.tells_other (by decide))
    Routine.tells_method s n h
  rw [Source.membersOf, Tree.map_nodes .routineHeading methodOf, Tree.children, htells,
    List.flatMap_eq_nil_iff.2 fun _ _ => rfl, List.nil_append, List.nil_append, List.map_eq_flatMap]

/-- The class that a declaration declares. -/
theorem Class.classOf_eq (h : s.text.StandsAt n c.bodyParts.text) (start stop a b : Nat)
    (e d : Token) :
    classOf s (.node .typeDecl start stop [.leaf ⟨.ident c.name.text, a, b⟩, .leaf e,
      .node .classType n m (c.bodyParts.trees n), .leaf d]) = some c.declared := by
  obtain ⟨first, last, htokens, hfirst, hlast⟩ := c.tokens_bodyParts n
  have hrecord : ((Tree.node .classType n m (c.bodyParts.trees n)).tokens.take 2).any
      (fun t => t.kind == .keyword .kwRecord) = false := by
    rw [Tree.tokens, Tree.children, htokens]
    simp [hfirst, hlast]
  have hmethods :
      (Source.membersOf .routineHeading (.node .classType n m (c.bodyParts.trees n))).map
      (PascalAtlas.Routine.bare ∘ fun t => (s.heading t).2.withExtent (s.extentOf t))
      = c.methods.map Routine.declared :=
    c.methods_eq h
  show some (ClassDecl.bare _) = _
  simp only [ClassDecl.bare, List.map_map]
  rw [c.ancestor_eq h, hrecord, c.fields_eq h, c.properties_eq h, hmethods]
  rfl

/-- **A class is read back**, with the headings of its methods. -/
theorem Class.tells_piece : c.piece.Tells .typeDecl classOf [some c.declared] := by
  refine Piece.tells_node fun s n h => ?_
  exact c.classOf_eq (h.right.right.left.right (a := [' '])) _ _ _ _ _ _

end

end Blueprint

end PascalAtlas
