import PascalAtlas.Proofs.Line
import PascalAtlas.Proofs.Local

/-!
# Pieces of source text

A **piece** is a stretch of source text together with what should become of it: the tokens in it and
the trees built over them, for every byte at which it may begin. Pieces are put together as texts
are, and a node is put around one. What a piece promises is shown once for each way to make one:

* `Piece.Lexes`: its text is read as its tokens, if what follows does not go on with its last token;
* `Piece.Parses`: a step of the grammar builds its trees over its tokens, before what may follow;
* `Piece.Stands`: where its text stands in a source, the text of its parts can be cut out again.

So the text of a whole unit, which is a piece made of pieces, is read by composition, and every
position in it is counted only once, in the definition of `Piece.append`.
-/

namespace PascalAtlas

/-- A text with the tokens and the trees that it becomes if it begins at a given byte. -/
structure Piece where
  text : Text
  tokens : Nat → List Token
  trees : Nat → List Tree

namespace Piece

/-- The number of bytes of a piece. -/
def size (p : Piece) : Nat :=
  Text.size p.text

/-! ## Ways to make a piece -/

/-- Blanks, or nothing at all. -/
def blank (t : Text) : Piece :=
  ⟨t, fun _ => [], fun _ => []⟩

/-- A single token. -/
def token (kind : TokenKind) (spelling : Text) : Piece where
  text := spelling
  tokens n := [⟨kind, n, n + Text.size spelling⟩]
  trees n := [.leaf ⟨kind, n, n + Text.size spelling⟩]

/-- A reserved word. -/
def keyword (k : Keyword) : Piece :=
  token (.keyword k) k.spelling.toList

/-- A symbol. -/
def symbol (s : Symbol) : Piece :=
  token (.symbol s) s.spelling.toList

/-- A name. -/
def ident (name : Text) : Piece :=
  token (.ident name) name

/-- A piece and another one behind it. -/
def append (p q : Piece) : Piece where
  text := p.text ++ q.text
  tokens n := p.tokens n ++ q.tokens (n + p.size)
  trees n := p.trees n ++ q.trees (n + p.size)

/-- A **node** around a piece. -/
def node (kind : NodeKind) (p : Piece) : Piece where
  text := p.text
  tokens := p.tokens
  trees n := [.node kind n (n + p.size) (p.trees n)]

/-- Some pieces one after the other. -/
def concat : List Piece → Piece
  | [] => blank []
  | p :: ps => p.append (concat ps)

@[simp] theorem text_append (p q : Piece) : (p.append q).text = p.text ++ q.text := rfl

@[simp] theorem tokens_append (p q : Piece) (n : Nat) :
    (p.append q).tokens n = p.tokens n ++ q.tokens (n + p.size) := rfl

/-- The trees of two pieces are those of the first and, further on, those of the second. -/
@[simp] theorem trees_append (p q : Piece) (n : Nat) :
    (p.append q).trees n = p.trees n ++ q.trees (n + p.size) := rfl

theorem trees_concat_cons (p : Piece) (ps : List Piece) (n : Nat) :
    (concat (p :: ps)).trees n = p.trees n ++ (concat ps).trees (n + p.size) := rfl

@[simp] theorem size_append (p q : Piece) : (p.append q).size = p.size + q.size :=
  Text.size_append _ _

/-- The text of several pieces is their texts in turn. -/
theorem text_concat (ps : List Piece) : (concat ps).text = ps.flatMap text := by
  induction ps with
  | nil => rfl
  | cons p ps ih => rw [concat, text_append, ih, List.flatMap_cons]

/-! ## Tokens -/

/-- The text of the piece is **read as its tokens** before any rest that does not go on
with the last of them. -/
def Lexes (ends : Text → Prop) (p : Piece) : Prop :=
  ∀ pos rest, ends rest →
    Token.lexFrom pos (p.text ++ rest) = (Token.lexFrom (pos + p.size) rest).map (p.tokens pos ++ ·)

/-- No identifier goes on with this text. -/
def EndsWord (rest : Text) : Prop :=
  Token.headIs Text.isIdentChar rest = false

variable {p q : Piece} {P Q : Text → Prop}

/-- Blanks are read as no token. -/
theorem lexes_blank {t : Text} (ht : ∀ c ∈ t, Token.isSpace c = true) : (blank t).Lexes P := by
  intro pos rest _
  rw [blank, Token.lexFrom_spaces ht]
  exact (Token.map_nil_append _).symm

/-- A piece and then a piece, if the second stops the last token of the first. -/
theorem Lexes.append (hp : p.Lexes Q) (hq : q.Lexes P) (h : ∀ rest, P rest → Q (q.text ++ rest)) :
    (p.append q).Lexes P := by
  intro pos rest hrest
  rw [text_append, List.append_assoc, hp pos _ (h rest hrest), hq _ rest hrest,
    Token.map_append_append, size_append, Nat.add_assoc]
  rfl

/-- What is read before more texts is read before fewer. -/
theorem Lexes.mono (hp : p.Lexes Q) (h : ∀ rest, P rest → Q rest) : p.Lexes P :=
  fun pos rest hrest => hp pos rest (h rest hrest)

/-- A node around a piece does not change its text. -/
theorem Lexes.node (kind : NodeKind) (hp : p.Lexes P) : (node kind p).Lexes P := hp

/-- Blanks in front of a piece do not change how it is read. -/
theorem Lexes.after_blank (hp : p.Lexes P) {t : Text} (ht : ∀ c ∈ t, Token.isSpace c = true) :
    ((blank t).append p).Lexes P :=
  (lexes_blank (P := fun _ => True) ht).append hp fun _ _ => trivial

/-- A list of one piece is read like the piece. -/
theorem Lexes.last (hp : p.Lexes P) : (concat [p]).Lexes P :=
  hp.append (lexes_blank (by simp)) fun _ hrest => hrest

/-- A list of pieces ends what comes before it if each of them does, and what follows them. -/
theorem ends_concat {ps : List Piece} (h : ∀ p ∈ ps, ∀ rest, P (p.text ++ rest)) {rest : Text}
    (hrest : P rest) :
    P ((concat ps).text ++ rest) := by
  cases ps with
  | nil => exact hrest
  | cons p ps =>
    rw [concat, text_append, List.append_assoc]
    exact h p (by simp) _

/-- Pieces one after the other, if what ends the last one is also what each of them begins with. -/
theorem lexes_concat {ps : List Piece} (h : ∀ p ∈ ps, p.Lexes P ∧ ∀ rest, P (p.text ++ rest)) :
    (concat ps).Lexes P := by
  induction ps with
  | nil => exact lexes_blank (by simp)
  | cons p ps ih =>
    refine (h p (by simp)).1.append (ih fun q hq => h q (List.mem_cons_of_mem _ hq))
      fun rest hrest => ?_
    exact ends_concat (fun q hq => (h q (List.mem_cons_of_mem _ hq)).2) hrest

/-- A **word** is read whole: it begins as an identifier does, goes on as one, and ends
where none goes on. -/
theorem lexes_word {c : Char} {cs : Text} (hc : Token.isIdentStart c = true)
    (hcs : ∀ d ∈ cs, Text.isIdentChar d = true) :
    (token (Token.wordKind (c :: cs)) (c :: cs)).Lexes EndsWord := by
  intro pos rest hrest
  obtain ⟨htake, hdrop⟩ := Token.takeWhile_append hcs hrest
  have hspace : Token.isSpace c = false :=
    Token.not_isSpace (p := Token.isIdentStart) (by decide) c hc
  have hread : Token.read c (cs ++ rest) = ⟨.token (Token.wordKind (c :: cs)), c :: cs, rest⟩ := by
    rw [Token.read.eq_def, if_neg (by simp [hspace]), if_pos hc, Token.readRun, htake, hdrop]
    rfl
  rw [token, List.cons_append, Token.lexFrom_token hread]
  rfl

/-- A reserved word is read as one. -/
theorem lexes_keyword (k : Keyword) : (keyword k).Lexes EndsWord := by
  obtain ⟨c, cs, hspelling, hc, hcs, hkind⟩ : ∃ c cs, k.spelling.toList = c :: cs
      ∧ Token.isIdentStart c = true
      ∧ (∀ d ∈ cs, Text.isIdentChar d = true) ∧ Token.wordKind (c :: cs) = .keyword k := by
    cases k <;> exact ⟨_, _, rfl, by decide, by decide, by decide⟩
  rw [keyword, hspelling, ← hkind]
  exact lexes_word hc hcs

/-- No symbol and no comment goes on with this text. -/
def EndsSign (rest : Text) : Prop :=
  Token.headIs (fun c => c == '=' || c == '.' || c == '*') rest = false

/-- The punctuation of declarations. -/
def punctuation : List Symbol :=
  [.semi, .comma, .colon, .eq, .dot, .lParen, .rParen]

/-- A colon that is not followed by an equals sign, and a dot that is not followed by another, are
symbols of their own. The other signs begin no longer symbol. -/
theorem symbol?_punctuation {s : Symbol} (hs : s ∈ punctuation) {rest : Text}
    (hrest : EndsSign rest) :
    ∃ c, s.spelling.toList = [c] ∧ Token.isSign c = true ∧ c ≠ '/' ∧ c ≠ '$'
      ∧ Token.symbol? (c :: rest) = some (s, rest) := by
  -- The longer symbols that begin with a colon or a dot have one of two signs behind it.
  have hlonger : ∀ d : Char, d = '=' ∨ d = '.' → Text.dropPrefix? [d] rest = none := by
    intro d hd
    cases rest with
    | nil => rfl
    | cons e es =>
      simp only [EndsSign, Token.headIs, Bool.or_eq_false_iff, beq_eq_false_iff_ne] at hrest
      refine if_neg ?_
      rintro rfl
      exact hd.elim hrest.1.1 hrest.1.2
  simp only [punctuation, List.mem_cons, List.not_mem_nil, or_false] at hs
  rcases hs with rfl | rfl | rfl | rfl | rfl | rfl | rfl
  · exact ⟨';', rfl, by decide, by decide, by decide, rfl⟩
  · exact ⟨',', rfl, by decide, by decide, by decide, rfl⟩
  · refine ⟨':', rfl, by decide, by decide, by decide, ?_⟩
    have hassign : Text.dropPrefix? Symbol.assign.spelling.toList (':' :: rest) = none :=
      hlonger '=' (.inl rfl)
    rw [Token.symbol?, Symbol.all, List.findSome?_cons, hassign]
    rfl
  · exact ⟨'=', rfl, by decide, by decide, by decide, rfl⟩
  · refine ⟨'.', rfl, by decide, by decide, by decide, ?_⟩
    have hassign : Text.dropPrefix? Symbol.assign.spelling.toList ('.' :: rest) = none := rfl
    have hdots : Text.dropPrefix? Symbol.dotDot.spelling.toList ('.' :: rest) = none :=
      hlonger '.' (.inr rfl)
    rw [Token.symbol?, Symbol.all, List.findSome?_cons, hassign, List.findSome?_cons, hdots]
    rfl
  · exact ⟨'(', rfl, by decide, by decide, by decide, rfl⟩
  · exact ⟨')', rfl, by decide, by decide, by decide, rfl⟩

/-- Two signs make no comment if what follows ends the first. -/
theorem opensComment_of_endsSign {c : Char} (hc : c ≠ '/') {rest : Text} (hrest : EndsSign rest) :
    Token.opensComment c rest = false := by
  cases rest with
  | nil => simp [Token.opensComment, Token.headIs]
  | cons d ds =>
    simp only [EndsSign, Token.headIs, Bool.or_eq_false_iff, beq_eq_false_iff_ne] at hrest
    simp [Token.opensComment, Token.headIs, hrest, hc]

/-- A sign is read as a symbol, before anything that does not go on with it. -/
theorem lexes_symbol {s : Symbol} (hs : s ∈ punctuation) : (symbol s).Lexes EndsSign := by
  intro pos rest hrest
  obtain ⟨c, hc, hsign, hslash, hdollar, hsymbol⟩ := symbol?_punctuation hs hrest
  have hread : Token.read c rest = ⟨.token (.symbol s), [c], rest⟩ := by
    rw [Token.read_symbol hsign (by simp [hdollar]) (opensComment_of_endsSign hslash hrest)]
    simp only [Token.readSymbol, hsymbol, hc]
  rw [symbol, token, hc, List.cons_append, List.nil_append, Token.lexFrom_token hread]
  rfl

end Piece

end PascalAtlas
