import PascalAtlas.Proofs.Aligned
import PascalAtlas.Proofs.Neighbour

/-!
# The tokens of a masked text

The mask and the tokens are found by two readers that know nothing of each other. They see the
**same** comments and string literals: the masked text has the tokens of the text itself, in the
same places, and only the contents of the string literals are blanks (`lex_mask`).

What makes this work is that the mask never comes between two tokens that stood together:
where the text behind a token is masked, it begins with a blank, and a blank ends every
token (`follows_maskText`).
-/

namespace PascalAtlas

namespace Token

/-- A token as it stands in the masked text: the contents of a string literal are **blanks**, one
for each byte between its quotes. -/
def masked (t : Token) : Token :=
  match t.kind with
  | .str _ => { t with kind := .str (List.replicate (t.stop - t.start - 2) ' ') }
  | _ => t

end Token

namespace Mask

open Token

/-! ## What is copied -/

/-- The characters with which nothing masked begins. -/
def IsQuiet (c : Char) : Prop :=
  c ≠ '{' ∧ c ≠ '(' ∧ c ≠ '/' ∧ c ≠ '\''

instance (c : Char) : Decidable (IsQuiet c) :=
  inferInstanceAs (Decidable (_ ∧ _))

/-- Two signs open a comment: a bracket with a star, and two slashes. -/
theorem opensComment_eq (c : Char) (cs : Text) :
    opensComment c cs = (c = '(' && cs.head? == some '*' || c = '/' && cs.head? == some '/') := by
  cases cs <;> rfl

/-- A character that opens nothing is copied. -/
theorem charStep_plain {c : Char} {cs : Text} (hbrace : c ≠ '{') (hquote : c ≠ '\'')
    (hcomment : opensComment c cs = false) : charStep c cs = ([c], cs) := by
  rw [opensComment_eq] at hcomment
  obtain ⟨hparen, hslash⟩ := Bool.or_eq_false_iff.1 hcomment
  rw [charStep, if_neg hbrace, if_neg (Bool.eq_false_iff.1 hparen),
    if_neg (Bool.eq_false_iff.1 hslash), if_neg hquote]

/-- A character that opens nothing is kept. -/
theorem maskText_cons {c : Char} {cs : Text} (hbrace : c ≠ '{') (hquote : c ≠ '\'')
    (hcomment : opensComment c cs = false) : maskText (c :: cs) = c :: maskText cs := by
  rw [maskText, charStep_plain hbrace hquote hcomment, List.singleton_append]

/-- So is a stretch of characters that open nothing. -/
theorem maskText_append {front : Text} (h : ∀ c ∈ front, IsQuiet c) (rest : Text) :
    maskText (front ++ rest) = front ++ maskText rest := by
  induction front with
  | nil => rfl
  | cons c front ih =>
    obtain ⟨hbrace, hparen, hslash, hquote⟩ := h c (List.mem_cons_self ..)
    have hcomment : opensComment c (front ++ rest) = false := by simp [opensComment, hparen, hslash]
    rw [List.cons_append, maskText_cons hbrace hquote hcomment,
      ih fun d hd => h d (List.mem_cons_of_mem _ hd), List.cons_append]

/-- A class of quiet characters. -/
theorem isQuiet_of {p : Char → Bool} (hp : ∀ c ∈ ['{', '(', '/', '\''], p c = false) {c : Char}
    (hc : p c = true) : IsQuiet c := by
  have hne : ∀ d ∈ ['{', '(', '/', '\''], c ≠ d := by
    rintro d hd rfl
    rw [hp c hd] at hc
    cases hc
  exact ⟨hne _ (by simp), hne _ (by simp), hne _ (by simp), hne _ (by simp)⟩

/-- A run of them is kept up to its end. -/
theorem maskText_takeWhile {p : Char → Bool} (hp : ∀ c ∈ ['{', '(', '/', '\''], p c = false)
    (front : Text) (hfront : ∀ c ∈ front, IsQuiet c) (cs : Text) :
    maskText (front ++ cs) = front ++ cs.takeWhile p ++ maskText (cs.dropWhile p) := by
  have hall : ∀ c ∈ front ++ cs.takeWhile p, IsQuiet c := by
    intro c hc
    rcases List.mem_append.1 hc with hc | hc
    · exact hfront c hc
    · exact isQuiet_of hp (List.all_eq_true.1 List.all_takeWhile c hc)
  rw [← maskText_append hall, List.append_assoc, List.takeWhile_append_dropWhile]

/-! ## What is masked -/

/-- What is blanked is spaces and line breaks. -/
theorem isSpace_blankText (t : Text) : ∀ c ∈ blankText t, isSpace c = true := by
  intro c hc
  obtain ⟨d, -, hd⟩ := List.mem_flatMap.1 hc
  by_cases hline : d = '\n'
  · rw [blankChar, if_pos hline, hline] at hd
    rw [List.mem_singleton.1 hd]
    decide
  · rw [blankChar, if_neg hline] at hd
    rw [List.eq_of_mem_replicate hd]
    decide

theorem size_blankText (t : Text) : Text.size (blankText t) = Text.size t :=
  (Aligned.blankText t).size_eq

/-- A stretch without line breaks is masked by blanks alone. -/
theorem blankText_eq_replicate {t : Text} (h : '\n' ∉ t) :
    blankText t = List.replicate (Text.size t) ' ' := by
  induction t with
  | nil => rfl
  | cons c t ih =>
    have hc : c ≠ '\n' := fun heq => h (heq ▸ List.mem_cons_self ..)
    rw [blankText, List.flatMap_cons, ← blankText, ih fun hmem => h (List.mem_cons_of_mem _ hmem),
      blankChar, if_neg hc, Text.size, List.replicate_append_replicate]

/-- What the mask writes first is the character that stood there, or a blank. -/
theorem head_charStep (c : Char) (cs : Text) :
    ∃ d ds, (charStep c cs).1 = d :: ds ∧ (d = c ∨ d = ' ') := by
  have hcomment (opening closing ds : Text) (d : Char) (hd : blankChar d = [' ']) :
      ∃ ds', (comment (d :: opening) closing ds).1 = ' ' :: ds' := by
    unfold comment
    split <;> simp [blankText, hd]
  unfold charStep
  repeat' split
  · obtain ⟨ds, hds⟩ := hcomment [] ['}'] cs '{' (by decide)
    exact ⟨' ', ds, hds, .inr rfl⟩
  · obtain ⟨ds, hds⟩ := hcomment ['*'] ['*', ')'] cs.tail '(' (by decide)
    exact ⟨' ', ds, hds, .inr rfl⟩
  next h =>
    obtain ⟨rfl, -⟩ : c = '/' ∧ cs.head? = some '/' := by simpa using h
    exact ⟨' ', _, rfl, .inr rfl⟩
  · exact ⟨c, _, rfl, .inl rfl⟩
  · exact ⟨c, _, rfl, .inl rfl⟩

/-- A masked text **begins as the text does, or with a blank**. -/
theorem follows_maskText (t : Text) : Follows t (maskText t) := by
  cases t with
  | nil =>
    rw [maskText]
    exact follows_nil []
  | cons c cs =>
    obtain ⟨d, ds, hstep, hd⟩ := head_charStep c cs
    rw [maskText, hstep, List.cons_append]
    rcases hd with rfl | rfl
    · exact .inl rfl
    · exact follows_space (by decide) _ _

/-! ## Readings -/

/-- What the mask makes of a reading: spaces of what is skipped, blanks of what a string literal
holds, and nothing of any other token. -/
inductive MaskedAs : Lexeme → Text → Text → Prop
  | spaces {taken spaces : Text} (hspaces : ∀ c ∈ spaces, isSpace c = true)
      (hsize : Text.size spaces = Text.size taken) : MaskedAs .skip taken spaces
  | copied {kind : TokenKind} {taken : Text} (hkind : ∀ value, kind ≠ .str value) :
    MaskedAs (.token kind) taken taken
  | blanked {value inside : Text} (hline : '\n' ∉ inside) :
    MaskedAs (.token (.str value)) ('\'' :: (inside ++ ['\'']))
    ('\'' :: (blankText inside ++ ['\'']))

/-- A reading and the rest are masked one after the other. -/
def Splits (t : Text) (r : Reading) : Prop :=
  ∃ front, MaskedAs r.lexeme r.taken front ∧ maskText t = front ++ maskText r.rest

/-- A comment is **skipped by both** readers, from one end to the other. -/
theorem splits_comment {opening closing cs t : Text} {r : Reading}
    (hr : readComment opening closing cs = r) (hclosed : ∀ cause, r.lexeme ≠ .fault cause)
    (ht : maskText t = (comment opening closing cs).1 ++ maskText (comment opening closing cs).2) :
    Splits t r := by
  rw [readComment] at hr
  rw [comment] at ht
  cases hcut : Text.cut? closing cs with
  | none =>
    rw [hcut] at hr
    subst hr
    exact absurd rfl (hclosed _)
  | some cut =>
    rw [hcut] at hr ht
    subst hr
    exact ⟨_, .spaces (isSpace_blankText _) (size_blankText _), ht⟩

/-- A run is kept by the mask, as it is a token. -/
theorem splits_run {p : Char → Bool} (hp : ∀ c ∈ ['{', '(', '/', '\''], p c = false)
    {kind : Text → TokenKind} (hkind : ∀ word value, kind word ≠ .str value) (front : Text)
    (hfront : ∀ c ∈ front, IsQuiet c) (cs : Text) :
    Splits (front ++ cs) (readRun p kind front cs) :=
  ⟨_, .copied (hkind _), maskText_takeWhile hp front hfront cs⟩

theorem wordKind_ne_str (word value : Text) : wordKind word ≠ .str value := by
  unfold wordKind
  split <;> simp

/-- So is a symbol. -/
theorem splits_symbol {c : Char} {cs : Text} (hcomment : opensComment c cs = false)
    (hknown : ∀ cause, (readSymbol c cs).lexeme ≠ .fault cause) :
    Splits (c :: cs) (readSymbol c cs) := by
  rw [readSymbol] at hknown ⊢
  cases hsymbol : symbol? (c :: cs) with
  | none =>
    rw [hsymbol] at hknown
    exact absurd rfl (hknown _)
  | some found =>
    obtain ⟨s, rest⟩ := found
    refine ⟨_, .copied (by simp), ?_⟩
    have hwhole : s.spelling.toList ++ rest = c :: cs := symbol?_eq_some hsymbol
    -- The first sign of a comment is a symbol too, where no comment follows.
    have hsigns : (∀ d ∈ s.spelling.toList, IsQuiet d) ∨ s.spelling.toList = ['(']
        ∨ s.spelling.toList = ['/'] := by
      cases s <;> decide
    show maskText (c :: cs) = s.spelling.toList ++ maskText rest
    rcases hsigns with hquiet | hparen | hslash
    · rw [← hwhole, maskText_append hquiet]
    · rw [hparen] at hwhole ⊢
      obtain ⟨rfl, rfl⟩ := List.cons.inj hwhole
      rw [maskText_cons (by decide) (by decide) hcomment]
      rfl
    · rw [hslash] at hwhole ⊢
      obtain ⟨rfl, rfl⟩ := List.cons.inj hwhole
      rw [maskText_cons (by decide) (by decide) hcomment]
      rfl

/-- The contents of a literal that is closed are what was read up to the closing quote. -/
theorem contents_of_stringBody? {cs value taken rest : Text}
    (h : stringBody? cs = some (value, taken, rest)) :
    ∃ inside, taken = inside ++ ['\''] ∧ '\n' ∉ inside ∧ contents cs = (inside, '\'' :: rest) := by
  fun_induction stringBody? cs generalizing value taken rest with
  | case1 => simp at h
  | case2 cs ih =>
    obtain ⟨⟨v, t, r⟩, hbody, heq⟩ := Option.map_eq_some_iff.1 h
    obtain ⟨-, rfl, rfl⟩ : '\'' :: v = value ∧ '\'' :: '\'' :: t = taken
      ∧ r = rest := by simpa using heq
    obtain ⟨inside, rfl, hline, hcontents⟩ := ih hbody
    refine ⟨'\'' :: '\'' :: inside, rfl, by simpa using hline, ?_⟩
    rw [contents, hcontents]
    rfl
  | case3 cs hdouble =>
    obtain ⟨-, rfl, rfl⟩ : [] = value ∧ ['\''] = taken ∧ cs = rest := by simpa using h
    refine ⟨[], rfl, by simp, ?_⟩
    cases cs with
    | nil => rfl
    | cons d ds =>
      -- The quote closes the literal, so it is not the first of two.
      have hd : d ≠ '\'' := fun hd => hdouble ds rfl (by rw [hd])
      rw [contents, if_neg (by decide), if_pos rfl, if_neg hd]
  | case4 => simp at h
  | case5 c cs hdouble hquote hline ih =>
    obtain ⟨⟨v, t, r⟩, hbody, heq⟩ := Option.map_eq_some_iff.1 h
    obtain ⟨-, rfl, rfl⟩ : c :: v = value ∧ c :: t = taken ∧ r = rest := by simpa using heq
    obtain ⟨inside, rfl, hinside, hcontents⟩ := ih hbody
    refine ⟨c :: inside, rfl, by simpa [Ne.symm hline] using hinside, ?_⟩
    cases cs with
    | nil => cases hbody
    | cons d ds => rw [contents, if_neg hline, if_neg hquote, hcontents]

/-- A literal keeps its quotes and loses its contents. -/
theorem splits_string {cs : Text} (hclosed : ∀ cause, (readString cs).lexeme ≠ .fault cause) :
    Splits ('\'' :: cs) (readString cs) := by
  rw [readString] at hclosed ⊢
  cases hbody : stringBody? cs with
  | none =>
    rw [hbody] at hclosed
    exact absurd rfl (hclosed _)
  | some found =>
    obtain ⟨value, taken, rest⟩ := found
    obtain ⟨inside, rfl, hline, hcontents⟩ := contents_of_stringBody? hbody
    refine ⟨_, .blanked hline, ?_⟩
    have hstep : charStep '\'' cs = ('\'' :: (blankText inside ++ ['\'']), rest) := by
      simp [charStep, hcontents]
    rw [maskText, hstep]

/-- A character code is kept. -/
theorem splits_code {cs : Text} (hknown : ∀ cause, (readCharCode cs).lexeme ≠ .fault cause) :
    Splits ('#' :: cs) (readCharCode cs) := by
  rw [readCharCode.eq_def] at hknown ⊢
  by_cases hdigit : headIs Char.isDigit cs = true
  · rw [if_pos hdigit]
    exact splits_run (by decide) (by simp) ['#'] (by decide) cs
  · rw [if_neg hdigit] at hknown ⊢
    split at hknown
    next ds =>
      by_cases hhex : headIs isHexDigit ds = true
      · rw [if_pos hhex]
        exact splits_run (by decide) (by simp) ['#', '$'] (by decide) ds
      · rw [if_neg hhex] at hknown
        exact absurd rfl (hknown _)
    next => exact absurd rfl (hknown _)

/-- So is an escaped name. -/
theorem splits_escaped {cs : Text} (hknown : ∀ cause, (readEscaped cs).lexeme ≠ .fault cause) :
    Splits ('&' :: cs) (readEscaped cs) := by
  rw [readEscaped] at hknown ⊢
  by_cases hstart : headIs isIdentStart cs = true
  · rw [if_pos hstart]
    exact ⟨_, .copied (by simp), maskText_takeWhile (by decide) ['&'] (by decide) cs⟩
  · rw [if_neg hstart] at hknown
    exact absurd rfl (hknown _)

/-- **The mask follows the readings.** -/
theorem splits_read {c : Char} {cs : Text} (hknown : ∀ cause, (read c cs).lexeme ≠ .fault cause) :
    Splits (c :: cs) (read c cs) := by
  have hread := readAs_read c cs
  generalize read c cs = r at hknown hread
  cases hread with
  | space hc =>
    have hquiet : ∀ d ∈ [c], IsQuiet d := by
      simpa using isQuiet_of (p := isSpace) (by decide) hc
    refine ⟨_, .spaces ?_ rfl, maskText_takeWhile (p := isSpace) (by decide) [c] hquiet cs⟩
    intro d hd
    rcases List.mem_cons.1 hd with rfl | hd
    · exact hc
    · exact List.all_eq_true.1 List.all_takeWhile d hd
  | word hc =>
    have hquiet : ∀ d ∈ [c], IsQuiet d := by
      simpa using isQuiet_of (p := isIdentStart) (by decide) hc
    exact splits_run (by decide) wordKind_ne_str [c] hquiet cs
  | number hc =>
    have hquiet : ∀ d ∈ [c], IsQuiet d := by
      simpa using isQuiet_of (p := Char.isDigit) (by decide) hc
    exact splits_run (by decide) (by simp) [c] hquiet cs
  | string => exact splits_string hknown
  | braced => exact splits_comment rfl hknown (by rw [maskText]; rfl)
  | code => exact splits_code hknown
  | escaped => exact splits_escaped hknown
  | hex => exact splits_run (by decide) (by simp) ['$'] (by decide) cs
  | starred => exact splits_comment rfl hknown (by rw [maskText]; rfl)
  | line =>
    refine ⟨_, .spaces (isSpace_blankText _) (size_blankText _), ?_⟩
    rw [maskText]
    rfl
  | symbol hcomment => exact splits_symbol hcomment hknown

end Mask

/-! ## Tokens -/

namespace Token

open Mask

/-- Any token but a literal is its own mask. -/
theorem masked_eq {t : Token} (h : ∀ value, t.kind ≠ .str value) : t.masked = t := by
  unfold masked
  split
  next value hkind => exact absurd hkind (h value)
  next => rfl

/-- A literal of blanks is read as it stands. -/
theorem stringBody?_replicate (n : Nat) {rest : Text} (hrest : rest.head? ≠ some '\'') :
    stringBody? (List.replicate n ' ' ++ '\'' :: rest)
      = some (List.replicate n ' ', List.replicate n ' ' ++ ['\''], rest) := by
  induction n with
  | zero =>
    rw [List.replicate_zero, List.nil_append, stringBody?, if_pos rfl]
    · rfl
    · rintro ds - rfl
      exact hrest rfl
  | succ n ih =>
    rw [List.replicate_succ, List.cons_append, stringBody?, if_neg (by decide),
      if_neg (by decide), ih]
    · rfl
    · simp

/-- A literal of blanks is read in the place of the literal. -/
theorem lexFrom_blanked {cs value inside rest : Text} (hline : '\n' ∉ inside)
    (h : readString cs = ⟨.token (.str value), '\'' :: (inside ++ ['\'']), rest⟩) (pos : Nat) :
    lexFrom pos ('\'' :: (blankText inside ++ ['\'']) ++ maskText rest)
      = (lexFrom (pos + Text.size ('\'' :: (inside ++ ['\'']))) (maskText rest)).map
        (masked ⟨.str value, pos, pos + Text.size ('\'' :: (inside ++ ['\'']))⟩ :: ·) := by
  -- What comes behind begins with no quote, also when masked, so the closing quote
  -- stays the closing one.
  have hquote : (maskText rest).head? ≠ some '\'' := by
    intro hhead
    rw [readString] at h
    split at h
    next hbody =>
      obtain ⟨-, -, rfl⟩ := Reading.mk.inj h
      exact not_quote_of_stringBody? hbody ((follows_maskText _).head? hhead (by decide))
    next => cases (Reading.mk.inj h).1
  have hread : read '\'' (blankText inside ++ '\'' :: maskText rest)
      = ⟨.token (.str (blankText inside)), '\'' :: (blankText inside ++ ['\'']),
        maskText rest⟩ := by
    show readString _ = _
    rw [blankText_eq_replicate hline, readString, stringBody?_replicate _ hquote]
  have hsize : Text.size ('\'' :: (blankText inside ++ ['\'']))
      = Text.size ('\'' :: (inside ++ ['\''])) := by
    rw [Text.size, Text.size, Text.size_append, Text.size_append, size_blankText]
  have hbytes : Text.size ('\'' :: (inside ++ ['\''])) - 2 = Text.size inside := by
    have hbyte : '\''.utf8Size = 1 := rfl
    simp only [Text.size, Text.size_append, hbyte]
    omega
  rw [List.cons_append, List.append_assoc, List.singleton_append, lexFrom_token hread, hsize,
    masked, Nat.add_sub_cancel_left, hbytes, ← blankText_eq_replicate hline]

/-- A masked token is read **in its place**, and the rest behind it. -/
theorem lexFrom_masked {c : Char} {cs taken rest front : Text} {kind : TokenKind}
    (h : read c cs = ⟨.token kind, taken, rest⟩) (hmasked : MaskedAs (.token kind) taken front)
    (pos : Nat) :
    lexFrom pos (front ++ maskText rest)
      = (lexFrom (pos + Text.size taken) (maskText rest)).map
        (masked ⟨kind, pos, pos + Text.size taken⟩ :: ·) := by
  have hwhole := whole_read c cs
  have hne := taken_read_ne_nil c cs
  rw [h] at hwhole hne
  generalize hlexeme : Lexeme.token kind = lexeme at hmasked
  cases hmasked with
  | spaces => cases hlexeme
  | copied hkind =>
    obtain rfl := Lexeme.token.inj hlexeme
    obtain ⟨d, tail, rfl⟩ := List.exists_cons_of_ne_nil hne
    obtain ⟨rfl, -⟩ := List.cons.inj hwhole
    have hread := again_read d cs kind tail rest (maskText rest) h (follows_maskText rest)
    rw [List.cons_append, lexFrom_token hread, masked_eq hkind]
    rfl
  | blanked hline =>
    obtain rfl := Lexeme.token.inj hlexeme
    obtain ⟨rfl, -⟩ := List.cons.inj hwhole
    exact lexFrom_blanked hline h pos

/-- The masked text has the tokens of the text, masked. The induction is on the readings. -/
theorem lexFrom_maskText (pos : Nat) (t : Text) :
    ∀ tokens, lexFrom pos t = .ok tokens → lexFrom pos (maskText t) = .ok (tokens.map masked) := by
  induction pos, t using lexFrom.induct with
  | case1 pos =>
    intro tokens h
    rw [lexFrom] at h
    obtain rfl := Except.ok.inj h
    rw [maskText, lexFrom]
    rfl
  | case2 pos c cs r stop hskip ih =>
    intro tokens h
    obtain ⟨front, hmasked, hmask⟩ :=
      @splits_read c cs (by simp [show (read c cs).lexeme = _ from hskip])
    have hrest : lexFrom stop r.rest = .ok tokens := by rw [lexFrom] at h; simpa [r, hskip] using h
    rw [show (read c cs).lexeme = _ from hskip] at hmasked
    -- What was skipped is masked by spaces of the same size.
    cases hmasked with
    | spaces hspaces hsize => rw [hmask, lexFrom_spaces hspaces, hsize, ih tokens hrest]
  | case3 pos c cs r stop kind htoken ih =>
    intro tokens h
    obtain ⟨front, hmasked, hmask⟩ :=
      @splits_read c cs (by simp [show (read c cs).lexeme = _ from htoken])
    have hread : read c cs = ⟨.token kind, r.taken, r.rest⟩ := by rw [← htoken]
    rw [lexFrom_token hread] at h
    obtain ⟨ts, hts, rfl⟩ := Except.map_eq_ok h
    rw [show (read c cs).lexeme = _ from htoken] at hmasked
    rw [hmask, lexFrom_masked hread hmasked, ih ts hts]
    rfl
  | case4 pos c cs r cause hfault =>
    intro tokens h
    rw [lexFrom] at h
    simp [r, hfault] at h

/-- **The masked text has the tokens of the text**: as many, in the same places and of the same
kinds, with blanks for the contents of the string literals. -/
theorem lex_mask {src : Text} {tokens : List Token} (h : lex src = .ok tokens) :
    lex (mask src) = .ok (tokens.map masked) := by
  rw [mask_eq]
  exact lexFrom_maskText 0 src tokens h

/-- A comment of each kind, a doubled quote, a character of two bytes, and signs of one kind inside
another. -/
theorem lex_mask_nested :
    lex "a\x7b'\x7d'\x7b\x7d''(*é'//\n(*'*):=".toList
        = .ok [⟨.ident ['a'], 0, 1⟩, ⟨.str "\x7b\x7d'(*é".toList, 4, 14⟩, ⟨.symbol .assign, 22, 24⟩,
          ⟨.eof, 24, 24⟩]
      ∧ lex (mask "a\x7b'\x7d'\x7b\x7d''(*é'//\n(*'*):=".toList)
        = .ok [⟨.ident ['a'], 0, 1⟩, ⟨.str "        ".toList, 4, 14⟩, ⟨.symbol .assign, 22, 24⟩,
          ⟨.eof, 24, 24⟩] := by
  have htokens : lex "a\x7b'\x7d'\x7b\x7d''(*é'//\n(*'*):=".toList
      = .ok [⟨.ident ['a'], 0, 1⟩, ⟨.str "\x7b\x7d'(*é".toList, 4, 14⟩, ⟨.symbol .assign, 22, 24⟩,
        ⟨.eof, 24, 24⟩] := by
    with_unfolding_all rfl
  exact ⟨htokens, lex_mask htokens⟩

end Token

end PascalAtlas
