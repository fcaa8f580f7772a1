import PascalAtlas.Proofs.Stream
import PascalAtlas.Text.Blank

/-!
# Tokens and their neighbours

A token is read up to where it cannot go on. So what follows it may be exchanged for anything that
stops it too: a text that begins in the same way, a space, or the end (`Follows`). The token is then
read again, and what follows it is what is left (`read_again`).
-/

namespace PascalAtlas

/-! ## The characters of words -/

namespace Text

/-- Letters are characters of names. -/
theorem isIdentChar_of_isAlpha {c : Char} (hc : c.isAlpha = true) : isIdentChar c = true := by
  rw [isIdentChar, Char.isAlphanum, hc]
  rfl

theorem isIdentChar_of_isLower {c : Char} (hc : c.isLower = true) : isIdentChar c = true :=
  isIdentChar_of_isAlpha (Bool.or_eq_true_iff.2 (.inr hc))

/-- Characters of names are ASCII. -/
theorem range_of_isIdentChar {c : Char} (hc : isIdentChar c = true) :
    48 ≤ c.toNat ∧ c.toNat ≤ 122 := by
  unfold isIdentChar Char.isAlphanum Char.isAlpha Char.isUpper Char.isLower Char.isDigit at hc
  simp only [Bool.or_eq_true, Bool.and_eq_true, decide_eq_true_eq, UInt32.le_iff_toNat_le,
    beq_iff_eq] at hc
  obtain ((hc | hc) | hc) | rfl := hc
  · exact ⟨Nat.le_trans (by decide) hc.1, Nat.le_trans hc.2 (by decide)⟩
  · exact ⟨Nat.le_trans (by decide) hc.1, Nat.le_trans hc.2 (by decide)⟩
  · exact ⟨hc.1, Nat.le_trans hc.2 (by decide)⟩
  · decide

/-- No character of a name is a blank. -/
theorem isBlank_of_isIdentChar {c : Char} (hc : isIdentChar c = true) : isBlank c = false := by
  have hrange := range_of_isIdentChar hc
  simp only [isBlank, Bool.or_eq_false_iff, Bool.and_eq_false_iff, decide_eq_false_iff_not,
    beq_eq_false_iff_ne]
  omega

end Text

namespace Token

/-! ## What may follow -/

/-- What can stand **in place of** the text behind a token: a text that begins with the same
character, or with a space, or an empty one. -/
def Follows (rest rest' : Text) : Prop :=
  rest'.head? = rest.head? ∨ ∀ c ∈ rest'.head?, isSpace c = true

/-- What begins a text that follows, and is not a space, begins the text that was there. -/
theorem Follows.head? {rest rest' : Text} (h : Follows rest rest') {c : Char}
    (hc : rest'.head? = some c) (hspace : isSpace c = false) : rest.head? = some c := by
  rcases h with heq | hall
  · rw [← heq, hc]
  · rw [hall c hc] at hspace
    cases hspace

/-- What follows does not go on where the text did not. -/
theorem Follows.headIs {p : Char → Bool} (hp : ∀ c, p c = true → isSpace c = false)
    {rest rest' : Text} (h : Follows rest rest') (hrest : headIs p rest = false) :
    headIs p rest' = false := by
  cases rest' with
  | nil => rfl
  | cons c cs =>
    by_cases hc : p c = true
    · have hhead := h.head? (c := c) rfl (hp c hc)
      obtain ⟨ds, rfl⟩ := List.head?_eq_some_iff.1 hhead
      exact hrest
    · exact Bool.eq_false_iff.2 hc

/-- The head of a text and what follows stop what its old head and rest stopped. -/
theorem Follows.headIs_append {p : Char → Bool} (hp : ∀ c, p c = true → isSpace c = false)
    {tail rest rest' : Text} (h : Follows rest rest')
    (hrest : Token.headIs p (tail ++ rest) = false) :
    Token.headIs p (tail ++ rest') = false := by
  cases tail with
  | nil => exact h.headIs hp hrest
  | cons c tail => exact hrest

/-- The end may follow anything. -/
theorem follows_nil (rest : Text) : Follows rest [] := .inr (by simp)

/-- So may a space. -/
theorem follows_space {c : Char} (hc : isSpace c = true) (rest cs : Text) :
    Follows rest (c :: cs) :=
  .inr (by simpa using hc)

/-! ## Each way to read -/

/-- A way to read after `front` reads **the same token again** when other text follows it. -/
def Again (front : Text) (reader : Text → Reading) : Prop :=
  ∀ cs kind tail rest rest', reader cs = ⟨.token kind, front ++ tail, rest⟩ → Follows rest rest' →
    reader (tail ++ rest') = ⟨.token kind, front ++ tail, rest'⟩

theorem headIs_dropWhile (p : Char → Bool) (cs : Text) : headIs p (cs.dropWhile p) = false := by
  induction cs with
  | nil => rfl
  | cons c cs ih =>
    by_cases hc : p c = true
    · rwa [List.dropWhile_cons_of_pos hc]
    · rw [List.dropWhile_cons_of_neg hc]
      exact Bool.eq_false_iff.2 hc

/-- A run that is stopped by what follows ends there. -/
theorem takeWhile_append {p : Char → Bool} {a b : Text} (ha : ∀ c ∈ a, p c = true)
    (hb : headIs p b = false) : (a ++ b).takeWhile p = a ∧ (a ++ b).dropWhile p = b := by
  rw [List.takeWhile_append_of_pos ha, List.dropWhile_append_of_pos ha]
  cases b with
  | nil => simp
  | cons c cs =>
    have hc : p c = false := hb
    simp [hc]

/-- A run is **read again** before anything that stops it. -/
theorem again_readRun {p : Char → Bool} (hp : ∀ c, p c = true → isSpace c = false)
    (kind : Text → TokenKind) (front : Text) : Again front (readRun p kind front) := by
  intro cs k tail rest rest' h hfollows
  obtain ⟨hkind, htaken, rfl⟩ := Reading.mk.inj h
  obtain rfl : cs.takeWhile p = tail := List.append_cancel_left htaken
  have hstop := hfollows.headIs hp (headIs_dropWhile p cs)
  obtain ⟨htake, hdrop⟩ := takeWhile_append (List.all_eq_true.1 List.all_takeWhile) hstop
  rw [readRun, htake, hdrop, hkind]

/-- No quote follows a literal, or it would have gone on. -/
theorem not_quote_of_stringBody? {cs value taken rest : Text}
    (h : stringBody? cs = some (value, taken, rest)) : rest.head? ≠ some '\'' := by
  fun_induction stringBody? cs generalizing value taken rest with
  | case1 => simp at h
  | case2 cs ih =>
    obtain ⟨⟨v, t, r⟩, hb, heq⟩ := Option.map_eq_some_iff.1 h
    obtain ⟨-, -, rfl⟩ : _ ∧ _ ∧ r = rest := by simpa using heq
    exact ih hb
  | case3 cs hdouble =>
    obtain ⟨-, -, rfl⟩ : [] = value ∧ ['\''] = taken ∧ cs = rest := by simpa using h
    intro hhead
    obtain ⟨ds, rfl⟩ := List.head?_eq_some_iff.1 hhead
    exact hdouble ds rfl rfl
  | case4 => simp at h
  | case5 c cs _ _ _ ih =>
    obtain ⟨⟨v, t, r⟩, hb, heq⟩ := Option.map_eq_some_iff.1 h
    obtain ⟨-, -, rfl⟩ : _ ∧ _ ∧ r = rest := by simpa using heq
    exact ih hb

/-- A literal is read again before anything but a quote. -/
theorem stringBody?_again {cs value taken rest : Text}
    (h : stringBody? cs = some (value, taken, rest)) {rest' : Text}
    (hrest' : rest'.head? ≠ some '\'') :
    stringBody? (taken ++ rest') = some (value, taken, rest') := by
  fun_induction stringBody? cs generalizing value taken rest with
  | case1 => simp at h
  | case2 cs ih =>
    obtain ⟨⟨v, t, r⟩, hb, heq⟩ := Option.map_eq_some_iff.1 h
    obtain ⟨rfl, rfl, rfl⟩ : '\'' :: v = value ∧ '\'' :: '\'' :: t = taken ∧ r = rest := by
      simpa using heq
    rw [List.cons_append, List.cons_append, stringBody?, ih hb, Option.map_some]
  | case3 cs _ =>
    obtain ⟨rfl, rfl, rfl⟩ : [] = value ∧ ['\''] = taken ∧ cs = rest := by simpa using h
    -- The quote closes the literal again, since no other quote comes behind it.
    cases rest' with
    | nil => rfl
    | cons c cs' =>
      rw [List.cons_append, List.nil_append, stringBody?, if_pos rfl]
      intro ds _ heq
      rw [heq] at hrest'
      exact hrest' rfl
  | case4 => simp at h
  | case5 c cs hdouble hquote hline ih =>
    obtain ⟨⟨v, t, r⟩, hb, heq⟩ := Option.map_eq_some_iff.1 h
    obtain ⟨rfl, rfl, rfl⟩ : c :: v = value ∧ c :: t = taken ∧ r = rest := by simpa using heq
    rw [List.cons_append, stringBody?, if_neg hquote, if_neg hline, ih hb, Option.map_some]
    intro ds hc _
    exact hquote hc

/-- So is a literal as a whole. -/
theorem again_readString : Again ['\''] readString := by
  intro cs kind tail rest rest' h hfollows
  rw [readString] at h
  split at h
  next value taken r hbody =>
    obtain ⟨hkind, htaken, rfl⟩ := Reading.mk.inj h
    obtain rfl : taken = tail := (List.cons.inj htaken).2
    have hrest' : rest'.head? ≠ some '\'' := fun hc =>
      not_quote_of_stringBody? hbody (hfollows.head? hc (by decide))
    rw [readString, stringBody?_again hbody hrest', ← hkind]
    rfl
  next => cases (Reading.mk.inj h).1

/-- A class without the spaces in it stops at a space. -/
theorem not_isSpace {p : Char → Bool} (hp : ∀ c ∈ [' ', '\t', '\r', '\n', '\x0c'], p c = false)
    (c : Char) (hc : p c = true) : isSpace c = false := by
  by_cases hspace : isSpace c = true
  · have hmem : c ∈ [' ', '\t', '\r', '\n', '\x0c'] := by simpa [isSpace, or_assoc] using hspace
    rw [hp c hmem] at hc
    cases hc
  · exact Bool.eq_false_iff.2 hspace

theorem headIs_append {p q : Char → Bool} (hqp : ∀ c, q c = true → p c = true) {cs : Text}
    (hcs : headIs q cs = true) (rest' : Text) : headIs q (cs.takeWhile p ++ rest') = true := by
  cases cs with
  | nil => cases hcs
  | cons c cs =>
    have hc : p c = true := hqp c hcs
    rw [List.takeWhile_cons_of_pos hc]
    exact hcs

/-- A way to read that is a run **where the text begins with a character of the run**. -/
theorem again_of_run {p : Char → Bool} (hp : ∀ c ∈ [' ', '\t', '\r', '\n', '\x0c'], p c = false)
    (reader : Text → Reading) (kind : Text → TokenKind) (front : Text)
    (hreader : ∀ cs, headIs p cs = true → reader cs = readRun p kind front cs)
    {cs tail rest rest' : Text} {k : TokenKind} (hcs : headIs p cs = true)
    (h : reader cs = ⟨.token k, front ++ tail, rest⟩) (hfollows : Follows rest rest') :
    reader (tail ++ rest') = ⟨.token k, front ++ tail, rest'⟩ := by
  rw [hreader cs hcs] at h
  have htail : tail = cs.takeWhile p := (List.append_cancel_left (Reading.mk.inj h).2.1).symm
  have hhead : headIs p (tail ++ rest') = true := by
    rw [htail]
    exact headIs_append (fun _ => id) hcs rest'
  rw [hreader _ hhead]
  exact again_readRun (not_isSpace hp) kind front cs k tail rest rest' h hfollows

/-- A character code is read again. -/
theorem again_readCharCode : Again ['#'] readCharCode := by
  intro cs kind tail rest rest' h hfollows
  by_cases hdigit : headIs Char.isDigit cs = true
  · refine again_of_run (p := Char.isDigit) (by decide) _ .charCode ['#'] ?_ hdigit h hfollows
    intro cs hcs
    rw [readCharCode.eq_def, if_pos hcs]
  · rw [readCharCode.eq_def, if_neg hdigit] at h
    split at h
    next ds =>
      by_cases hhex : headIs isHexDigit ds = true
      · have hreader (ds : Text) (hds : headIs isHexDigit ds = true) :
            readCharCode ('$' :: ds) = readRun isHexDigit .charCode ['#', '$'] ds := by
          have hdollar : ¬ headIs Char.isDigit ('$' :: ds) = true :=
            (by decide : ¬ '$'.isDigit = true)
          rw [readCharCode, if_neg hdollar, if_pos hds]
        rw [if_pos hhex] at h
        obtain ⟨-, htaken, -⟩ := Reading.mk.inj h
        obtain rfl : '$' :: ds.takeWhile isHexDigit = tail := (List.cons.inj htaken).2
        exact again_of_run (by decide) (fun ds => readCharCode ('$' :: ds)) .charCode
          ['#', '$'] hreader hhex
          ((hreader ds hhex).trans h) hfollows
      · rw [if_neg hhex] at h
        cases (Reading.mk.inj h).1
    next => cases (Reading.mk.inj h).1

theorem isIdentChar_of_isIdentStart (c : Char) (hc : isIdentStart c = true) :
    Text.isIdentChar c = true := by
  rw [Text.isIdentChar, Char.isAlphanum]
  rcases (by simpa [isIdentStart] using hc : c.isAlpha = true ∨ c = '_') with h | h
  · simp [h]
  · simp [h]

/-- So is an escaped name. -/
theorem again_readEscaped : Again ['&'] readEscaped := by
  intro cs kind tail rest rest' h hfollows
  by_cases hstart : headIs isIdentStart cs = true
  · rw [readEscaped, if_pos hstart] at h
    obtain ⟨hkind, htaken, rfl⟩ := Reading.mk.inj h
    obtain rfl : cs.takeWhile Text.isIdentChar = tail := (List.cons.inj htaken).2
    have hstop := hfollows.headIs (not_isSpace (by decide)) (headIs_dropWhile Text.isIdentChar cs)
    obtain ⟨htake, hdrop⟩ := takeWhile_append (List.all_eq_true.1 List.all_takeWhile) hstop
    rw [readEscaped, if_pos (headIs_append isIdentChar_of_isIdentStart hstart rest'),
      htake, hdrop, hkind]
    rfl
  · rw [readEscaped, if_neg hstart] at h
    cases (Reading.mk.inj h).1

/-! ## Symbols -/

/-- No symbol is longer than two characters, and none has a space in it. -/
theorem spelling_short (s : Symbol) :
    s.spelling.toList.length ≤ 2 ∧ ∀ c ∈ s.spelling.toList, isSpace c = false := by
  cases s <;> decide

/-- A sign that goes one character beyond is found before what follows only if it was before. -/
theorem dropPrefix?_follows {needle front rest rest' : Text}
    (hlength : needle.length ≤ front.length + 1) (hspace : ∀ c ∈ needle, isSpace c = false)
    (hfollows : Follows rest rest') (h : (Text.dropPrefix? needle (front ++ rest')).isSome) :
    (Text.dropPrefix? needle (front ++ rest)).isSome := by
  induction front generalizing needle with
  | nil =>
    match needle with
    | [] => rfl
    | [d] =>
      -- Only the last character of the needle can stand in what follows, and it is no space.
      obtain ⟨after, hafter⟩ := Option.isSome_iff_exists.1 h
      have hrest' := dropPrefix?_eq_some hafter
      have hhead : rest.head? = some d :=
        hfollows.head? (by rw [← List.nil_append rest', ← hrest']; rfl)
          (hspace d (List.mem_singleton.2 rfl))
      obtain ⟨ds, rfl⟩ := List.head?_eq_some_iff.1 hhead
      simp [Text.dropPrefix?]
    | _ :: _ :: _ => simp at hlength
  | cons c front ih =>
    match needle with
    | [] => rfl
    | d :: needle =>
      rw [List.cons_append, Text.dropPrefix?] at h ⊢
      by_cases hdc : d = c
      · rw [if_pos hdc] at h ⊢
        exact ih (by simpa using hlength) (fun e he => hspace e (List.mem_cons_of_mem _ he)) h
      · rw [if_neg hdc] at h
        cases h

theorem dropPrefix?_append (front rest : Text) :
    Text.dropPrefix? front (front ++ rest) = some rest := by
  induction front with
  | nil => rfl
  | cons c front ih => rw [List.cons_append, Text.dropPrefix?, if_pos rfl, ih]

/-- So the longest symbol stays the longest. -/
theorem symbol?_again {front rest rest' : Text} {s : Symbol} (hfront : front = s.spelling.toList)
    (h : symbol? (front ++ rest) = some (s, rest)) (hfollows : Follows rest rest') :
    symbol? (front ++ rest') = some (s, rest') := by
  obtain ⟨before, s', after, hall, hs', hbefore⟩ := List.findSome?_eq_some_iff.1 h
  have hlength : 1 ≤ front.length := by
    rw [hfront]
    exact List.length_pos_iff.2 (by simpa using spelling_ne_empty s)
  obtain ⟨r, hdrop, heq⟩ := Option.map_eq_some_iff.1 hs'
  obtain ⟨rfl, rfl⟩ : s' = s ∧ r = rest := by simpa using heq
  refine List.findSome?_eq_some_iff.2 ⟨before, s', after, hall, ?_, ?_⟩
  · rw [hfront, dropPrefix?_append]
    rfl
  · -- A symbol that would now be found sooner would have been found before.
    intro x hx
    obtain ⟨hshort, hspace⟩ := spelling_short x
    have hnone := Option.map_eq_none_iff.1 (hbefore x hx)
    cases hx' : Text.dropPrefix? x.spelling.toList (front ++ rest') with
    | none => rfl
    | some r' =>
      have hsome := dropPrefix?_follows (by omega) hspace hfollows
        (Option.isSome_iff_exists.2 ⟨r', hx'⟩)
      rw [hnone] at hsome
      cases hsome

/-- And a symbol is read again. -/
theorem again_readSymbol (c : Char) : Again [c] (readSymbol c) := by
  intro cs kind tail rest rest' h hfollows
  rw [readSymbol] at h
  split at h
  next s r hsymbol =>
    obtain ⟨hkind, htaken, rfl⟩ := Reading.mk.inj h
    have hwhole : [c] ++ tail ++ r = c :: cs := by rw [← htaken]; exact symbol?_eq_some hsymbol
    have hagain := symbol?_again htaken.symm (hwhole ▸ hsymbol) hfollows
    rw [readSymbol]
    rw [List.append_assoc, List.singleton_append] at hagain
    rw [hagain, ← hkind, ← htaken]
  next => cases (Reading.mk.inj h).1

/-! ## All of them -/

/-- Whether a comment of more than one sign begins with `c`. -/
def opensComment (c : Char) (cs : Text) : Bool :=
  c == '(' && headIs (· == '*') cs || c == '/' && headIs (· == '/') cs

/-- The **ways to read** a text that begins with `c`. -/
inductive ReadAs : Char → Text → Reading → Prop
  | space {c : Char} {cs : Text} (hc : isSpace c = true) :
    ReadAs c cs ⟨.skip, c :: cs.takeWhile isSpace, cs.dropWhile isSpace⟩
  | word {c : Char} {cs : Text} (hc : isIdentStart c = true) :
    ReadAs c cs (readRun Text.isIdentChar wordKind [c] cs)
  | number {c : Char} {cs : Text} (hc : c.isDigit = true) :
  ReadAs c cs (readRun Char.isDigit .number [c] cs)
  | string {cs : Text} : ReadAs '\'' cs (readString cs)
  | braced {cs : Text} : ReadAs '{' cs (readComment ['{'] ['}'] cs)
  | code {cs : Text} : ReadAs '#' cs (readCharCode cs)
  | escaped {cs : Text} : ReadAs '&' cs (readEscaped cs)
  | hex {cs : Text} : ReadAs '$' cs (readRun isHexDigit .number ['$'] cs)
  | starred {ds : Text} : ReadAs '(' ('*' :: ds) (readComment ['(', '*'] ['*', ')'] ds)
  | line {ds : Text} :
    ReadAs '/' ('/' :: ds)
      ⟨.skip, '/' :: '/' :: ds.takeWhile (· != '\n'), ds.dropWhile (· != '\n')⟩
  | symbol {c : Char} {cs : Text} (hcomment : opensComment c cs = false) :
      ReadAs c cs (readSymbol c cs)

/-- **How a token is read** is told by how it begins. -/
theorem readAs_read (c : Char) (cs : Text) : ReadAs c cs (read c cs) := by
  unfold read
  repeat' split
  next h => exact .space h
  next h => exact .word h
  next h => exact .number h
  next h => subst h; exact .string
  next h => subst h; exact .braced
  next h => subst h; exact .code
  next h => subst h; exact .escaped
  next h =>
    obtain ⟨rfl, -⟩ : c = '$' ∧ headIs isHexDigit cs = true := by simpa using h
    exact .hex
  next => exact .starred
  next => exact .line
  next hparen hslash =>
    refine .symbol ?_
    cases cs with
    | nil => simp [opensComment, headIs]
    | cons d ds =>
      have h1 : ¬ (c = '(' ∧ d = '*') := fun h => hparen ds h.1 (by rw [h.2])
      have h2 : ¬ (c = '/' ∧ d = '/') := fun h => hslash ds h.1 (by rw [h.2])
      simpa [opensComment, headIs] using And.intro (not_and.1 h1) (not_and.1 h2)

/-- The characters that can only begin a symbol or a comment of two signs. -/
def isSign (c : Char) : Bool :=
  !(isSpace c || isIdentStart c || c.isDigit || c == '\'' || c == '{' || c == '#' || c == '&')

/-- A sign that begins nothing else is read as a symbol. -/
theorem read_symbol {c : Char} (hc : isSign c = true) {cs : Text}
    (hnumber : (c = '$' && headIs isHexDigit cs) = false) (hcomment : opensComment c cs = false) :
    read c cs = readSymbol c cs := by
  have h : isSpace c = false ∧ isIdentStart c = false ∧ c.isDigit = false ∧ c ≠ '\'' ∧ c ≠ '{'
      ∧ c ≠ '#' ∧ c ≠ '&' := by
    simpa [isSign, and_assoc] using hc
  obtain ⟨h1, h2, h3, h4, h5, h6, h7⟩ := h
  unfold read
  rw [h1, h2, h3, hnumber, if_neg h4, if_neg h5, if_neg h6, if_neg h7]
  simp only [Bool.false_eq_true, if_false]
  split
  · cases hcomment
  · cases hcomment
  · rfl

/-- What follows opens no comment that was not open. -/
theorem opensComment_follows {c : Char} {tail rest rest' : Text} (h : Follows rest rest')
    (hrest : opensComment c (tail ++ rest) = false) : opensComment c (tail ++ rest') = false := by
  simp only [opensComment, Bool.or_eq_false_iff, Bool.and_eq_false_iff] at hrest ⊢
  refine ⟨hrest.1.imp id (h.headIs_append (not_isSpace (by decide))), ?_⟩
  exact hrest.2.imp id (h.headIs_append (not_isSpace (by decide)))

/-- Where a comment opens no token is read. -/
theorem lexeme_of_opensComment {c : Char} {cs : Text} (h : opensComment c cs = true)
    (kind : TokenKind) :
    (read c cs).lexeme ≠ .token kind := by
  cases cs with
  | nil => simp [opensComment, headIs] at h
  | cons d ds =>
    rcases (by simpa [opensComment, headIs] using h : c = '(' ∧ d = '*' ∨ c = '/' ∧ d = '/')
      with ⟨rfl, rfl⟩ | ⟨rfl, rfl⟩
    · show (readComment ['(', '*'] ['*', ')'] ds).lexeme ≠ _
      rw [readComment]
      split <;> simp
    · exact Lexeme.noConfusion

theorem lexeme_readSymbol_dollar (cs : Text) (kind : TokenKind) :
    (readSymbol '$' cs).lexeme ≠ .token kind := by
  have hnone : symbol? ('$' :: cs) = none := by
    rfl
  rw [readSymbol, hnone]
  exact Lexeme.noConfusion

/-- Spaces are skipped together. -/
theorem read_of_isSpace {c : Char} (hc : isSpace c = true) (cs : Text) :
    read c cs = ⟨.skip, c :: cs.takeWhile isSpace, cs.dropWhile isSpace⟩ := by
  rw [read.eq_def, if_pos hc]

/-- **A token is read again** whatever follows it now. -/
theorem again_read (c : Char) : Again [c] (read c) := by
  intro cs kind tail rest rest' h hfollows
  -- The cases are those of the reader. In most of them one of the lemmas above says that the
  -- token is read again.
  by_cases hspace : isSpace c = true
  · rw [read_of_isSpace hspace] at h
    cases (Reading.mk.inj h).1
  by_cases hstart : isIdentStart c = true
  · have hreader (cs : Text) : read c cs = readRun Text.isIdentChar wordKind [c] cs := by
      rw [read.eq_def, if_neg hspace, if_pos hstart]
    rw [hreader] at h ⊢
    exact again_readRun (not_isSpace (by decide)) _ _ cs kind tail rest rest' h hfollows
  by_cases hdigit : c.isDigit = true
  · have hreader (cs : Text) : read c cs = readRun Char.isDigit .number [c] cs := by
      rw [read.eq_def, if_neg hspace, if_neg hstart, if_pos hdigit]
    rw [hreader] at h ⊢
    exact again_readRun (not_isSpace (by decide)) _ _ cs kind tail rest rest' h hfollows
  by_cases hquote : c = '\''
  · subst hquote
    exact again_readString cs kind tail rest rest' h hfollows
  by_cases hbrace : c = '{'
  · subst hbrace
    have hreader (cs : Text) : read '{' cs = readComment ['{'] ['}'] cs := rfl
    rw [hreader, readComment] at h
    split at h <;> cases (Reading.mk.inj h).1
  by_cases hcode : c = '#'
  · subst hcode
    exact again_readCharCode cs kind tail rest rest' h hfollows
  by_cases hescape : c = '&'
  · subst hescape
    exact again_readEscaped cs kind tail rest rest' h hfollows
  have hsign : isSign c = true := by
    simp [isSign, hspace, hstart, hdigit, hquote, hbrace, hcode, hescape]
  by_cases hnumber : (c = '$' && headIs isHexDigit cs) = true
  · obtain ⟨rfl, hhex⟩ : c = '$' ∧ headIs isHexDigit cs = true := by simpa using hnumber
    refine again_of_run (p := isHexDigit) (by decide) _ .number ['$'] ?_ hhex h hfollows
    intro ds hds
    rw [read.eq_def, if_neg hspace, if_neg hstart, if_neg hdigit, if_neg hquote, if_neg hbrace,
      if_neg hcode, if_neg hescape, if_pos (by rw [hds]; decide)]
  -- A sign is left. Nothing is opened by it with what followed it, and so nothing with
  -- what follows it now.
  have hnotcomment : opensComment c cs = false := by
    by_cases hopens : opensComment c cs = true
    · exact absurd (h ▸ rfl) (lexeme_of_opensComment hopens kind)
    · exact Bool.eq_false_iff.2 hopens
  rw [read_symbol hsign (Bool.eq_false_iff.2 hnumber) hnotcomment] at h
  have hdollar : c ≠ '$' := by
    rintro rfl
    exact absurd (h ▸ rfl) (lexeme_readSymbol_dollar cs kind)
  have hcs : cs = tail ++ rest := by
    have hwhole := whole_readSymbol c cs
    rw [h] at hwhole
    exact (List.cons.inj hwhole).2.symm
  have hcomment' : opensComment c (tail ++ rest') = false := by
    rw [hcs] at hnotcomment
    exact opensComment_follows hfollows hnotcomment
  rw [read_symbol hsign (by simp [hdollar]) hcomment']
  exact again_readSymbol c cs kind tail rest rest' h hfollows

/-! ## In the tokens of a text -/

/-- What is skipped is passed over. -/
theorem lexFrom_skip {c : Char} {cs taken rest : Text} (h : read c cs = ⟨.skip, taken, rest⟩)
    (pos : Nat) :
    lexFrom pos (c :: cs) = lexFrom (pos + Text.size taken) rest := by
  rw [lexFrom]
  simp only [h]

/-- A token comes first, and then the tokens of the rest. -/
theorem lexFrom_token {c : Char} {cs taken rest : Text} {kind : TokenKind}
    (h : read c cs = ⟨.token kind, taken, rest⟩) (pos : Nat) :
    lexFrom pos (c :: cs)
      = (lexFrom (pos + Text.size taken) rest).map (⟨kind, pos, pos + Text.size taken⟩ :: ·) := by
  rw [lexFrom]
  simp only [h]

/-- A fault ends the reading. -/
theorem lexFrom_fault {c : Char} {cs taken rest : Text} {cause : LexFault}
    (h : read c cs = ⟨.fault cause, taken, rest⟩) (pos : Nat) :
    lexFrom pos (c :: cs) = .error ⟨cause, pos, pos + Text.size taken⟩ := by
  rw [lexFrom]
  simp only [h]

/-- All the spaces in front of a text are skipped at once. -/
theorem lexFrom_dropWhile (pos : Nat) (t : Text) :
    lexFrom pos t = lexFrom (pos + Text.size (t.takeWhile isSpace)) (t.dropWhile isSpace) := by
  cases t with
  | nil => rfl
  | cons c cs =>
    by_cases hc : isSpace c = true
    · rw [lexFrom_skip (read_of_isSpace hc cs), List.takeWhile_cons_of_pos hc,
        List.dropWhile_cons_of_pos hc]
    · rw [List.takeWhile_cons_of_neg hc, List.dropWhile_cons_of_neg hc]
      rfl

/-- **Spaces only move what follows them.** -/
theorem lexFrom_spaces {spaces : Text} (h : ∀ c ∈ spaces, isSpace c = true) (pos : Nat) (t : Text) :
    lexFrom pos (spaces ++ t) = lexFrom (pos + Text.size spaces) t := by
  rw [lexFrom_dropWhile pos, List.takeWhile_append_of_pos h, List.dropWhile_append_of_pos h,
    Text.size_append, ← Nat.add_assoc, ← lexFrom_dropWhile]

end Token

end PascalAtlas
