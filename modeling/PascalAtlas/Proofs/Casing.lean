import PascalAtlas.Proofs.Neighbour
import PascalAtlas.Proofs.Seen

/-!
# Capitals and small letters

What is read from a text in small letters is what is read from the text, in small letters
(`lexFrom_lower`). A step of the reader asks of a character only whether it is a space, a digit, a
letter and so on, or whether it is one of the signs of the language, and none of these tests tells a
capital from its small letter (`test_toLower`). Nor does the number of bytes. So two texts that
differ in the case of ASCII letters only have tokens in the same places, and to the grammar they
look the same (`lex_recased`).
-/

namespace PascalAtlas

open List (Forall₂)

/-! ## One character -/

/-- The ASCII capitals. -/
def capitals : List Char :=
  (List.range 26).map fun n => Char.ofNat (65 + n)

/-- A character is changed only if it is a capital. -/
theorem toLower_cases (c : Char) : c.toLower = c ∨ c ∈ capitals := by
  by_cases hc : 'A'.val ≤ c.val ∧ c.val ≤ 'Z'.val
  · right
    have hle : 65 ≤ c.toNat := UInt32.le_iff_toNat_le.1 hc.1
    have hge : c.toNat ≤ 90 := UInt32.le_iff_toNat_le.1 hc.2
    refine List.mem_map.2 ⟨c.toNat - 65, List.mem_range.2 (by omega), ?_⟩
    rw [show 65 + (c.toNat - 65) = c.toNat by omega, Char.ofNat_toNat]
  · exact .inl (dif_neg hc)

/-- A test that does not tell the capitals from their small letters ignores case altogether. -/
theorem test_toLower {α : Type} (p : Char → α) (hp : ∀ c ∈ capitals, p c.toLower = p c) (c : Char) :
    p c.toLower = p c := by
  rcases toLower_cases c with hc | hc
  · rw [hc]
  · exact hp c hc

/-- Whether a character is **no letter**: neither a capital nor the small letter of one. -/
def Uncased (d : Char) : Prop :=
  ∀ c ∈ capitals, c ≠ d ∧ c.toLower ≠ d

instance (d : Char) : Decidable (Uncased d) :=
  inferInstanceAs (Decidable (∀ c ∈ capitals, c ≠ d ∧ c.toLower ≠ d))

/-- A sign that is no letter stays itself, and no letter becomes it. -/
theorem toLower_eq_iff {d : Char} (hd : Uncased d) (c : Char) : c.toLower = d ↔ c = d := by
  have htest := test_toLower (fun c => decide (c = d))
    (fun c hc => by rw [decide_eq_false (hd c hc).1, decide_eq_false (hd c hc).2]) c
  exact decide_eq_decide.1 htest

namespace Text

@[simp] theorem lower_nil : lower [] = [] := rfl

@[simp] theorem lower_cons (c : Char) (cs : Text) : lower (c :: cs) = c.toLower :: lower cs := rfl

@[simp] theorem lower_append (a b : Text) : lower (a ++ b) = lower a ++ lower b := List.map_append

/-- A text without letters is in lower case. -/
theorem lower_eq_self {t : Text} (ht : ∀ c ∈ t, Uncased c) : lower t = t := by
  refine (List.map_congr_left fun c hc => ?_).trans (List.map_id t)
  exact (toLower_eq_iff (ht c hc) c).2 rfl

/-- Case does not change the number of bytes. -/
@[simp] theorem size_lower (t : Text) : size (lower t) = size t := by
  induction t with
  | nil => rfl
  | cons c cs ih =>
    have hc : c.toLower.utf8Size = c.utf8Size := test_toLower Char.utf8Size (by decide) c
    rw [lower_cons, size, hc, ih, size]

/-- A run of characters ends in the same place. -/
theorem takeWhile_lower {p : Char → Bool} (hp : ∀ c, p c.toLower = p c) (t : Text) :
    (lower t).takeWhile p = lower (t.takeWhile p) := by
  rw [lower, List.takeWhile_map, show p ∘ Char.toLower = p from funext hp, lower]

/-- And what follows it begins there. -/
theorem dropWhile_lower {p : Char → Bool} (hp : ∀ c, p c.toLower = p c) (t : Text) :
    (lower t).dropWhile p = lower (t.dropWhile p) := by
  rw [lower, List.dropWhile_map, show p ∘ Char.toLower = p from funext hp, lower]

/-- The end of a line stays where it is. -/
theorem line_lower (t : Text) :
    (lower t).takeWhile (· != '\n') = lower (t.takeWhile (· != '\n'))
      ∧ (lower t).dropWhile (· != '\n') = lower (t.dropWhile (· != '\n')) := by
  have hline : ∀ c : Char, (c.toLower != '\n') = (c != '\n') := test_toLower (· != '\n') (by decide)
  exact ⟨takeWhile_lower (p := (· != '\n')) hline t, dropWhile_lower (p := (· != '\n')) hline t⟩

/-- A sign at the front is found in either case. -/
theorem dropPrefix?_lower {front : Text} (hfront : ∀ c ∈ front, Uncased c) (t : Text) :
    dropPrefix? front (lower t) = (dropPrefix? front t).map lower := by
  induction front generalizing t with
  | nil => rfl
  | cons d ds ih =>
    cases t with
    | nil => rfl
    | cons c cs =>
      have hd : d = c.toLower ↔ d = c := by
        rw [eq_comm, toLower_eq_iff (hfront d (List.mem_cons_self ..)), eq_comm]
      simp only [lower_cons, dropPrefix?, hd]
      split
      · exact ih (fun e he => hfront e (List.mem_cons_of_mem _ he)) cs
      · rfl

/-- A sign that ends a comment is found in the same place. -/
theorem cut?_lower {needle : Text} (hneedle : ∀ c ∈ needle, Uncased c) (t : Text) :
    cut? needle (lower t) = (cut? needle t).map fun parts => (lower parts.1, lower parts.2) := by
  induction t with
  | nil =>
    rw [lower_nil, cut?]
    split <;> rfl
  | cons c cs ih =>
    have hprefix := dropPrefix?_lower hneedle (c :: cs)
    rw [lower_cons] at hprefix ⊢
    rw [cut?, cut?, hprefix]
    cases dropPrefix? needle (c :: cs) with
    | some rest => rfl
    | none =>
      simp only [Option.map_none, ih, Option.map_map]
      rfl

end Text

/-! ## Tokens in small letters -/

/-- The kind with the text that it carries in small letters. -/
def TokenKind.lower : TokenKind → TokenKind
  | .ident name => .ident (Text.lower name)
  | .number digits => .number (Text.lower digits)
  | .str value => .str (Text.lower value)
  | .charCode code => .charCode (Text.lower code)
  | k => k

/-- The grammar does not see the case of a token. -/
theorem TokenKind.seen_lower (k : TokenKind) : k.lower.seen = k.seen := by
  cases k with
  | ident name => exact congrArg TokenKind.ident (lower_lower name)
  | _ => rfl

namespace Token

/-- The token with the text that it carries in small letters. -/
def lower (t : Token) : Token :=
  ⟨t.kind.lower, t.start, t.stop⟩

/-- The lexeme in small letters. -/
def Lexeme.lower : Lexeme → Lexeme
  | .skip => .skip
  | .token kind => .token kind.lower
  | .fault cause => .fault cause

/-- The reading in small letters. -/
def Reading.lower (r : Reading) : Reading :=
  ⟨r.lexeme.lower, Text.lower r.taken, Text.lower r.rest⟩

/-! ## One step -/

/-- A reserved word is one **in any case**. -/
theorem wordKind_lower (word : Text) : wordKind (Text.lower word) = (wordKind word).lower := by
  have hword : Keyword.ofWord? (Text.lower word) = Keyword.ofWord? word := by
    rw [Keyword.ofWord?, TokenKind.lower_lower, Keyword.ofWord?]
  rw [wordKind, hword, wordKind]
  cases Keyword.ofWord? word <;> rfl

theorem headIs_lower {p : Char → Bool} (hp : ∀ c, p c.toLower = p c) (t : Text) :
    headIs p (Text.lower t) = headIs p t := by
  cases t with
  | nil => rfl
  | cons c cs => exact hp c

/-- A run is read in lower case as it is read. -/
theorem readRun_lower {p : Char → Bool} (hp : ∀ c, p c.toLower = p c) {kind : Text → TokenKind}
    (hkind : ∀ word, kind (Text.lower word) = (kind word).lower) (front cs : Text) :
    readRun p kind (Text.lower front) (Text.lower cs) = (readRun p kind front cs).lower := by
  rw [readRun, Text.takeWhile_lower hp, Text.dropWhile_lower hp, ← Text.lower_append, hkind]
  rfl

/-- A literal ends in the same place. -/
theorem stringBody?_lower (cs : Text) :
    stringBody? (Text.lower cs)
      = (stringBody? cs).map fun parts =>
        (Text.lower parts.1, Text.lower parts.2.1, Text.lower parts.2.2) := by
  have hquote := toLower_eq_iff (d := '\'') (by decide)
  fun_induction stringBody? cs with
  | case1 => rfl
  | case2 cs ih =>
    simp only [Text.lower_cons, (hquote '\'').2 rfl, stringBody?, ih, Option.map_map]
    rfl
  | case3 cs hdouble =>
    rw [Text.lower_cons, (hquote '\'').2 rfl, stringBody?, if_pos rfl]
    · rfl
    · -- A quote behind the quote would be one in the text too.
      intro ds _ hds
      cases cs with
      | nil => cases hds
      | cons c cs =>
        obtain ⟨hc, -⟩ := List.cons.inj hds
        exact hdouble cs rfl (by rw [(hquote c).1 hc])
  | case4 => rfl
  | case5 c cs _ hc hline ih =>
    have hc' := mt (hquote c).1 hc
    have hline' := mt (toLower_eq_iff (d := '\n') (by decide) c).1 hline
    rw [Text.lower_cons, stringBody?, if_neg hc', if_neg hline', ih, Option.map_map, Option.map_map]
    · rfl
    · exact fun ds h _ => hc' h

/-- So a literal is read in lower case as it is read. -/
theorem readString_lower (cs : Text) : readString (Text.lower cs) = (readString cs).lower := by
  obtain ⟨htake, hdrop⟩ := Text.line_lower cs
  rw [readString, stringBody?_lower, readString]
  cases stringBody? cs with
  | some parts => rfl
  | none =>
    simp only [Option.map_none, htake, hdrop]
    rfl

/-- So is a comment. -/
theorem readComment_lower {opening closing : Text} (hopening : ∀ c ∈ opening, Uncased c)
    (hclosing : ∀ c ∈ closing, Uncased c) (cs : Text) :
    readComment opening closing (Text.lower cs) = (readComment opening closing cs).lower := by
  rw [readComment, Text.cut?_lower hclosing, readComment]
  cases Text.cut? closing cs with
  | some parts =>
    simp [Reading.lower, Lexeme.lower, Text.lower_eq_self hopening, Text.lower_eq_self hclosing]
  | none => simp [Reading.lower, Lexeme.lower, Text.lower_eq_self hopening]

/-- No symbol is spelled with a letter. -/
theorem uncased_spelling (s : Symbol) : ∀ c ∈ s.spelling.toList, Uncased c := by
  cases s <;> decide

/-- So the same symbol is found in either case. -/
theorem symbol?_lower (t : Text) :
    symbol? (Text.lower t) = (symbol? t).map fun found => (found.1, Text.lower found.2) := by
  rw [symbol?, symbol?, List.map_findSome?]
  congr 1
  funext s
  simp only [Text.dropPrefix?_lower (uncased_spelling s), Option.map_map, Function.comp_def]

/-- A character that begins no symbol is reported as it is, so it must not be a letter here. -/
theorem readSymbol_lower {c : Char} (hc : isIdentStart c = false) (cs : Text) :
    readSymbol c.toLower (Text.lower cs) = (readSymbol c cs).lower := by
  have hsame : c.toLower = c := by
    rcases toLower_cases c with hsame | hcapital
    · exact hsame
    · have hletter : ∀ d ∈ capitals, isIdentStart d = true := by decide
      rw [hletter c hcapital] at hc
      cases hc
  have hsymbol := symbol?_lower (c :: cs)
  rw [Text.lower_cons] at hsymbol
  rw [readSymbol, hsymbol, readSymbol]
  cases symbol? (c :: cs) with
  | some found =>
    simp [Reading.lower, Lexeme.lower, TokenKind.lower,
      Text.lower_eq_self (uncased_spelling found.1)]
  | none => simp [Reading.lower, Lexeme.lower, hsame]

theorem isDigit_toLower (c : Char) :
    c.toLower.isDigit = c.isDigit := test_toLower Char.isDigit (by decide) c

/-- The digits beyond nine come in both cases. -/
theorem isHexDigit_toLower (c : Char) :
    isHexDigit c.toLower = isHexDigit c := test_toLower isHexDigit (by decide) c

theorem isIdentStart_toLower (c : Char) : isIdentStart c.toLower = isIdentStart c :=
  test_toLower isIdentStart (by decide) c

theorem isIdentChar_toLower (c : Char) : Text.isIdentChar c.toLower = Text.isIdentChar c :=
  test_toLower Text.isIdentChar (by decide) c

/-- A character code is read in lower case as it is read. -/
theorem readCharCode_lower (cs : Text) :
    readCharCode (Text.lower cs) = (readCharCode cs).lower := by
  rw [readCharCode.eq_def, headIs_lower isDigit_toLower, readCharCode.eq_def cs]
  by_cases hdigit : headIs Char.isDigit cs = true
  · rw [if_pos hdigit, if_pos hdigit]
    exact readRun_lower isDigit_toLower (fun _ => rfl) ['#'] cs
  rw [if_neg hdigit, if_neg hdigit]
  by_cases hdollar : cs.head? = some '$'
  · obtain ⟨ds, rfl⟩ := List.head?_eq_some_iff.1 hdollar
    show (if headIs isHexDigit (Text.lower ds) then _ else _)
      = Reading.lower (if headIs isHexDigit ds then _ else _)
    rw [headIs_lower isHexDigit_toLower]
    by_cases hhex : headIs isHexDigit ds = true
    · rw [if_pos hhex, if_pos hhex]
      exact readRun_lower isHexDigit_toLower (fun _ => rfl) ['#', '$'] ds
    · rw [if_neg hhex, if_neg hhex]
      rfl
  · -- Without a `$` the sign stands alone, in both texts.
    have hlower : ∀ ds, Text.lower cs ≠ '$' :: ds := by
      rintro ds hds
      obtain ⟨c, cs', rfl, hc, -⟩ := List.map_eq_cons_iff.1 hds
      exact hdollar (congrArg some ((toLower_eq_iff (by decide) c).1 hc))
    split
    next ds hds => exact absurd hds (hlower ds)
    next =>
      split
      next => exact absurd rfl hdollar
      next => rfl

/-- So is an escaped name. -/
theorem readEscaped_lower (cs : Text) : readEscaped (Text.lower cs) = (readEscaped cs).lower := by
  rw [readEscaped, headIs_lower isIdentStart_toLower, readEscaped,
    Text.takeWhile_lower isIdentChar_toLower, Text.dropWhile_lower isIdentChar_toLower]
  split <;> rfl

/-- Whether a comment begins does not depend on the case. -/
theorem opensComment_lower (c : Char) (cs : Text) :
    opensComment c.toLower (Text.lower cs) = opensComment c cs := by
  have hparen := test_toLower (· == '(') (by decide) c
  have hslash := test_toLower (· == '/') (by decide) c
  have hstar := headIs_lower (p := (· == '*')) (test_toLower (· == '*') (by decide)) cs
  have hslash' := headIs_lower (p := (· == '/')) (test_toLower (· == '/') (by decide)) cs
  simp only [opensComment, hparen, hslash, hstar, hslash']

/-- **One step in small letters.** -/
theorem read_lower (c : Char) (cs : Text) : read c.toLower (Text.lower cs) = (read c cs).lower := by
  have hspaces := test_toLower isSpace (by decide)
  by_cases hspace : isSpace c = true
  · rw [read_of_isSpace hspace, read_of_isSpace ((hspaces c).trans hspace),
      Text.takeWhile_lower hspaces, Text.dropWhile_lower hspaces]
    rfl
  by_cases hstart : isIdentStart c = true
  · rw [read.eq_def, hspaces, if_neg hspace, isIdentStart_toLower, if_pos hstart, read.eq_def c,
      if_neg hspace, if_pos hstart]
    exact readRun_lower isIdentChar_toLower wordKind_lower [c] cs
  by_cases hdigit : c.isDigit = true
  · rw [read.eq_def, hspaces, if_neg hspace, isIdentStart_toLower, if_neg hstart, isDigit_toLower,
      if_pos hdigit, read.eq_def c, if_neg hspace, if_neg hstart, if_pos hdigit]
    exact readRun_lower isDigit_toLower (fun _ => rfl) [c] cs
  -- The signs that follow are their own small letters, so both sides compute to the
  -- same way of reading.
  by_cases hquote : c = '\''
  · subst hquote
    exact readString_lower cs
  by_cases hbrace : c = '{'
  · subst hbrace
    exact readComment_lower (by decide) (by decide) cs
  by_cases hcode : c = '#'
  · subst hcode
    exact readCharCode_lower cs
  by_cases hescape : c = '&'
  · subst hescape
    exact readEscaped_lower cs
  by_cases hnumber : (c = '$' && headIs isHexDigit cs) = true
  · obtain ⟨rfl, hhex⟩ : c = '$' ∧ headIs isHexDigit cs = true := by simpa using hnumber
    have hread (ds : Text) (hds : headIs isHexDigit ds = true) :
        read '$' ds = readRun isHexDigit .number ['$'] ds := if_pos hds
    have hhex' : headIs isHexDigit (Text.lower cs) = true := by
      rw [headIs_lower isHexDigit_toLower, hhex]
    rw [hread cs hhex]
    exact (hread _ hhex').trans (readRun_lower isHexDigit_toLower (fun _ => rfl) ['$'] cs)
  by_cases hcomment : opensComment c cs = true
  · cases cs with
    | nil => simp [opensComment, headIs] at hcomment
    | cons d ds =>
      rcases (by simpa [opensComment,
          headIs] using hcomment : c = '(' ∧ d = '*' ∨ c = '/' ∧ d = '/')
        with ⟨rfl, rfl⟩ | ⟨rfl, rfl⟩
      · exact readComment_lower (by decide) (by decide) ds
      · obtain ⟨htake, hdrop⟩ := Text.line_lower ds
        show Reading.mk _ ('/' :: '/' :: (Text.lower ds).takeWhile (· != '\n'))
          ((Text.lower ds).dropWhile (· != '\n')) = _
        rw [htake, hdrop]
        rfl
  · -- Only symbols are left, and a symbol cannot begin with a letter.
    have hsign : isSign c = true := by
      simp [isSign, hspace, hstart, hdigit, hquote, hbrace, hcode, hescape]
    have hsign' : isSign c.toLower = true := by rw [test_toLower isSign (by decide), hsign]
    have hnumber' : (c.toLower = '$' && headIs isHexDigit (Text.lower cs)) = false := by
      rw [headIs_lower isHexDigit_toLower]
      simpa only [toLower_eq_iff (d := '$') (by decide)] using Bool.eq_false_iff.2 hnumber
    have hcomment' : opensComment c.toLower (Text.lower cs) = false := by
      rw [opensComment_lower, Bool.eq_false_iff.2 hcomment]
    rw [read_symbol hsign' hnumber' hcomment', read_symbol hsign (Bool.eq_false_iff.2 hnumber)
      (Bool.eq_false_iff.2 hcomment)]
    exact readSymbol_lower (Bool.eq_false_iff.2 hstart) cs

/-! ## The whole text -/

/-- **What is read in small letters** is what is read, in small letters. A
fault is the same fault. -/
theorem lexFrom_lower (pos : Nat) (t : Text) :
    lexFrom pos (Text.lower t) = (lexFrom pos t).map (List.map lower) := by
  induction pos, t using lexFrom.induct with
  | case1 pos => rw [Text.lower_nil, lexFrom]; rfl
  | case2 pos c cs r stop hskip ih =>
    have hread : read c cs = ⟨.skip, r.taken, r.rest⟩ := by rw [← hskip]
    have hread' := read_lower c cs
    rw [hread] at hread'
    rw [Text.lower_cons, lexFrom_skip hread', lexFrom_skip hread, Text.size_lower]
    exact ih
  | case3 pos c cs r stop kind htoken ih =>
    have hread : read c cs = ⟨.token kind, r.taken, r.rest⟩ := by rw [← htoken]
    have hread' := read_lower c cs
    rw [hread] at hread'
    rw [Text.lower_cons, lexFrom_token hread', lexFrom_token hread, Text.size_lower, ih]
    cases lexFrom (pos + Text.size r.taken) r.rest <;> rfl
  | case4 pos c cs r cause hfault =>
    have hread : read c cs = ⟨.fault cause, r.taken, r.rest⟩ := by rw [← hfault]
    have hread' := read_lower c cs
    rw [hread] at hread'
    rw [Text.lower_cons, lexFrom_fault hread', lexFrom_fault hread, Text.size_lower]
    rfl

/-- Texts that differ in the **case of ASCII letters** only have tokens in the same
places, which look alike. -/
theorem lex_recased {src src' : Text} {tokens : List Token}
    (hcase : Text.lower src' = Text.lower src) (h : lex src = .ok tokens) :
    ∃ tokens', lex src' = .ok tokens' ∧ tokens'.map lower = tokens.map lower := by
  have hlower := lexFrom_lower 0 src'
  rw [hcase, lexFrom_lower, ← lex, h] at hlower
  obtain ⟨tokens', h', heq⟩ := Except.map_eq_ok hlower.symm
  exact ⟨tokens', h', heq⟩

end Token

end PascalAtlas
