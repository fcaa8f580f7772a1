import PascalAtlas.Proofs.Partition

/-!
# String literals

A text is written as a **literal** between two quotes, with every quote in it written twice
(`literal`). Reading undoes this for every text without a line break, however many quotes stand
together in it and wherever they stand: at the front they come behind the opening quote, and at the
end in front of the closing one.

The reader looks at two characters at a time, and the quotes of the text come in pairs. So it is
always at the beginning of a pair, until it comes to a quote that no other one follows
(`stringBody?_eq_some_iff`). This says what is read from either side: the literal of a text is read
as the text, and what is read as a text is its literal.

The value can also be had from the literal as a whole, without reading: take off the quote at either
end, and write every pair of quotes once (`unquote`). The reader, which does both at once, finds the
same value (`unquote_of_stringBody?`), and so the value of every token of a text is what is made in
this way of the slice that it covers (`unquote_slice`).
-/

namespace PascalAtlas.Token

/-! ## Literals -/

/-- A text with every quote in it **written twice**. -/
def doubled (s : Text) : Text :=
  Text.replaceChar '\'' ['\'', '\''] s

/-- The **literal** of a text. -/
def literal (s : Text) : Text :=
  '\'' :: (doubled s ++ ['\''])

@[simp] theorem doubled_nil : doubled [] = [] := rfl

@[simp] theorem doubled_quote (s : Text) : doubled ('\'' :: s) = '\'' :: '\'' :: doubled s := rfl

/-- Any other character is written once. -/
theorem doubled_cons {c : Char} (hc : c ≠ '\'') (s : Text) : doubled (c :: s) = c :: doubled s := by
  rw [doubled, Text.replaceChar, List.flatMap_cons, if_neg hc]
  rfl

/-! ## Taking the quotes off -/

/-- A text with every pair of quotes in it **written once**, from the left. -/
def halved : Text → Text
  | '\'' :: '\'' :: cs => '\'' :: halved cs
  | c :: cs => c :: halved cs
  | [] => []

/-- The text that a literal **denotes**: what stands between its quotes, with pairs of quotes
written once. Where the quotes are missing, nothing is taken off. -/
def unquote (t : Text) : Text :=
  if t.head? = some '\'' ∧ t.tail.getLast? = some '\'' then halved t.tail.dropLast else halved t

/-- And read once. -/
theorem halved_cons {c : Char} (hc : c ≠ '\'') (cs : Text) : halved (c :: cs) = c :: halved cs := by
  rw [halved]
  exact fun _ h _ => hc h

/-- Quotes that were doubled are halved. -/
theorem halved_doubled (s : Text) : halved (doubled s) = s := by
  induction s with
  | nil => rfl
  | cons c s ih =>
    by_cases hc : c = '\''
    · subst hc
      rw [doubled_quote, halved, ih]
    · rw [doubled_cons hc, halved_cons hc, ih]

/-- **Unquoting undoes quoting**, also for a text with line breaks. -/
theorem unquote_literal (s : Text) : unquote (literal s) = s := by
  have hends : (literal s).head? = some '\'' ∧ (literal s).tail.getLast? = some '\'' :=
    ⟨rfl, List.getLast?_concat ..⟩
  rw [unquote, if_pos hends]
  show halved (doubled s ++ ['\'']).dropLast = s
  rw [List.dropLast_concat, halved_doubled]

/-- A quote alone has no other to go with it. -/
example : unquote ['\''] = ['\''] := by decide

/-! ## Reading what is inside -/

/-- A quote that **stands alone** ends the literal. -/
theorem stringBody?_quote {rest : Text} (hrest : rest.head? ≠ some '\'') :
    stringBody? ('\'' :: rest) = some ([], ['\''], rest) := by
  rw [stringBody?, if_pos rfl]
  rintro ds - rfl
  exact hrest rfl

/-- Any other character belongs to it. -/
theorem stringBody?_cons {c : Char} (hquote : c ≠ '\'') (hline : c ≠ '\n') (cs : Text) :
    stringBody? (c :: cs) = (stringBody? cs).map fun body =>
      (c :: body.1, c :: body.2.1, body.2.2) := by
  rw [stringBody?, if_neg hquote, if_neg hline]
  exact fun _ hc _ => hquote hc

/-- Doubled quotes are read as quotes, up to a quote that **stands alone**. -/
theorem stringBody?_doubled {s rest : Text} (hs : '\n' ∉ s) (hrest : rest.head? ≠ some '\'') :
    stringBody? (doubled s ++ '\'' :: rest) = some (s, doubled s ++ ['\''], rest) := by
  induction s with
  | nil => exact stringBody?_quote hrest
  | cons c s ih =>
    rw [List.mem_cons, not_or] at hs
    by_cases hc : c = '\''
    · -- Both quotes of the pair are taken at once, so that the second one does
      -- not close the literal.
      subst hc
      rw [doubled_quote, List.cons_append, List.cons_append, stringBody?, ih hs.2]
      rfl
    · rw [doubled_cons hc, List.cons_append, stringBody?_cons hc (Ne.symm hs.1), ih hs.2]
      rfl

/-- What is inside a literal is the text that it denotes, **with its quotes doubled**. -/
theorem doubled_of_stringBody? {cs value taken rest : Text}
    (h : stringBody? cs = some (value, taken, rest)) :
    '\n' ∉ value ∧ taken = doubled value ++ ['\''] := by
  fun_induction stringBody? cs generalizing value taken rest with
  | case1 => simp at h
  | case2 cs ih =>
    obtain ⟨⟨v, t, r⟩, hb, heq⟩ := Option.map_eq_some_iff.1 h
    obtain ⟨rfl, rfl, -⟩ : '\'' :: v = value ∧ '\'' :: '\'' :: t = taken
      ∧ r = rest := by simpa using heq
    obtain ⟨hline, rfl⟩ := ih hb
    exact ⟨by simpa using hline, rfl⟩
  | case3 cs _ =>
    obtain ⟨rfl, rfl, -⟩ : [] = value ∧ ['\''] = taken ∧ cs = rest := by simpa using h
    exact ⟨List.not_mem_nil, rfl⟩
  | case4 => simp at h
  | case5 c cs _ hquote hline ih =>
    obtain ⟨⟨v, t, r⟩, hb, heq⟩ := Option.map_eq_some_iff.1 h
    obtain ⟨rfl, rfl, -⟩ : c :: v = value ∧ c :: t = taken ∧ r = rest := by simpa using heq
    obtain ⟨hv, rfl⟩ := ih hb
    rw [doubled_cons hquote, List.mem_cons, not_or]
    exact ⟨⟨Ne.symm hline, hv⟩, rfl⟩

/-- **What is read inside a literal**, from either side. -/
theorem stringBody?_eq_some_iff {cs value taken rest : Text} :
    stringBody? cs = some (value, taken, rest)
      ↔ '\n' ∉ value ∧ taken = doubled value ++ ['\''] ∧ cs = taken ++ rest
        ∧ rest.head? ≠ some '\'' := by
  constructor
  · intro h
    obtain ⟨hline, htaken⟩ := doubled_of_stringBody? h
    exact ⟨hline, htaken, (stringBody?_eq_some h).symm, not_quote_of_stringBody? h⟩
  · rintro ⟨hline, rfl, rfl, hrest⟩
    rw [List.append_assoc]
    exact stringBody?_doubled hline hrest

/-- The value that is read is the literal **without its quotes**. -/
theorem unquote_of_stringBody? {cs value taken rest : Text}
    (h : stringBody? cs = some (value, taken, rest)) :
    unquote ('\'' :: taken) = value := by
  rw [(doubled_of_stringBody? h).2]
  exact unquote_literal value

/-! ## Reading the whole -/

/-- A literal is read as the text it was made of, before anything but a quote. -/
theorem read_literal {s rest : Text} (hs : '\n' ∉ s) (hrest : rest.head? ≠ some '\'') :
    read '\'' (doubled s ++ ['\''] ++ rest) = ⟨.token (.str s), literal s, rest⟩ := by
  have hbody : stringBody? (doubled s ++ ['\''] ++ rest) = some (s, doubled s ++ ['\''], rest) :=
    stringBody?_eq_some_iff.2 ⟨hs, rfl, rfl, hrest⟩
  show readString _ = _
  rw [readString, hbody]
  rfl

/-- A token that denotes a text **is its literal**. -/
theorem literal_of_read {c : Char} {cs s taken rest : Text}
    (h : read c cs = ⟨.token (.str s), taken, rest⟩) :
    '\n' ∉ s ∧ taken = literal s := by
  have hread := readAs_read c cs
  rw [h] at hread
  generalize hr : (⟨.token (.str s), taken, rest⟩ : Reading) = r at hread
  -- Only a quote begins a token that denotes a text.
  cases hread with
  | string =>
    rw [readString] at hr
    split at hr
    next value body back hbody =>
      obtain ⟨hkind, rfl, -⟩ := Reading.mk.inj hr
      obtain rfl : s = value := TokenKind.str.inj (Lexeme.token.inj hkind)
      obtain ⟨hline, rfl⟩ := doubled_of_stringBody? hbody
      exact ⟨hline, rfl⟩
    next => cases hr
  | word =>
    have hkind := Lexeme.token.inj (Reading.mk.inj hr).1
    rw [wordKind] at hkind
    split at hkind <;> cases hkind
  | code =>
    unfold readCharCode at hr
    repeat' split at hr
    all_goals cases hr
  | escaped =>
    unfold readEscaped at hr
    split at hr <;> cases hr
  | braced =>
    rw [readComment] at hr
    split at hr <;> cases hr
  | starred =>
    rw [readComment] at hr
    split at hr <;> cases hr
  | symbol =>
    rw [readSymbol] at hr
    split at hr <;> cases hr
  | _ => cases hr

/-- A text that is one token is **read in one go**. -/
theorem read_of_single {t : Text} {kind : TokenKind} (h : lex t = .ok (single kind t)) :
    ∃ c cs, read c cs = ⟨.token kind, t, []⟩ := by
  cases t with
  | nil =>
    rw [lex, lexFrom] at h
    cases h
  | cons c cs =>
    have hne := taken_read_ne_nil c cs
    rcases hr : read c cs with ⟨lexeme, taken, rest⟩
    rw [hr] at hne
    have hwhole : taken ++ rest = c :: cs := by
      rw [← whole_read c cs, hr]
      rfl
    cases lexeme with
    | skip =>
      -- The token would begin behind what is skipped.
      rw [lex, lexFrom_skip hr, Nat.zero_add] at h
      have hstream := stream_lexFrom _ rest taken _ hwhole.symm rfl h
      have hle := (hstream.le_start _ List.mem_cons_self).1
      exact absurd (Text.size_pos hne) (Nat.not_lt.2 hle)
    | token kind' =>
      rw [lex, lexFrom_token hr, Nat.zero_add] at h
      obtain ⟨ts, -, heq⟩ := Except.map_eq_ok h
      obtain ⟨hkind, -, hstop⟩ := Token.mk.inj (List.cons.inj heq).1
      -- The token covers all the bytes there are.
      have hrest : rest = [] := by
        have hsize : Text.size (c :: cs) = Text.size taken + Text.size rest := by
          rw [← hwhole, Text.size_append]
        cases rest with
        | nil => rfl
        | cons d ds =>
          have hmore := Text.size_pos (List.cons_ne_nil d ds)
          omega
      rw [hrest, List.append_nil] at hwhole
      exact ⟨c, cs, by rw [hr, hkind, hrest, hwhole]⟩
    | fault cause =>
      rw [lex, lexFrom_fault hr] at h
      cases h

/-- A text is read as **one token that denotes `s`** if and only if it is the literal of `s`. -/
theorem lex_eq_single_str_iff {t s : Text} :
    lex t = .ok (single (.str s) t) ↔ '\n' ∉ s ∧ t = literal s := by
  constructor
  · intro h
    obtain ⟨c, cs, hread⟩ := read_of_single h
    exact literal_of_read hread
  · rintro ⟨hs, rfl⟩
    have hread := @read_literal s [] hs (by simp)
    rw [List.append_nil] at hread
    exact lex_token hread

/-- **The value of a token** is the slice that the token covers, without its quotes. -/
theorem unquote_slice {src : Text} {tokens : List Token} (h : lex src = .ok tokens)
    {token : Token} (htoken : token ∈ tokens) {value : Text} (hkind : token.kind = .str value) :
    ∃ text, Text.slice? src token.start token.stop = some text ∧ unquote text = value := by
  have hproper : token.kind ≠ .eof := by
    rw [hkind]
    exact TokenKind.noConfusion
  obtain ⟨text, hslice, halone⟩ := (divided_lex h).alone token htoken hproper
  rw [hkind] at halone
  refine ⟨text, hslice, ?_⟩
  rw [(lex_eq_single_str_iff.1 halone).2, unquote_literal]

/-- Some token of a text **carries** a value. -/
def Carries (t value : Text) : Prop :=
  ∃ tokens, lex t = .ok tokens ∧ ∃ token ∈ tokens, token.kind = .str value

/-- The literal of a text carries this text and no other. -/
theorem carries_literal_iff {s value : Text} (hs : '\n' ∉ s) :
    Carries (literal s) value ↔ value = s := by
  have hlex : lex (literal s) = .ok (single (.str s) (literal s)) :=
    lex_eq_single_str_iff.2 ⟨hs, rfl⟩
  constructor
  · rintro ⟨tokens, htokens, token, htoken, hkind⟩
    rw [hlex] at htokens
    obtain rfl := Except.ok.inj htokens
    rcases List.mem_cons.1 htoken with rfl | heof
    · exact (TokenKind.str.inj hkind).symm
    · rw [List.mem_singleton.1 heof] at hkind
      cases hkind
  · rintro rfl
    exact ⟨_, hlex, _, List.mem_cons_self, rfl⟩

/-- **The literal of a text denotes the text.** If the text has no line break, its literal
is read as one token that covers all of it and denotes the text, and nothing but the end
comes behind. No literal of another text has a token with the same value, and no other text
is read as this one token. -/
theorem lex_literal {s : Text} (hs : '\n' ∉ s) :
    lex (literal s)
        = .ok [⟨.str s, 0, Text.size (literal s)⟩,
            ⟨.eof, Text.size (literal s), Text.size (literal s)⟩]
      ∧ (∀ t value, '\n' ∉ t → t ≠ s → ¬ (Carries (literal s) value ∧ Carries (literal t) value))
      ∧ ∀ t, lex t = .ok [⟨.str s, 0, Text.size t⟩, ⟨.eof, Text.size t, Text.size t⟩] →
        t = literal s := by
  refine ⟨lex_eq_single_str_iff.2 ⟨hs, rfl⟩, ?_, fun t ht => (lex_eq_single_str_iff.1 ht).2⟩
  rintro t value ht hne ⟨hcarries, hcarries'⟩
  rw [carries_literal_iff hs] at hcarries
  rw [carries_literal_iff ht] at hcarries'
  exact hne (hcarries'.symm.trans hcarries)

/-- Quotes at the front, at the end and next to one another. -/
theorem lex_literal_quotes :
    lex "'''a''''é'''''".toList
        = .ok [⟨.str "'a''é''".toList, 0, 15⟩, ⟨.eof, 15, 15⟩]
      ∧ ¬ (Carries (literal "'a''é''".toList) "'a''é''".toList
        ∧ Carries (literal "'a'é''".toList) "'a''é''".toList) := by
  obtain ⟨hlex, hne, -⟩ := @lex_literal "'a''é''".toList (by decide)
  exact ⟨hlex, hne _ _ (by decide) (by decide)⟩

end PascalAtlas.Token
