import PascalAtlas.Proofs.Utf8
import PascalAtlas.SourceUnit.Mask
import PascalAtlas.Token.Lexer

/-!
# The mask of a text, character by character

The mask works on bytes. Everything it looks for is ASCII, and in UTF-8 the byte of an ASCII
character occurs in no other character, so the same mask can be read off the **characters**:
`maskText` is that reading, and `mask_eq` says that it is the mask. A character of a masked stretch
becomes as many blanks as it has bytes, unless it is a line break. Bytes never matter again: a
character is masked as a whole or not at all.
-/

namespace PascalAtlas.Mask

open Utf8

/-! ## Masking characters -/

/-- A character as it stands in a masked stretch. -/
def blankChar (c : Char) : Text :=
  if c = '\n' then [c] else List.replicate c.utf8Size ' '

/-- A masked stretch of characters. -/
def blankText (t : Text) : Text :=
  t.flatMap blankChar

/-- The contents of a string literal after its opening quote, and what follows them. -/
def contents : Text → Text × Text
  | [] => ([], [])
  | [c] => if c = '\n' || c = '\'' then ([], [c]) else ([c], [])
  | c :: c' :: cs =>
    if c = '\n' then
      ([], c :: c' :: cs)
    else if c = '\'' then
      if c' = '\'' then
        (c :: c' :: (contents cs).1, (contents cs).2)
      else
        ([], c :: c' :: cs)
    else
      (c :: (contents (c' :: cs)).1, (contents (c' :: cs)).2)

/-- Masks a comment: the masked stretch and the text after it. A comment that is not closed goes to
the end of the text. -/
def comment (opening closing cs : Text) : Text × Text :=
  match Text.cut? closing cs with
  | some (inside, rest) => (blankText (opening ++ inside ++ closing), rest)
  | none => (blankText (opening ++ cs), [])

/-- Masks the front of a text that begins with `c`: the masked stretch and the text after it. -/
def charStep (c : Char) (cs : Text) : Text × Text :=
  if c = '{' then
    comment ['{'] ['}'] cs
  else if c = '(' && cs.head? == some '*' then
    comment ['(', '*'] ['*', ')'] cs.tail
  else if c = '/' && cs.head? == some '/' then
    (blankText (c :: cs.takeWhile (· != '\n')), cs.dropWhile (· != '\n'))
  else if c = '\'' then
    (c :: blankText (contents cs).1 ++ (contents cs).2.take 1, (contents cs).2.drop 1)
  else
    ([c], cs)

/-- What follows a literal is not longer than the text. -/
theorem length_contents (t : Text) : (contents t).2.length ≤ t.length := by
  fun_induction contents t <;> simp_all <;> omega

/-- The contents of a literal and what follows are the text. -/
theorem contents_append (t : Text) : (contents t).1 ++ (contents t).2 = t := by
  fun_induction contents t <;> simp_all

theorem length_cut? {needle t front back : Text} (h : Text.cut? needle t = some (front, back)) :
    back.length ≤ t.length := by
  rw [← Token.cut?_eq_some h, List.length_append]
  omega

/-- What follows a comment is not longer than the text. -/
theorem length_comment (opening closing cs : Text) :
    (comment opening closing cs).2.length ≤ cs.length := by
  unfold comment
  split
  next hcut => exact length_cut? hcut
  next => exact Nat.zero_le _

/-- So every step of the mask comes closer to the end. -/
theorem length_charStep (c : Char) (cs : Text) : (charStep c cs).2.length ≤ cs.length := by
  unfold charStep
  repeat' split
  · exact length_comment _ _ _
  · exact Nat.le_trans (length_comment _ _ _) (by simp)
  · exact (List.dropWhile_sublist _).length_le
  · simp only [List.length_drop]
    exact Nat.le_trans (Nat.sub_le _ _) (length_contents cs)
  · exact Nat.le_refl _

/-- The masked text of a text, **read off its characters**. -/
def maskText (t : Text) : Text :=
  match t with
  | [] => []
  | c :: cs => (charStep c cs).1 ++ maskText (charStep c cs).2
termination_by t.length
decreasing_by exact Nat.lt_succ_of_le (length_charStep c cs)

/-! ## What is looked for, in bytes and in characters -/

theorem byte_eq (c : Char) : byte c = c.toUInt8 := rfl

/-- A character of one byte, written several times, is that byte several times. -/
theorem encode_replicate {c : Char} (hc : c.utf8Size = 1) (n : Nat) :
    encode (List.replicate n c) = List.replicate n c.toUInt8 := by
  induction n with
  | zero => rfl
  | succ n ih => rw [List.replicate_succ, encode_cons_ascii hc, ih, List.replicate_succ]

theorem blank_append (a b : List UInt8) : blank (a ++ b) = blank a ++ blank b :=
  List.map_append

/-- A character is blanked in bytes **as it is in characters**. -/
theorem blank_encodeChar (c : Char) : blank (String.utf8EncodeChar c) = encode (blankChar c) := by
  by_cases hc : c = '\n'
  · subst hc
    decide
  · have hbytes : ∀ b ∈ String.utf8EncodeChar c, blankByte b = byte ' ' := by
      intro b hb
      exact if_neg (ne_of_mem_encodeChar (by decide) hc b hb)
    rw [blankChar, if_neg hc, encode_replicate (by decide), blank, List.map_congr_left hbytes,
      List.map_const', String.length_utf8EncodeChar, byte_eq]

/-- A stretch of bytes is masked as its characters are. -/
theorem blank_encode (t : Text) : blank (encode t) = encode (blankText t) := by
  induction t with
  | nil => rfl
  | cons c t ih =>
    rw [encode_cons, blank_append, blank_encodeChar, ih, ← encode_append]
    rfl

/-- The first byte of a text tells whether it begins with an ASCII character. -/
theorem head?_encode {d : Char} (hd : d.utf8Size = 1) (t : Text) :
    ((encode t).head? == some d.toUInt8) = (t.head? == some d) := by
  cases t with
  | nil => rfl
  | cons c t =>
    by_cases hc : c = d
    · subst hc
      rw [encode_cons_ascii hd]
      simp
    · obtain ⟨b, bs, hbytes⟩ : ∃ b bs, String.utf8EncodeChar c = b :: bs :=
        List.exists_cons_of_ne_nil String.utf8EncodeChar_ne_nil
      have hb := ne_of_mem_encodeChar hd hc b (by rw [hbytes]; exact List.mem_cons_self ..)
      rw [encode_cons, hbytes, List.cons_append, List.head?_cons, List.head?_cons]
      rw [beq_eq_false_iff_ne.2 fun h => hb (Option.some.inj h),
        beq_eq_false_iff_ne.2 fun h => hc (Option.some.inj h)]

/-- The bytes up to an ASCII character are those of the characters up to it. -/
theorem takeWhile_encode {d : Char} (hd : d.utf8Size = 1) (t : Text) :
    (encode t).takeWhile (· != d.toUInt8) = encode (t.takeWhile (· != d))
      ∧ (encode t).dropWhile (· != d.toUInt8) = encode (t.dropWhile (· != d)) := by
  induction t with
  | nil => exact ⟨rfl, rfl⟩
  | cons c t ih =>
    by_cases hc : c = d
    · subst hc
      rw [encode_cons_ascii hd]
      simp [encode_cons_ascii hd]
    · have hbytes : ∀ b ∈ String.utf8EncodeChar c, (b != d.toUInt8) = true := by
        intro b hb
        simpa using ne_of_mem_encodeChar hd hc b hb
      rw [encode_cons, List.takeWhile_append_of_pos hbytes,
        List.dropWhile_append_of_pos hbytes, ih.1, ih.2]
      simp [hc, encode_cons]

/-! ## Comments -/

/-- The characters of a closing sign. -/
def IsAscii (t : Text) : Prop :=
  ∀ c ∈ t, c.utf8Size = 1

instance (t : Text) : Decidable (IsAscii t) :=
  inferInstanceAs (Decidable (∀ c ∈ t, c.utf8Size = 1))

/-- An ASCII sign is found in the bytes where it is found in the characters. -/
theorem isPrefixOf_encode {needle : Text} (hneedle : IsAscii needle) (t : Text) :
    (encode needle).isPrefixOf (encode t) = (Text.dropPrefix? needle t).isSome := by
  fun_induction Text.dropPrefix? needle t with
  | case1 t => simp
  | case2 p ps => rw [encode_cons_ascii (hneedle p (List.mem_cons_self ..))]; rfl
  | case3 ps c cs ih =>
    have hc := hneedle c (List.mem_cons_self ..)
    rw [encode_cons_ascii hc, encode_cons_ascii hc, List.isPrefixOf_cons_cons, beq_self_eq_true,
      Bool.true_and, ih fun d hd => hneedle d (List.mem_cons_of_mem _ hd)]
  | case4 p ps c cs hne =>
    have hp := hneedle p (List.mem_cons_self ..)
    have hhead := head?_encode hp (c :: cs)
    have hfalse : ((c :: cs).head? == some p) = false := by simpa using fun h => hne h.symm
    rw [hfalse] at hhead
    obtain ⟨b, bs, hbytes⟩ : ∃ b bs, encode (c :: cs) = b :: bs := by
      refine List.exists_cons_of_ne_nil ?_
      rw [encode_cons]
      exact List.append_ne_nil_of_left_ne_nil String.utf8EncodeChar_ne_nil _
    rw [hbytes] at hhead ⊢
    rw [encode_cons_ascii hp, List.isPrefixOf_cons_cons]
    have hb : b ≠ p.toUInt8 := by simpa using hhead
    simp [hb.symm]

/-- A sign that stands in front is passed at once. -/
theorem through_append {needle : List UInt8} (h : needle ≠ []) (rest : List UInt8) :
    through needle (needle ++ rest) = (needle, rest) := by
  obtain ⟨a, as, rfl⟩ := List.exists_cons_of_ne_nil h
  have hbegins : (a :: as).isPrefixOf (a :: (as ++ rest)) = true :=
    List.isPrefixOf_iff_prefix.2 ⟨rest, rfl⟩
  rw [List.cons_append, through, if_pos hbegins, ← List.cons_append, List.take_left, List.drop_left]

/-- Bytes that do not begin the sign are passed over. -/
theorem through_onto {a : UInt8} {needle bytes : List UInt8} (h : ∀ b ∈ bytes, b ≠ a)
    (rest : List UInt8) :
    through (a :: needle) (bytes ++ rest) = onto bytes (through (a :: needle) rest) := by
  induction bytes with
  | nil => rfl
  | cons b bs ih =>
    have hb := h b (List.mem_cons_self ..)
    rw [List.cons_append, through, if_neg (by simp [hb.symm]),
      ih fun b hb => h b (List.mem_cons_of_mem _ hb)]
    rfl

/-- The end of a comment is found in the bytes where it is found in the characters. -/
theorem through_encode {d : Char} {ds : Text} (hneedle : IsAscii (d :: ds)) (t : Text) :
    through (encode (d :: ds)) (encode t)
      = match Text.cut? (d :: ds) t with
        | some (inside, rest) => (encode (inside ++ d :: ds), encode rest)
        | none => (encode t, []) := by
  have hd := hneedle d (List.mem_cons_self ..)
  induction t with
  | nil => rfl
  | cons c cs ih =>
    rw [Text.cut?]
    cases hdrop : Text.dropPrefix? (d :: ds) (c :: cs) with
    | some rest =>
      have hwhole : (d :: ds) ++ rest = c :: cs := Token.dropPrefix?_eq_some hdrop
      have hne : encode (d :: ds) ≠ [] := by simp [encode_cons_ascii hd]
      rw [← hwhole, encode_append, through_append hne]
      rfl
    | none =>
      have hstep : through (encode (d :: ds)) (encode (c :: cs))
          = onto (String.utf8EncodeChar c) (through (encode (d :: ds)) (encode cs)) := by
        by_cases hcd : c = d
        · -- The sign may begin here, but does not go on.
          have hbegins := isPrefixOf_encode hneedle (c :: cs)
          subst hcd
          rw [hdrop, encode_cons_ascii hd cs] at hbegins
          rw [encode_cons_ascii hd cs, through, if_neg (by rw [hbegins]; decide),
            String.utf8EncodeChar_eq_singleton hd]
          rfl
        · rw [encode_cons c, encode_cons_ascii hd, through_onto (ne_of_mem_encodeChar hd hcd)]
      rw [hstep, ih]
      cases Text.cut? (d :: ds) cs with
      | some cut => simp [onto, encode_cons]
      | none => simp [onto, encode_cons]

/-! ## String literals -/

/-- Bytes that end no literal belong to it. -/
theorem literal_onto {bytes : List UInt8} (h : ∀ b ∈ bytes, b ≠ byte '\n' ∧ b ≠ byte '\'')
    (rest : List UInt8) : literal (bytes ++ rest) = onto bytes (literal rest) := by
  induction bytes with
  | nil => rfl
  | cons b bs ih =>
    obtain ⟨hline, hquote⟩ := h b (List.mem_cons_self ..)
    have hrest := ih fun b hb => h b (List.mem_cons_of_mem _ hb)
    rw [List.cons_append]
    cases hall : bs ++ rest with
    | nil =>
      rw [hall] at hrest
      obtain ⟨rfl, rfl⟩ := List.append_eq_nil_iff.1 hall
      simp [literal, onto, hline, hquote]
    | cons b' bs' =>
      rw [hall] at hrest
      rw [literal, if_neg hline, if_neg hquote, hrest]
      rfl

/-- A line break ends a literal. -/
theorem literal_line (rest : List UInt8) :
    literal (byte '\n' :: rest) = ([], byte '\n' :: rest) := by
  cases rest with
  | nil => decide
  | cons b bs => rw [literal, if_pos rfl]

/-- So does a quote that stands alone. -/
theorem literal_quote {b' : UInt8} (hb' : b' ≠ byte '\'') (rest : List UInt8) :
    literal (byte '\'' :: b' :: rest) = ([], byte '\'' :: b' :: rest) := by
  rw [literal, if_neg (by decide), if_pos rfl, if_neg hb']

/-- The bytes of a literal are those of its characters. -/
theorem literal_encode (t : Text) :
    literal (encode t) = (encode (contents t).1, encode (contents t).2) := by
  -- Of the bytes of a character that ends no literal, none ends one.
  have hplain {c : Char} (hline : c ≠ '\n') (hquote : c ≠ '\'') (rest : List UInt8) :
      literal (String.utf8EncodeChar c ++ rest)
      = onto (String.utf8EncodeChar c) (literal rest) := by
    refine literal_onto (fun b hb => ⟨?_, ?_⟩) rest
    · exact ne_of_mem_encodeChar (by decide) hline b hb
    · exact ne_of_mem_encodeChar (by decide) hquote b hb
  fun_induction contents t with
  | case1 => rfl
  | case2 c hend =>
    rcases (by simpa using hend : c = '\n' ∨ c = '\'') with rfl | rfl <;> decide
  | case3 c hend =>
    obtain ⟨hline, hquote⟩ : c ≠ '\n' ∧ c ≠ '\'' := by simpa using hend
    rw [encode_cons, hplain hline hquote]
    simp [onto, literal]
  | case4 c' cs => rw [encode_cons_ascii (by decide), ← byte_eq, literal_line]; rfl
  | case5 cs _ ih =>
    rw [encode_cons_ascii (by decide), encode_cons_ascii (by decide), literal, if_neg (by decide),
      if_pos (byte_eq _).symm, if_pos (byte_eq _).symm, ih]
    rfl
  | case6 c' cs hquote =>
    -- A quote alone ends the literal: the byte behind it, the first one of the next
    -- character, is no quote.
    obtain ⟨b, bs, hbytes⟩ : ∃ b bs, String.utf8EncodeChar c' = b :: bs :=
      List.exists_cons_of_ne_nil String.utf8EncodeChar_ne_nil
    have hb := ne_of_mem_encodeChar (by decide) hquote b
      (by rw [hbytes]; exact List.mem_cons_self ..)
    rw [encode_cons_ascii (by decide), encode_cons, hbytes, List.cons_append, ← byte_eq,
      literal_quote hb]
    rfl
  | case7 c c' cs hline hquote ih =>
    rw [encode_cons, hplain hline hquote, ih]
    simp [onto, encode_cons]

/-! ## The mask -/

theorem byte_eq_iff {c d : Char} (hc : c.utf8Size = 1) (hd : d.utf8Size = 1) :
    c.toUInt8 = byte d ↔ c = d :=
  ⟨toUInt8_inj hc hd, congrArg _⟩

/-- Two signs that open a comment are the same in bytes and in characters. -/
theorem opens_encode {c d e : Char} (hc : c.utf8Size = 1) (hd : d.utf8Size = 1)
    (he : e.utf8Size = 1) (cs : Text) :
    (c.toUInt8 = byte d && (encode cs).head? == some (byte e)) = (c = d && cs.head? == some e) := by
  rw [byte_eq e, head?_encode he, decide_eq_decide.2 (byte_eq_iff hc hd)]

/-- What follows the contents of a literal begins with an ASCII character, if with any. -/
theorem contents_rest (t : Text) :
    encode ((contents t).2.take 1) = (encode (contents t).2).take 1
      ∧ encode ((contents t).2.drop 1) = (encode (contents t).2).drop 1 := by
  have hhead : ∀ c ∈ (contents t).2.head?, c.utf8Size = 1 := by
    fun_induction contents t with
    | case1 => simp
    | case2 c hend =>
      rcases (by simpa using hend : c = '\n' ∨ c = '\'') with rfl | rfl <;> simp <;> decide
    | case3 => simp
    | case4 => simp; decide
    | case5 cs _ ih => exact ih
    | case6 => simp; decide
    | case7 c c' cs _ _ ih => exact ih
  cases hrest : (contents t).2 with
  | nil => exact ⟨rfl, rfl⟩
  | cons c rest =>
    have hc := hhead c (by rw [hrest]; rfl)
    rw [encode_cons_ascii hc]
    simp [encode_cons_ascii hc]

/-- One step on bytes is one step on characters, where an ASCII character stands in front. -/
theorem step_encode {c : Char} (hc : c.utf8Size = 1) (cs : Text) :
    step c.toUInt8 (encode cs) = (encode (charStep c cs).1, encode (charStep c cs).2) := by
  -- The two kinds of comments with a closing sign differ only in their signs.
  have hcomment (opening : Text) (d : Char) (ds rest : Text) (hneedle : IsAscii (d :: ds)) :
      (blank (encode opening ++ (through (encode (d :: ds)) (encode rest)).1),
        (through (encode (d :: ds)) (encode rest)).2)
      = (encode (comment opening (d :: ds) rest).1, encode (comment opening (d :: ds) rest).2) := by
    rw [through_encode hneedle, comment]
    cases Text.cut? (d :: ds) rest with
    | some cut => simp [← blank_encode]
    | none => simp [← blank_encode]
  unfold step charStep
  rw [opens_encode hc rfl rfl, opens_encode hc rfl rfl]
  by_cases hbrace : c = '{'
  · subst hbrace
    exact hcomment ['{'] '}' [] cs (by decide)
  rw [if_neg (mt (byte_eq_iff hc rfl).1 hbrace), if_neg hbrace]
  by_cases hparen : (c = '(' && cs.head? == some '*') = true
  · obtain ⟨rfl, hstar⟩ : c = '(' ∧ cs.head? = some '*' := by simpa using hparen
    obtain ⟨rest, rfl⟩ := List.head?_eq_some_iff.1 hstar
    rw [if_pos hparen, if_pos hparen, encode_cons_ascii (by decide)]
    exact hcomment ['(', '*'] '*' [')'] rest (by decide)
  rw [if_neg hparen, if_neg hparen]
  by_cases hslash : (c = '/' && cs.head? == some '/') = true
  · obtain ⟨htake, hdrop⟩ := takeWhile_encode (d := '\n') (by decide) cs
    rw [if_pos hslash, if_pos hslash, ← blank_encode, encode_cons_ascii hc,
      byte_eq '\n', htake, hdrop]
  rw [if_neg hslash, if_neg hslash]
  by_cases hquote : c = '\''
  · obtain ⟨htake, hdrop⟩ := contents_rest cs
    rw [if_pos ((byte_eq_iff hc rfl).2 hquote), if_pos hquote, encode_append, encode_cons_ascii hc,
      ← blank_encode, htake, hdrop, literal_encode]
  · rw [if_neg (mt (byte_eq_iff hc rfl).1 hquote), if_neg hquote, encode_cons_ascii hc, encode_nil]

/-- Bytes of characters that are not ASCII are kept. -/
theorem maskBytes_onto {bytes : List UInt8} (h : ∀ b ∈ bytes, 128 ≤ b.toNat) (rest : List UInt8) :
    maskBytes (bytes ++ rest) = bytes ++ maskBytes rest := by
  induction bytes with
  | nil => rfl
  | cons b bs ih =>
    have hb : ∀ c : Char, c.toUInt8.toNat < 128 → b ≠ byte c := by
      intro c hc heq
      have := h b (List.mem_cons_self ..)
      rw [heq, byte_eq] at this
      omega
    have hstep : step b (bs ++ rest) = ([b], bs ++ rest) := by
      unfold step
      simp [hb '{' (by decide), hb '(' (by decide), hb '/' (by decide), hb '\'' (by decide)]
    rw [List.cons_append, maskBytes, hstep, ih fun b hb => h b (List.mem_cons_of_mem _ hb)]
    rfl

/-- **Masking the bytes of a text is masking its characters.** -/
theorem maskBytes_encode (t : Text) : maskBytes (encode t) = encode (maskText t) := by
  induction t using maskText.induct with
  | case1 => rw [encode_nil, maskBytes, maskText, encode_nil]
  | case2 c cs ih =>
    rw [maskText, encode_append, ← ih]
    by_cases hc : c.utf8Size = 1
    · rw [encode_cons_ascii hc, maskBytes, step_encode hc]
    · have hstep : charStep c cs = ([c], cs) := by
        have hne (d : Char) (hd : d.utf8Size = 1) : c ≠ d := fun h => hc (h ▸ hd)
        simp [charStep, hne '{' rfl, hne '(' rfl, hne '/' rfl, hne '\'' rfl]
      rw [hstep, encode_cons, maskBytes_onto (le_of_mem_encodeChar hc)]
      simp [encode_cons]

/-- **The mask of a text is read off its characters.** -/
theorem mask_eq (t : Text) : mask t = maskText t := by
  rw [mask, maskBytes_encode, decode_encode]

end PascalAtlas.Mask
