import PascalAtlas.Proofs.Partition
import PascalAtlas.Text.Blank

/-!
# The tokens of an excerpt

What stands between two tokens of a text is read by itself as the tokens between them, in their
places (`lexFrom_between`). A token is the longest that can be read, but it was cut off by what
followed it, and an excerpt begins and ends with whole tokens: what follows a token in the excerpt
is either what followed it before, or nothing. A closed comment needs nothing behind it, and one
that goes to the end of its line is ended by the end of the text too.

The same holds when the excerpt is **trimmed** (`lexFrom_trim`). More characters are blank than the
spaces that stand between tokens, but in front of a token there are no others, and at the end of the
text they can only be the last of a comment that goes to the end of its line.
-/

namespace PascalAtlas.Token

/-! ## A reading with less behind it -/

/-- What begins a text follows what the text follows. -/
theorem follows_of_isPrefix {rest more : Text} (h : more <+: rest) : Follows rest more := by
  cases more with
  | nil => exact follows_nil rest
  | cons c more =>
    obtain ⟨back, rfl⟩ := h
    exact .inl rfl

theorem dropPrefix?_append_of_le {needle front : Text} (hle : needle.length ≤ front.length)
    (back : Text) :
    Text.dropPrefix? needle (front ++ back) = (Text.dropPrefix? needle front).map (· ++ back) := by
  induction needle generalizing front with
  | nil => cases front <;> rfl
  | cons d needle ih =>
    cases front with
    | nil => exact absurd hle (Nat.not_succ_le_zero _)
    | cons c front =>
      rw [List.cons_append, Text.dropPrefix?, Text.dropPrefix?]
      by_cases hdc : d = c
      · rw [if_pos hdc, if_pos hdc, ih (Nat.le_of_succ_le_succ hle)]
      · rw [if_neg hdc, if_neg hdc]
        rfl

/-- What is found in a text is found again, **whatever stands behind it** now. -/
theorem cut?_again {needle t front back : Text} (hne : needle ≠ [])
    (h : Text.cut? needle t = some (front, back)) (back' : Text) :
    Text.cut? needle (front ++ needle ++ back') = some (front, back') := by
  induction t generalizing front with
  | nil =>
    rw [Text.cut?, if_neg (by simpa using hne)] at h
    cases h
  | cons c cs ih =>
    rw [Text.cut?] at h
    split at h
    next rest hrest =>
      obtain ⟨rfl, rfl⟩ : [] = front ∧ rest = back := by simpa using h
      obtain ⟨d, ds, rfl⟩ := List.exists_cons_of_ne_nil hne
      rw [List.nil_append, List.cons_append, Text.cut?, ← List.cons_append, dropPrefix?_append]
    next hnone =>
      obtain ⟨⟨front', back''⟩, hcut, heq⟩ := Option.map_eq_some_iff.1 h
      obtain ⟨rfl, rfl⟩ : c :: front' = front ∧ back'' = back := by simpa using heq
      -- The needle and what is in front of it are long enough to tell that it does not begin here.
      have hle : needle.length ≤ (c :: front' ++ needle).length := by
        rw [List.length_append]
        exact Nat.le_add_left _ _
      have hwhole : c :: cs = c :: front' ++ needle ++ back'' := by
        rw [← cut?_eq_some hcut]
        simp
      rw [hwhole, dropPrefix?_append_of_le hle, Option.map_eq_none_iff] at hnone
      have hstill : Text.dropPrefix? needle (c :: (front' ++ needle ++ back')) = none := by
        have hcons : c :: (front' ++ needle ++ back') = c :: front' ++ needle ++ back' := by simp
        rw [hcons, dropPrefix?_append_of_le hle, hnone]
        rfl
      have hcons : c :: front' ++ needle ++ back' = c :: (front' ++ needle ++ back') := by simp
      rw [hcons, Text.cut?, hstill, ih hcut]
      rfl

/-- A comment that is closed is read again **whatever stands behind it** now. -/
theorem readComment_again {opening closing cs taken rest : Text} (hne : closing ≠ [])
    (h : readComment opening closing cs = ⟨.skip, taken, rest⟩) :
    ∃ inside, taken = opening ++ (inside ++ closing)
      ∧ ∀ more, readComment opening closing (inside ++ closing ++ more) = ⟨.skip, taken, more⟩ := by
  rw [readComment] at h
  split at h
  next inside back hcut =>
    obtain ⟨-, rfl, rfl⟩ := Reading.mk.inj h
    refine ⟨inside, by rw [List.append_assoc], fun more => ?_⟩
    rw [readComment, cut?_again hne hcut]
  next => cases (Reading.mk.inj h).1

variable {c : Char} {cs taken rest more : Text} {kind : TokenKind} {pos : Nat} {tokens : List Token}

/-- What is skipped is skipped also where **less stands behind it**. -/
theorem lexFrom_skip_front (h : read c cs = ⟨.skip, taken, rest⟩) (hmore : more <+: rest)
    (pos : Nat) :
    lexFrom pos (taken ++ more) = lexFrom (pos + Text.size taken) more := by
  by_cases hspace : isSpace c = true
  · rw [read_of_isSpace hspace] at h
    obtain ⟨-, rfl, -⟩ := Reading.mk.inj h
    exact lexFrom_spaces (isSpace_of_mem_run hspace) pos more
  rcases readAs_skip (Bool.eq_false_iff.2 hspace) h with ⟨rfl, hcomment⟩ | ⟨ds, rfl, rfl, hcomment⟩
    | ⟨ds, rfl, rfl, rfl, rfl⟩
  · obtain ⟨inside, rfl, hagain⟩ := readComment_again (by decide) hcomment
    have hread : read '{' (inside ++ ['}'] ++ more) = ⟨.skip, '{' :: (inside ++ ['}']), more⟩ :=
      hagain more
    exact lexFrom_skip hread pos
  · obtain ⟨inside, rfl, hagain⟩ := readComment_again (by decide) hcomment
    have hread : read '(' ('*' :: (inside ++ ['*', ')'] ++ more))
        = ⟨.skip, '(' :: '*' :: (inside ++ ['*', ')']), more⟩ := hagain more
    exact lexFrom_skip hread pos
  · -- What is left begins with the line break, if with anything.
    have hstop : headIs (· != '\n') more = false := by
      cases more with
      | nil => rfl
      | cons d more =>
        obtain ⟨back, hback⟩ := hmore
        have hhead := headIs_dropWhile (· != '\n') ds
        rw [← hback] at hhead
        exact hhead
    obtain ⟨htake, hdrop⟩ := takeWhile_append
      (List.all_eq_true.1 (List.all_takeWhile (l := ds))) hstop
    have hread : read '/' ('/' :: (ds.takeWhile (· != '\n') ++ more))
        = ⟨.skip, '/' :: '/' :: ds.takeWhile (· != '\n'), more⟩ := by
      show Reading.mk .skip ('/' :: '/' :: List.takeWhile _ _) (List.dropWhile _ _) = _
      rw [htake, hdrop]
    exact lexFrom_skip hread pos

/-- A token is read also where **less stands behind it**. -/
theorem lexFrom_token_front (h : read c cs = ⟨.token kind, taken, rest⟩) (hmore : more <+: rest)
    (pos : Nat) :
    lexFrom pos (taken ++ more)
      = (lexFrom (pos + Text.size taken) more).map (⟨kind, pos, pos + Text.size taken⟩ :: ·) := by
  have hwhole := whole_read c cs
  have hne := taken_read_ne_nil c cs
  rw [h] at hwhole hne
  obtain ⟨d, tail, rfl⟩ := List.exists_cons_of_ne_nil hne
  obtain ⟨rfl, rfl⟩ := List.cons.inj hwhole
  exact lexFrom_token (again_read d _ kind tail rest more h (follows_of_isPrefix hmore)) pos

/-! ## Between two tokens -/

/-- **A token divides a text** into what is before it, its own text and what is behind it.
The tokens before it are those of the text before it, and the tokens behind it are those of
the text behind it. -/
theorem lexFrom_around (pos : Nat) (t : Text) :
    ∀ us v vs, lexFrom pos t = .ok (us ++ v :: vs) →
      ∃ front rest, t = front ++ rest ∧ pos + Text.size front = v.start
        ∧ lexFrom pos front = .ok (us ++ [⟨.eof, v.start, v.start⟩])
        ∧ (v.kind ≠ .eof → ∃ own back, rest = own ++ back ∧ v.start + Text.size own = v.stop
          ∧ lexFrom v.stop back = .ok vs) := by
  induction pos, t using lexFrom.induct with
  | case1 pos =>
    intro us v vs h
    rw [lexFrom] at h
    obtain ⟨rfl, rfl⟩ : us = [] ∧ v = ⟨.eof, pos, pos⟩ := by
      cases us with
      | nil => exact ⟨rfl, (List.cons.inj (Except.ok.inj h)).1.symm⟩
      | cons u us => simp at h
    exact ⟨[], [], rfl, rfl, by rw [lexFrom]; rfl, fun hv => absurd rfl hv⟩
  | case2 pos c cs r stop hskip ih =>
    intro us v vs h
    have hread : read c cs = ⟨.skip, r.taken, r.rest⟩ := by rw [← hskip]
    have hwhole : r.taken ++ r.rest = c :: cs := whole_read c cs
    rw [lexFrom_skip hread] at h
    obtain ⟨front, rest, hrest, hsize, hfront, hbehind⟩ := ih us v vs h
    refine ⟨r.taken ++ front, rest, by rw [← hwhole, hrest, List.append_assoc], ?_, ?_, hbehind⟩
    · rw [Text.size_append, ← Nat.add_assoc]
      exact hsize
    · rw [lexFrom_skip_front hread ⟨rest, hrest.symm⟩]
      exact hfront
  | case3 pos c cs r stop kind htoken ih =>
    intro us v vs h
    have hread : read c cs = ⟨.token kind, r.taken, r.rest⟩ := by rw [← htoken]
    have hwhole : r.taken ++ r.rest = c :: cs := whole_read c cs
    rw [lexFrom_token hread] at h
    obtain ⟨ts, hts, heq⟩ := Except.map_eq_ok h
    cases us with
    | nil =>
      -- This is the token that divides, and nothing is before it.
      obtain ⟨rfl, rfl⟩ := List.cons.inj heq
      exact ⟨[], c :: cs, rfl, rfl, by rw [lexFrom]; rfl,
        fun _ => ⟨r.taken, r.rest, hwhole.symm, rfl, hts⟩⟩
    | cons u us =>
      -- That token comes later, so what was read here belongs to the text before it.
      obtain ⟨rfl, rfl⟩ := List.cons.inj heq
      obtain ⟨front, rest, hrest, hsize, hfront, hbehind⟩ := ih us v vs hts
      refine ⟨r.taken ++ front, rest, by rw [← hwhole, hrest, List.append_assoc], ?_, ?_, hbehind⟩
      · rw [Text.size_append, ← Nat.add_assoc]
        exact hsize
      · rw [lexFrom_token_front hread ⟨rest, hrest.symm⟩, hfront]
        rfl
  | case4 pos c cs r cause hfault =>
    intro us v vs h
    rw [lexFrom] at h
    simp [r, hfault] at h

/-- **Between two tokens** stands a text that is read as the tokens between them. -/
theorem lexFrom_between {src : Text} {us inner vs : List Token} {v w : Token}
    (h : lex src = .ok (us ++ v :: (inner ++ w :: vs))) (hv : v.kind ≠ .eof) :
    ∃ front middle back, src = front ++ middle ++ back ∧ Text.size front = v.stop
      ∧ Text.size (front ++ middle) = w.start
        ∧ lexFrom v.stop middle = .ok (inner ++ [⟨.eof, w.start, w.start⟩]) := by
  obtain ⟨front, rest, rfl, hfront, -, hbehind⟩ := lexFrom_around 0 src us v _ h
  obtain ⟨own, behind, rfl, hown, hvs⟩ := hbehind hv
  obtain ⟨middle, back, rfl, hmiddle, hinner, -⟩ := lexFrom_around v.stop behind inner w vs hvs
  have hsize : Text.size (front ++ own) = v.stop := by
    rw [Text.size_append, ← hown, ← hfront, Nat.zero_add]
  exact ⟨front ++ own, middle, back, by simp, hsize,
    by rw [Text.size_append, hsize, hmiddle], hinner⟩

/-! ## Blanks that are no spaces -/

theorem isIdentChar_of_isHexDigit (d : Char) (hd : isHexDigit d = true) :
    Text.isIdentChar d = true := by
  simp only [isHexDigit, Bool.or_eq_true, Bool.and_eq_true, decide_eq_true_eq] at hd
  rcases hd with (hd | ⟨hlo, hhi⟩) | ⟨hlo, hhi⟩
  · rw [Text.isIdentChar, Char.isAlphanum, hd, Bool.or_true, Bool.true_or]
  · have hhi' : d ≤ 'z' := Nat.le_trans hhi (by decide)
    have hlower : d.isLower = true :=
      Bool.and_eq_true_iff.2 ⟨decide_eq_true hlo, decide_eq_true hhi'⟩
    exact Text.isIdentChar_of_isLower hlower
  · have hhi' : d ≤ 'Z' := Nat.le_trans hhi (by decide)
    have hupper : d.isUpper = true := decide_eq_true ⟨hlo, hhi'⟩
    exact Text.isIdentChar_of_isAlpha (Bool.or_eq_true_iff.2 (.inl hupper))

theorem isIdentChar_of_isDigit (d : Char) (hd : d.isDigit = true) : Text.isIdentChar d = true := by
  rw [Text.isIdentChar, Char.isAlphanum, hd, Bool.or_true, Bool.true_or]

/-- No character of a symbol is blank. -/
theorem not_blank_of_mem_spelling (s : Symbol) :
    ∀ d ∈ s.spelling.toList, Text.isBlank d = false := by
  cases s <;> decide

/-- **No token begins with a blank**, and no comment does. -/
theorem lexeme_read_of_isBlank (hc : Text.isBlank c = true) (hspace : isSpace c = false)
    (cs : Text) :
    ∃ cause, (read c cs).lexeme = .fault cause := by
  -- The characters with which words and numbers begin can stand in identifiers, and no blank can.
  have hnot {p : Char → Bool} (hp : ∀ d, p d = true → Text.isIdentChar d = true) : p c ≠ true := by
    intro hpc
    rw [Text.isBlank_of_isIdentChar (hp c hpc)] at hc
    cases hc
  have hread := readAs_read c cs
  generalize read c cs = r at hread
  cases hread with
  | space h =>
    rw [h] at hspace
    cases hspace
  | word h => exact absurd h (hnot isIdentChar_of_isIdentStart)
  | number h => exact absurd h (hnot isIdentChar_of_isDigit)
  | symbol =>
    rw [readSymbol]
    split
    next s rest hsymbol =>
      -- A sign begins with the first character of its spelling, which is no blank.
      have hwhole := symbol?_eq_some hsymbol
      obtain ⟨d, ds, hspelling⟩ : ∃ d ds, s.spelling.toList = d :: ds :=
        List.exists_cons_of_ne_nil (by simpa using spelling_ne_empty s)
      rw [hspelling] at hwhole
      obtain rfl : d = c := (List.cons.inj hwhole).1
      rw [not_blank_of_mem_spelling s d (by rw [hspelling]; exact List.mem_cons_self)] at hc
      cases hc
    next => exact ⟨_, rfl⟩
  | _ => exact absurd hc (by decide)

/-- Where a text is read, **blanks at its front are spaces**. -/
theorem isSpace_of_blanks {b t : Text} (hb : ∀ d ∈ b, Text.isBlank d = true)
    (h : lexFrom pos (b ++ t) = .ok tokens) : ∀ d ∈ b, isSpace d = true := by
  induction b generalizing pos with
  | nil => exact fun d hd => (List.not_mem_nil hd).elim
  | cons c b ih =>
    rw [List.forall_mem_cons] at hb
    have hc : isSpace c = true := by
      refine Bool.not_eq_false _ ▸ fun hspace => ?_
      obtain ⟨cause, hcause⟩ := lexeme_read_of_isBlank hb.1 hspace (b ++ t)
      rw [List.cons_append, lexFrom] at h
      simp [hcause] at h
    have hskip : lexFrom pos (c :: b ++ t) = lexFrom (pos + c.utf8Size) (b ++ t) :=
      @lexFrom_spaces [c] (by simpa using hc) pos (b ++ t)
    rw [hskip] at h
    exact List.forall_mem_cons.2 ⟨hc, ih hb.2 h⟩

/-- A text of blanks that is read has **no tokens**. -/
theorem lexFrom_blanks {b : Text} (hb : ∀ d ∈ b, Text.isBlank d = true)
    (h : lexFrom pos b = .ok tokens) :
    tokens = [⟨.eof, pos + Text.size b, pos + Text.size b⟩] := by
  rw [← List.append_nil b] at h
  rw [lexFrom_spaces (isSpace_of_blanks hb h), lexFrom] at h
  exact (Except.ok.inj h).symm

/-! ## Blanks at the end -/

theorem last_stringBody? {cs value taken rest : Text}
    (h : stringBody? cs = some (value, taken, rest)) :
    taken.getLast? = some '\'' := by
  fun_induction stringBody? cs generalizing value taken rest with
  | case1 => simp at h
  | case2 cs ih =>
    obtain ⟨⟨v, t, r⟩, hb, heq⟩ := Option.map_eq_some_iff.1 h
    obtain ⟨-, rfl, -⟩ : '\'' :: v = value ∧ '\'' :: '\'' :: t = taken
      ∧ r = rest := by simpa using heq
    rw [List.getLast?_cons, List.getLast?_cons, ih hb]
    rfl
  | case3 cs _ =>
    obtain ⟨-, rfl, -⟩ : [] = value ∧ ['\''] = taken ∧ cs = rest := by simpa using h
    rfl
  | case4 => simp at h
  | case5 c cs _ _ _ ih =>
    obtain ⟨⟨v, t, r⟩, hb, heq⟩ := Option.map_eq_some_iff.1 h
    obtain ⟨-, rfl, -⟩ : c :: v = value ∧ c :: t = taken ∧ r = rest := by simpa using heq
    rw [List.getLast?_cons, ih hb]
    rfl

theorem not_blank_of_mem_readRun {p : Char → Bool}
    (hp : ∀ d, p d = true → Text.isIdentChar d = true) (kind : Text → TokenKind) {front : Text}
    (hfront : ∀ d ∈ front, Text.isBlank d = false) (cs : Text) :
    ∀ d ∈ (readRun p kind front cs).taken, Text.isBlank d = false := by
  intro d hd
  rcases List.mem_append.1 hd with hd | hd
  · exact hfront d hd
  · exact Text.isBlank_of_isIdentChar (hp d (List.all_eq_true.1 List.all_takeWhile d hd))

/-- **No token ends with a blank.** -/
theorem last_token (h : read c cs = ⟨.token kind, taken, rest⟩) :
    ∀ d ∈ taken.getLast?, Text.isBlank d = false := by
  -- Only a literal can have a blank in it, so for all other tokens no character is one.
  have hall {t : Text} (ht : ∀ d ∈ t, Text.isBlank d = false) : ∀ d ∈ t.getLast?,
      Text.isBlank d = false :=
    fun d hd => ht d (List.mem_of_getLast? hd)
  have hone {p : Char → Bool} (hp : ∀ d, p d = true → Text.isIdentChar d = true) {x : Char}
      (hx : p x = true) :
      ∀ d ∈ [x], Text.isBlank d = false := by
    intro d hd
    rw [List.mem_singleton.1 hd]
    exact Text.isBlank_of_isIdentChar (hp x hx)
  have hread := readAs_read c cs
  have htaken : taken = (read c cs).taken := by rw [h]
  have hlexeme : (read c cs).lexeme = .token kind := by rw [h]
  rw [htaken]
  generalize read c cs = r at hread hlexeme
  cases hread with
  | space => cases hlexeme
  | word hc =>
    exact hall (not_blank_of_mem_readRun (fun _ => id) _ (hone isIdentChar_of_isIdentStart hc) _)
  | number hc =>
    exact hall (not_blank_of_mem_readRun isIdentChar_of_isDigit _
      (hone isIdentChar_of_isDigit hc) _)
  | string =>
    rw [readString] at hlexeme ⊢
    split at hlexeme
    next value body rest hbody =>
      intro d hd
      -- A literal ends with its closing quote.
      have hlast : ('\'' :: body).getLast? = some d := hd
      rw [List.getLast?_cons, last_stringBody? hbody] at hlast
      obtain rfl : '\'' = d := by simpa using hlast
      decide
    next => cases hlexeme
  | braced =>
    rw [readComment] at hlexeme
    split at hlexeme <;> cases hlexeme
  | code =>
    unfold readCharCode
    repeat' split
    · exact hall (not_blank_of_mem_readRun isIdentChar_of_isDigit _ (by decide) _)
    · exact hall (not_blank_of_mem_readRun isIdentChar_of_isHexDigit _ (by decide) _)
    · exact hall (t := ['#']) (by decide)
    · exact hall (t := ['#']) (by decide)
  | escaped =>
    unfold readEscaped
    split
    · exact hall (@not_blank_of_mem_readRun _ (fun _ => id) .ident ['&'] (by decide) _)
    · exact hall (t := ['&']) (by decide)
  | hex => exact hall (not_blank_of_mem_readRun isIdentChar_of_isHexDigit _ (by decide) _)
  | starred =>
    rw [readComment] at hlexeme
    split at hlexeme <;> cases hlexeme
  | line => cases hlexeme
  | symbol =>
    rw [readSymbol] at hlexeme ⊢
    split at hlexeme
    next s rest _ => exact hall (not_blank_of_mem_spelling s)
    next => cases hlexeme

/-- What ends with blanks has a blank at its end. -/
theorem not_last_of_blanks {t more : Text} {d : Char}
    (hblank : ∀ x ∈ d :: more, Text.isBlank x = true) :
    ¬ ∀ x ∈ (t ++ d :: more).getLast?, Text.isBlank x = false := by
  intro hlast
  obtain ⟨x, hx⟩ : ∃ x, (d :: more).getLast? = some x := Option.isSome_iff_exists.1 (by simp)
  have hx' : (t ++ d :: more).getLast? = some x := by
    rw [List.getLast?_append, hx]
    rfl
  have hfalse := hlast x hx'
  rw [hblank x (List.mem_of_getLast? hx)] at hfalse
  cases hfalse

/-- What is skipped and **ends with blanks** is a run of spaces or a comment that goes to the end of
its line, and what is left of it without the blanks is skipped too. -/
theorem lexFrom_skip_cut {t : Text} {d : Char} (h : read c cs = ⟨.skip, t ++ d :: more, rest⟩)
    (hblank : ∀ x ∈ d :: more, Text.isBlank x = true) (pos : Nat) :
    lexFrom pos t = .ok [⟨.eof, pos + Text.size t, pos + Text.size t⟩] := by
  have hend (n : Nat) : lexFrom n [] = .ok [⟨.eof, n, n⟩] := by rw [lexFrom]
  have hclosed {opening closing cs : Text} {sign : Char} (hlast : closing.getLast? = some sign)
      (hsign : Text.isBlank sign = false) : readComment opening closing cs
      ≠ ⟨.skip, t ++ d :: more, rest⟩ := by
    intro hcomment
    have hne : closing ≠ [] := by
      rintro rfl
      cases hlast
    obtain ⟨inside, htaken, -⟩ := readComment_again hne hcomment
    refine not_last_of_blanks (t := t) hblank fun x hx => ?_
    have hx' : (t ++ d :: more).getLast? = some x := hx
    rw [htaken, ← List.append_assoc, List.getLast?_append, hlast, Option.some_or] at hx'
    rw [← Option.some.inj hx']
    exact hsign
  by_cases hspace : isSpace c = true
  · rw [read_of_isSpace hspace] at h
    obtain ⟨-, htaken, -⟩ := Reading.mk.inj h
    have hrun : ∀ x ∈ t, isSpace x = true := fun x hx =>
      isSpace_of_mem_run hspace x (htaken ▸ List.mem_append_left _ hx)
    rw [← hend, ← lexFrom_spaces hrun, List.append_nil]
  rcases readAs_skip (Bool.eq_false_iff.2 hspace) h with ⟨rfl, hcomment⟩ | ⟨ds, rfl, rfl, hcomment⟩
    | ⟨ds, rfl, rfl, htaken, -⟩
  · exact absurd hcomment (hclosed rfl (by decide))
  · exact absurd hcomment (hclosed rfl (by decide))
  · -- The two signs are no blanks, so they are left.
    have hsign : d ≠ '/' := by
      rintro rfl
      exact absurd (hblank '/' List.mem_cons_self) (by decide)
    obtain ⟨w, rfl, hw⟩ : ∃ w, t = '/' :: '/' :: w ∧ w ++ d :: more = ds.takeWhile (· != '\n') := by
      cases t with
      | nil => exact absurd (List.cons.inj htaken).1 hsign
      | cons x t =>
        obtain ⟨rfl, hsecond⟩ := List.cons.inj htaken
        cases t with
        | nil => exact absurd (List.cons.inj hsecond).1 hsign
        | cons y t =>
          obtain ⟨rfl, hw⟩ := List.cons.inj hsecond
          exact ⟨t, rfl, hw⟩
    have hline : ∀ x ∈ w, (x != '\n') = true := fun x hx =>
      List.all_eq_true.1 List.all_takeWhile x (hw ▸ List.mem_append_left _ hx)
    obtain ⟨htake, hdrop⟩ := takeWhile_append (b := []) hline rfl
    rw [List.append_nil] at htake hdrop
    have hread : read '/' ('/' :: w) = ⟨.skip, '/' :: '/' :: w, []⟩ := by
      show Reading.mk .skip ('/' :: '/' :: List.takeWhile _ _) (List.dropWhile _ _) = _
      rw [htake, hdrop]
    rw [lexFrom_skip hread, hend]

/-- Two ways to divide a text: the first front ends **in the second or goes past it**. -/
theorem append_eq_cases {a b t u : Text} (h : a ++ b = t ++ u) :
    (∃ more, t = a ++ more ∧ b = more ++ u)
      ∨ ∃ d more, a = t ++ d :: more ∧ u = d :: more ++ b := by
  rcases List.append_eq_append_iff.1 h with ⟨more, rfl, rfl⟩ | ⟨more, rfl, rfl⟩
  · exact .inl ⟨more, rfl, rfl⟩
  · cases more with
    | nil => exact .inl ⟨[], by simp, rfl⟩
    | cons d more => exact .inr ⟨d, more, rfl, rfl⟩

/-- The induction is on the readings of the whole text. The one at which the blanks begin is the
last, and it is no token. -/
theorem lexFrom_dropBlanks (pos : Nat) (all : Text) :
    ∀ t b tokens, all = t ++ b → (∀ d ∈ b, Text.isBlank d = true) → lexFrom pos all = .ok tokens →
      ∃ us, tokens = us ++ [⟨.eof, pos + Text.size all, pos + Text.size all⟩]
        ∧ lexFrom pos t = .ok (us ++ [⟨.eof, pos + Text.size t, pos + Text.size t⟩]) := by
  induction pos, all using lexFrom.induct with
  | case1 pos =>
    intro t b tokens hall _ h
    obtain ⟨rfl, rfl⟩ := List.append_eq_nil_iff.1 hall.symm
    rw [lexFrom] at h
    exact ⟨[], (Except.ok.inj h).symm, by rw [lexFrom]; rfl⟩
  | case2 pos c cs r stop hskip ih =>
    intro t b tokens hall hb h
    have hread : read c cs = ⟨.skip, r.taken, r.rest⟩ := by rw [← hskip]
    have hwhole : r.taken ++ r.rest = c :: cs := whole_read c cs
    have hsize : pos + Text.size (c :: cs) = stop + Text.size r.rest := by
      rw [← hwhole, Text.size_append, ← Nat.add_assoc]
    rw [lexFrom_skip hread] at h
    rw [hsize]
    rcases append_eq_cases (hwhole.trans hall) with ⟨more, rfl, hrest⟩ | ⟨d, more, htaken, rfl⟩
    · obtain ⟨us, htokens, hmore⟩ := ih more b tokens hrest hb h
      refine ⟨us, htokens, ?_⟩
      rw [lexFrom_skip_front hread ⟨b, hrest.symm⟩, Text.size_append, ← Nat.add_assoc]
      exact hmore
    · -- The blanks begin inside of what is skipped, and behind it there are only more of them.
      rw [List.forall_mem_append] at hb
      rw [htaken] at hread
      exact ⟨[], lexFrom_blanks hb.2 h, lexFrom_skip_cut hread hb.1 pos⟩
  | case3 pos c cs r stop kind htoken ih =>
    intro t b tokens hall hb h
    have hread : read c cs = ⟨.token kind, r.taken, r.rest⟩ := by rw [← htoken]
    have hwhole : r.taken ++ r.rest = c :: cs := whole_read c cs
    have hsize : pos + Text.size (c :: cs) = stop + Text.size r.rest := by
      rw [← hwhole, Text.size_append, ← Nat.add_assoc]
    rw [lexFrom_token hread] at h
    obtain ⟨ts, hts, rfl⟩ := Except.map_eq_ok h
    rw [hsize]
    rcases append_eq_cases (hwhole.trans hall) with ⟨more, rfl, hrest⟩ | ⟨d, more, htaken, rfl⟩
    · obtain ⟨us, rfl, hmore⟩ := ih more b ts hrest hb hts
      refine ⟨_ :: us, rfl, ?_⟩
      rw [lexFrom_token_front hread ⟨b, hrest.symm⟩, Text.size_append, ← Nat.add_assoc]
      show Except.map _ (lexFrom stop more) = _
      rw [hmore]
      rfl
    · -- The blanks cannot begin inside of a token, for its last character would be one of them.
      rw [List.forall_mem_append] at hb
      have hlast := last_token hread
      rw [htaken] at hlast
      exact absurd hlast (not_last_of_blanks hb.1)
  | case4 pos c cs r cause hfault =>
    intro t b tokens _ _ h
    rw [lexFrom] at h
    simp [r, hfault] at h

/-! ## Trimmed texts -/

theorem exists_append_trimEnd (t : Text) :
    ∃ b, t = Text.trimEnd t ++ b ∧ ∀ d ∈ b, Text.isBlank d = true := by
  refine ⟨(t.reverse.takeWhile Text.isBlank).reverse, ?_, fun d hd => ?_⟩
  · rw [Text.trimEnd, ← List.reverse_append, List.takeWhile_append_dropWhile, List.reverse_reverse]
  · exact List.all_eq_true.1 List.all_takeWhile d (List.mem_reverse.1 hd)

/-- **A trimmed text has the same tokens in the same places**, but for the end. -/
theorem lexFrom_trim {t : Text} (h : lexFrom pos t = .ok tokens) :
    ∃ us, tokens = us ++ [⟨.eof, pos + Text.size t, pos + Text.size t⟩]
      ∧ ∀ n, n = pos + Text.size (t.takeWhile Text.isBlank) →
        lexFrom n (Text.trim t)
          = .ok (us ++ [⟨.eof, n + Text.size (Text.trim t), n + Text.size (Text.trim t)⟩]) := by
  have hwhole : t.takeWhile Text.isBlank ++ Text.trimStart t = t := List.takeWhile_append_dropWhile
  have hblank : ∀ d ∈ t.takeWhile Text.isBlank, Text.isBlank d = true :=
    List.all_eq_true.1 List.all_takeWhile
  have hfront : lexFrom pos (t.takeWhile Text.isBlank ++ Text.trimStart t)
    = .ok tokens := by rwa [hwhole]
  rw [lexFrom_spaces (isSpace_of_blanks hblank hfront)] at hfront
  obtain ⟨b, hb, hend⟩ := exists_append_trimEnd (Text.trimStart t)
  obtain ⟨us, htokens, htrim⟩ := lexFrom_dropBlanks _ _ _ b tokens hb hend hfront
  have hsize : pos + Text.size t
      = pos + Text.size (t.takeWhile Text.isBlank) + Text.size (Text.trimStart t) := by
    rw [Nat.add_assoc, ← Text.size_append, hwhole]
  rw [← hsize] at htokens
  refine ⟨us, htokens, ?_⟩
  rintro n rfl
  exact htrim

/-- Where a text begins does not matter for **whether it can be read**. -/
theorem exists_lexFrom_of_shifted (d pos : Nat) (t : Text) :
    ∀ tokens, lexFrom (pos + d) t = .ok tokens → ∃ ts, lexFrom pos t = .ok ts := by
  have hsum (n : Nat) : pos + d + n = pos + n + d := by omega
  induction pos, t using lexFrom.induct with
  | case1 pos => exact fun _ _ => ⟨_, by rw [lexFrom]⟩
  | case2 pos c cs r stop hskip ih =>
    intro tokens h
    have hread : read c cs = ⟨.skip, r.taken, r.rest⟩ := by rw [← hskip]
    rw [lexFrom_skip hread, hsum] at h
    rw [lexFrom_skip hread]
    exact ih (fun n => by omega) tokens h
  | case3 pos c cs r stop kind htoken ih =>
    intro tokens h
    have hread : read c cs = ⟨.token kind, r.taken, r.rest⟩ := by rw [← htoken]
    rw [lexFrom_token hread, hsum] at h
    obtain ⟨ts, hts, -⟩ := Except.map_eq_ok h
    obtain ⟨us, hus⟩ := ih (fun n => by omega) ts hts
    exact ⟨_, by rw [lexFrom_token hread, hus]; rfl⟩
  | case4 pos c cs r cause hfault =>
    intro tokens h
    rw [lexFrom] at h
    simp [r, hfault] at h

/-- The tokens of a text are those that it has elsewhere, **moved to its beginning**. -/
theorem lex_of_lexFrom {t : Text} (h : lexFrom pos t = .ok tokens) :
    ∃ ts, lex t = .ok ts ∧ tokens = ts.map (shift pos) := by
  rw [← Nat.zero_add pos] at h
  obtain ⟨ts, hts⟩ := exists_lexFrom_of_shifted pos 0 t tokens h
  refine ⟨ts, hts, ?_⟩
  rw [lexFrom_shift pos 0 t ts hts] at h
  exact (Except.ok.inj h).symm

/-- **What stands between two tokens, trimmed,** has the tokens between them as its own, and these
stand in the source as far on as the text does. -/
theorem lex_trim_between {src : Text} {us inner vs : List Token} {v w : Token}
    (h : lex src = .ok (us ++ v :: (inner ++ w :: vs))) (hv : v.kind ≠ .eof) :
    v.stop ≤ w.start ∧ ∃ middle own n, Text.slice? src v.stop w.start = some middle
      ∧ Text.slice? src n (n + Text.size (Text.trim middle)) = some (Text.trim middle)
      ∧ lex (Text.trim middle) = .ok
        (own ++ [⟨.eof, Text.size (Text.trim middle), Text.size (Text.trim middle)⟩])
      ∧ inner = own.map (shift n) := by
  obtain ⟨front, middle, back, rfl, hfront, hstop, hlex⟩ := lexFrom_between h hv
  -- The trimmed text begins behind the blanks with which the text begins.
  let n := Text.size (front ++ middle.takeWhile Text.isBlank)
  have hn : n = v.stop + Text.size (middle.takeWhile Text.isBlank) := by
    rw [← hfront, ← Text.size_append]
  obtain ⟨us', hinner, htrim⟩ := lexFrom_trim hlex
  obtain ⟨ts, hts, hshift⟩ := lex_of_lexFrom (htrim n hn)
  obtain ⟨own, rfl, -⟩ := (stream_lex hts).eq_append_eof
  obtain rfl : inner = us' := (List.append_inj' hinner rfl).1
  rw [List.map_append] at hshift
  refine ⟨?_, middle, own, n, ?_, ?_, hts, (List.append_inj' hshift rfl).1⟩
  · rw [← hfront, ← hstop, Text.size_append]
    exact Nat.le_add_right _ _
  · rw [← hfront, ← hstop]
    exact Text.slice?_three_parts front middle back
  · obtain ⟨b, hb, -⟩ := exists_append_trimEnd (Text.trimStart middle)
    have hmiddle : middle.takeWhile Text.isBlank ++ (Text.trim middle ++ b) = middle := by
      rw [Text.trim, ← hb]
      exact List.takeWhile_append_dropWhile
    have hparts : front ++ middle ++ back
        = front ++ middle.takeWhile Text.isBlank ++ Text.trim middle ++ (b ++ back) := by
      calc front ++ middle ++ back
          = front ++ (middle.takeWhile Text.isBlank ++ (Text.trim middle ++ b))
          ++ back := by rw [hmiddle]
        _ = _ := by simp only [List.append_assoc]
    rw [hparts, ← Text.size_append]
    exact Text.slice?_three_parts _ _ _

end PascalAtlas.Token
