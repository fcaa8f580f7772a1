import PascalAtlas.Proofs.Neighbour

/-!
# Line breaks

No token goes past the end of its line, and a comment that does is closed by a sign of its own. So a
text that is read as tokens can be cut at a line break, if only no comment is open there, and the
two parts are read independently of each other: the first part is settled at the break (`Settled`),
and what stands behind the break can be exchanged for any other text (`lexFrom_line`).

This is what it takes to read a piece of text that is known only through its tokens: between line
breaks it has the same tokens wherever it stands (`lexFrom_shift`). The other way round, two texts
that are read by themselves can be joined by a line break, and the tokens of both are read from
the result (`lex_lines`).
-/

namespace PascalAtlas

namespace Token

/-! ## No token goes past its line -/

theorem newline_not_mem_takeWhile {p : Char → Bool} (hp : p '\n' = false) (cs : Text) :
    '\n' ∉ cs.takeWhile p := by
  intro hmem
  have hall := List.all_eq_true.1 (List.all_takeWhile (l := cs) (p := p)) _ hmem
  rw [hp] at hall
  cases hall

/-- A literal stays on its line. -/
theorem newline_not_mem_stringBody? {cs value taken rest : Text}
    (h : stringBody? cs = some (value, taken, rest)) : '\n' ∉ taken := by
  fun_induction stringBody? cs generalizing value taken rest with
  | case1 => simp at h
  | case2 cs ih =>
    obtain ⟨⟨v, t, r⟩, hb, heq⟩ := Option.map_eq_some_iff.1 h
    obtain ⟨-, rfl, -⟩ : '\'' :: v = value ∧ '\'' :: '\'' :: t = taken
      ∧ r = rest := by simpa using heq
    simpa using ih hb
  | case3 cs _ =>
    obtain ⟨-, rfl, -⟩ : [] = value ∧ ['\''] = taken ∧ cs = rest := by simpa using h
    simp
  | case4 => simp at h
  | case5 c cs _ _ hc ih =>
    obtain ⟨⟨v, t, r⟩, hb, heq⟩ := Option.map_eq_some_iff.1 h
    obtain ⟨-, rfl, -⟩ : c :: v = value ∧ c :: t = taken ∧ r = rest := by simpa using heq
    have hne : '\n' ≠ c := fun hn => hc hn.symm
    simpa [hne] using ih hb

/-- So does a run of characters. -/
theorem newline_not_mem_readRun {p : Char → Bool} (hp : p '\n' = false) (kind : Text → TokenKind)
    {front : Text} (hfront : '\n' ∉ front) (cs : Text) :
    '\n' ∉ (readRun p kind front cs).taken := by
  rw [readRun, List.mem_append]
  exact not_or.2 ⟨hfront, newline_not_mem_takeWhile hp cs⟩

theorem newline_ne {p : Char → Bool} (hp : p '\n' = false) {c : Char} (hc : p c = true) :
    '\n' ∉ [c] := by
  rw [List.mem_singleton]
  rintro rfl
  rw [hp] at hc
  cases hc

/-- A token lies within its line. -/
theorem newline_not_mem_token {c : Char} {cs taken rest : Text} {kind : TokenKind}
    (h : read c cs = ⟨.token kind, taken, rest⟩) : '\n' ∉ taken := by
  have hread := readAs_read c cs
  have htaken : taken = (read c cs).taken := by rw [h]
  rw [htaken]
  have hlexeme : (read c cs).lexeme = .token kind := by rw [h]
  generalize read c cs = r at hread hlexeme
  cases hread with
  | space => cases hlexeme
  | word hc => exact newline_not_mem_readRun rfl _ (newline_ne rfl hc) _
  | number hc => exact newline_not_mem_readRun rfl _ (newline_ne rfl hc) _
  | string =>
    rw [readString] at hlexeme ⊢
    split at hlexeme
    next value body rest hbody =>
      show '\n' ∉ '\'' :: body
      simpa using newline_not_mem_stringBody? hbody
    next => cases hlexeme
  -- Comments can go past a line, but they are no tokens.
  | braced =>
    rw [readComment] at hlexeme
    split at hlexeme <;> cases hlexeme
  | code =>
    unfold readCharCode
    repeat' split
    · exact newline_not_mem_readRun rfl _ (by decide) _
    · exact newline_not_mem_readRun rfl _ (by decide) _
    · show '\n' ∉ ['#']
      decide
    · show '\n' ∉ ['#']
      decide
  | escaped =>
    unfold readEscaped
    split
    · show '\n' ∉ '&' :: _
      simpa using newline_not_mem_takeWhile (p := Text.isIdentChar) rfl _
    · show '\n' ∉ ['&']
      decide
  | hex => exact newline_not_mem_readRun rfl _ (by decide) _
  | starred =>
    rw [readComment] at hlexeme
    split at hlexeme <;> cases hlexeme
  | line => cases hlexeme
  | symbol =>
    rw [readSymbol] at hlexeme ⊢
    split at hlexeme
    next s rest _ =>
      intro hmem
      have hspace := (spelling_short s).2 _ hmem
      cases hspace
    next => cases hlexeme

/-! ## A closed comment -/

/-- A sign without a line break is found **before** the break or not at all. -/
theorem dropPrefix?_line {front : Text} (hfront : '\n' ∉ front) (t tail : Text) :
    Text.dropPrefix? front (t ++ '\n' :: tail)
      = (Text.dropPrefix? front t).map (· ++ '\n' :: tail) := by
  induction front generalizing t with
  | nil => cases t <;> rfl
  | cons d ds ih =>
    obtain ⟨hd, hds⟩ := not_or.1 (mt List.mem_cons.2 hfront)
    cases t with
    | nil =>
      show (if d = '\n' then _ else _) = _
      rw [if_neg (Ne.symm hd)]
      rfl
    | cons c cs =>
      show (if d = c then Text.dropPrefix? ds (cs ++ '\n' :: tail) else none)
        = Option.map _ (if d = c then _ else _)
      by_cases hdc : d = c
      · rw [if_pos hdc, if_pos hdc, ih hds cs]
      · rw [if_neg hdc, if_neg hdc]
        rfl

/-- What does not contain a line break is found behind one or before it. -/
theorem cut?_line {needle : Text} (hneedle : '\n' ∉ needle) (hne : needle ≠ []) (t tail : Text) :
    Text.cut? needle (t ++ '\n' :: tail)
      = match Text.cut? needle t with
        | some (front, back) => some (front, back ++ '\n' :: tail)
        | none => (Text.cut? needle tail).map fun (front, back) => (t ++ '\n' :: front, back) := by
  induction t with
  | nil =>
    obtain ⟨d, ds, rfl⟩ := List.exists_cons_of_ne_nil hne
    have hnone : Text.dropPrefix? (d :: ds) ('\n' :: tail) = none :=
      dropPrefix?_line hneedle [] tail
    simp only [List.nil_append, Text.cut?, hnone]
    rfl
  | cons c cs ih =>
    rw [List.cons_append, Text.cut?, ← List.cons_append, dropPrefix?_line hneedle, Text.cut?, ih]
    cases Text.dropPrefix? needle (c :: cs) with
    | some rest => rfl
    | none =>
      cases Text.cut? needle cs with
      | some cut => rfl
      | none => cases Text.cut? needle tail <;> rfl

/-- A text in which no comment is closed. -/
def ClosesNothing (t : Text) : Prop :=
  Text.cut? ['}'] t = none ∧ Text.cut? ['*', ')'] t = none

/-- A comment that is not open at the break has been closed before it. -/
theorem readComment_line {opening closing cs tail taken rest : Text} {lexeme : Lexeme}
    (hclosing : '\n' ∉ closing) (hne : closing ≠ []) (htail : Text.cut? closing tail = none)
    (h : readComment opening closing (cs ++ '\n' :: tail) = ⟨lexeme, taken, rest⟩)
    (hfault : ∀ cause, lexeme ≠ .fault cause) :
    ∃ more, opening ++ cs = taken ++ more ∧
      ∀ rest', readComment opening closing (cs ++ '\n' :: rest')
        = ⟨lexeme, taken, more ++ '\n' :: rest'⟩ := by
  rw [readComment, cut?_line hclosing hne, htail] at h
  cases hcut : Text.cut? closing cs with
  | none =>
    simp only [hcut, Option.map_none] at h
    exact absurd (Reading.mk.inj h).1.symm (hfault _)
  | some cut =>
    simp only [hcut] at h
    obtain ⟨rfl, rfl, -⟩ := Reading.mk.inj h
    refine ⟨cut.2, ?_, fun rest' => ?_⟩
    · rw [List.append_assoc, List.append_assoc, ← List.append_assoc cut.1, cut?_eq_some hcut]
    · rw [readComment, cut?_line hclosing hne, hcut]

/-! ## A reading before a line break -/

/-- Two texts of which one has the line break and the other begins before it. -/
theorem append_eq_line {a b t tail : Text} (h : a ++ b = t ++ '\n' :: tail) (ha : '\n' ∉ a) :
    ∃ more, t = a ++ more ∧ b = more ++ '\n' :: tail := by
  rcases List.append_eq_append_iff.1 h with ⟨more, rfl, rfl⟩ | ⟨more, rfl, hmore⟩
  · exact ⟨more, rfl, rfl⟩
  · cases more with
    | nil => exact ⟨[], by simp, hmore.symm⟩
    | cons c more =>
      obtain ⟨rfl, -⟩ := List.cons.inj hmore
      exact absurd (by simp) ha

/-- What begins with another character than the line break has it further on. -/
theorem line_of_cons {d : Char} (hd : d ≠ '\n') {cs ds tail : Text}
    (h : cs ++ '\n' :: tail = d :: ds) :
    ∃ more, cs = d :: more ∧ ds = more ++ '\n' :: tail := by
  cases cs with
  | nil => exact absurd (List.cons.inj h).1.symm hd
  | cons c cs =>
    obtain ⟨rfl, rfl⟩ := List.cons.inj h
    exact ⟨cs, rfl, rfl⟩

/-- A run ends at the break at the latest. -/
theorem takeWhile_line {p : Char → Bool} (hp : p '\n' = false) (t tail : Text) :
    (t ++ '\n' :: tail).takeWhile p = t.takeWhile p
      ∧ (t ++ '\n' :: tail).dropWhile p = t.dropWhile p ++ '\n' :: tail := by
  induction t with
  | nil => simp [hp]
  | cons c cs ih =>
    by_cases hc : p c = true
    · simp [hc, ih]
    · simp [hc]

/-- A run of spaces has nothing but spaces in it. -/
theorem isSpace_of_mem_run {c : Char} (hc : isSpace c = true) {cs : Text} :
    ∀ d ∈ c :: cs.takeWhile isSpace, isSpace d = true := by
  simpa [hc] using List.all_eq_true.1 (List.all_takeWhile (l := cs) (p := isSpace))

/-- What is skipped, and is no space, is a comment. -/
theorem readAs_skip {c : Char} {cs taken rest : Text} (hspace : isSpace c = false)
    (h : read c cs = ⟨.skip, taken, rest⟩) :
    (c = '{' ∧ readComment ['{'] ['}'] cs = ⟨.skip, taken, rest⟩)
      ∨ (∃ ds, c = '(' ∧ cs = '*' :: ds
        ∧ readComment ['(', '*'] ['*', ')'] ds = ⟨.skip, taken, rest⟩)
      ∨ ∃ ds, c = '/' ∧ cs = '/' :: ds ∧ taken = '/' :: '/' :: ds.takeWhile (· != '\n')
        ∧ rest = ds.dropWhile (· != '\n') := by
  have hread := readAs_read c cs
  rw [h] at hread
  generalize hr : (⟨.skip, taken, rest⟩ : Reading) = r at hread
  cases hread with
  | space hc =>
    rw [hc] at hspace
    cases hspace
  | braced => exact .inl ⟨rfl, rfl⟩
  | starred => exact .inr (.inl ⟨_, rfl, rfl, rfl⟩)
  | line =>
    obtain ⟨-, rfl, rfl⟩ := Reading.mk.inj hr
    exact .inr (.inr ⟨_, rfl, rfl, rfl, rfl⟩)
  -- The other readings give a token or a fault.
  | word => cases hr
  | number => cases hr
  | hex => cases hr
  | string =>
    rw [readString] at hr
    split at hr <;> cases hr
  | code =>
    unfold readCharCode at hr
    repeat' split at hr
    all_goals cases hr
  | escaped =>
    unfold readEscaped at hr
    split at hr <;> cases hr
  | symbol =>
    rw [readSymbol] at hr
    split at hr <;> cases hr

/-- What is read before a line break is read there **whatever comes behind it**. -/
theorem read_line {c : Char} {cs tail taken rest : Text} {lexeme : Lexeme}
    (hspace : isSpace c = false) (htail : ClosesNothing tail)
    (h : read c (cs ++ '\n' :: tail) = ⟨lexeme, taken, rest⟩)
    (hfault : ∀ cause, lexeme ≠ .fault cause) :
    ∃ more, c :: cs = taken ++ more ∧
      ∀ rest', read c (cs ++ '\n' :: rest') = ⟨lexeme, taken, more ++ '\n' :: rest'⟩ := by
  have hwhole := whole_read c (cs ++ '\n' :: tail)
  rw [h, Reading.whole_mk, ← List.cons_append] at hwhole
  cases lexeme with
  | fault cause => exact absurd rfl (hfault cause)
  | token kind =>
    -- A token ends before the break, and the character behind it is the same as
    -- before or the break.
    obtain ⟨more, hmore, rfl⟩ := append_eq_line hwhole (newline_not_mem_token h)
    have hne := taken_read_ne_nil c (cs ++ '\n' :: tail)
    rw [h] at hne
    obtain ⟨d, front, rfl⟩ := List.exists_cons_of_ne_nil hne
    refine ⟨more, hmore, fun rest' => ?_⟩
    rw [List.cons_append, List.cons.injEq] at hmore
    obtain ⟨rfl, rfl⟩ := hmore
    rw [List.append_assoc]
    refine again_read _ _ _ _ _ _ h (.inl ?_)
    cases more <;> rfl
  | skip =>
    rcases readAs_skip hspace h with ⟨rfl, hcomment⟩ | ⟨ds, rfl, hds, hcomment⟩ |
      ⟨ds, rfl, hds, rfl, -⟩
    · exact readComment_line (by decide) (by decide) htail.1 hcomment (by simp)
    · obtain ⟨cs, rfl, rfl⟩ := line_of_cons (by decide) hds
      exact readComment_line (by decide) (by decide) htail.2 hcomment (by simp)
    · obtain ⟨cs, rfl, rfl⟩ := line_of_cons (by decide) hds
      -- A comment up to the end of its line stops at the break.
      refine ⟨cs.dropWhile (· != '\n'), ?_, fun rest' => ?_⟩
      · rw [(takeWhile_line rfl cs tail).1]
        simp
      · show Reading.mk _ ('/' :: '/' :: (cs ++ '\n' :: rest').takeWhile _)
          ((cs ++ '\n' :: rest').dropWhile _) = _
        rw [(takeWhile_line rfl cs rest').1, (takeWhile_line rfl cs rest').2,
          (takeWhile_line rfl cs tail).1]

/-! ## Whole texts -/

theorem map_nil_append (r : Except LexError (List Token)) : r.map ([] ++ ·) = r := by
  cases r <;> rfl

/-- Tokens that are put in front one after the other are put in front together. -/
theorem map_append_append (us vs : List Token) (r : Except LexError (List Token)) :
    (r.map (vs ++ ·)).map (us ++ ·) = r.map (us ++ vs ++ ·) := by
  cases r with
  | error => rfl
  | ok ts => simp [Except.map]

/-- A text that is **settled** before a line break: it is read up to the break and no further, and
in the same way whatever comes behind the break. -/
inductive Settled : Text → Prop
  | nil : Settled []
  | space {c : Char} {cs : Text} (hspace : isSpace c = true) (h : Settled cs) : Settled (c :: cs)
  | skip {c : Char} {cs taken more : Text} (hspace : isSpace c = false)
      (hcut : c :: cs = taken ++ more)
      (hread : ∀ rest, read c (cs ++ '\n' :: rest) = ⟨.skip, taken, more ++ '\n' :: rest⟩)
      (h : Settled more) :
      Settled (c :: cs)
  | token {c : Char} {cs taken more : Text} {kind : TokenKind} (hcut : c :: cs = taken ++ more)
      (hread : ∀ rest, read c (cs ++ '\n' :: rest) = ⟨.token kind, taken, more ++ '\n' :: rest⟩)
      (h : Settled more) :
      Settled (c :: cs)

/-- A text that was read once, with nothing behind the line break that closes a
comment, is settled. -/
theorem settled_of_lexFrom {tail : Text} (htail : ClosesNothing tail) (t : Text) (pos : Nat)
    {tokens : List Token} (h : lexFrom pos (t ++ '\n' :: tail) = .ok tokens) : Settled t := by
  induction hn : t.length using Nat.strongRecOn generalizing t pos tokens with
  | _ n ih =>
    subst hn
    cases t with
    | nil => exact .nil
    | cons c cs =>
      by_cases hspace : isSpace c = true
      · -- A space is skipped alone; what is skipped with it comes next.
        have hskip := @lexFrom_spaces [c] (by simpa using hspace) pos (cs ++ '\n' :: tail)
        exact .space hspace (ih cs.length (by simp) cs _ (hskip.symm.trans h) rfl)
      · rw [Bool.not_eq_true] at hspace
        have hne := taken_read_ne_nil c (cs ++ '\n' :: tail)
        obtain ⟨lexeme, taken, rest, hread⟩ : ∃ lexeme taken rest,
            read c (cs ++ '\n' :: tail) = ⟨lexeme, taken, rest⟩ := ⟨_, _, _, rfl⟩
        rw [hread] at hne
        -- What is read ends before the break, so what is left is shorter and has
        -- the same break in it.
        have hshorter : ∀ {more : Text}, c :: cs = taken ++ more →
            more.length < (c :: cs).length := by
          intro more hcut
          have hpos : 0 < taken.length := List.length_pos_iff.2 hne
          rw [hcut, List.length_append]
          omega
        cases lexeme with
        | fault cause =>
          rw [List.cons_append, lexFrom] at h
          simp only [hread] at h
          cases h
        | skip =>
          obtain ⟨more, hcut, hagain⟩ := read_line hspace htail hread (by simp)
          rw [List.cons_append, lexFrom_skip (hagain tail)] at h
          exact .skip hspace hcut hagain (ih _ (hshorter hcut) more _ h rfl)
        | token kind =>
          obtain ⟨more, hcut, hagain⟩ := read_line hspace htail hread (by simp)
          rw [List.cons_append, lexFrom_token (hagain tail)] at h
          obtain ⟨ts, hts, -⟩ := Except.map_eq_ok h
          exact .token hcut hagain (ih _ (hshorter hcut) more _ hts rfl)

/-- A settled text has its own tokens, and behind the line break come those of the rest. -/
theorem Settled.exists_tokens {t : Text} (h : Settled t) (pos : Nat) :
    ∃ us, ∀ rest, lexFrom pos (t ++ '\n' :: rest)
      = (lexFrom (pos + Text.size t + 1) rest).map (us ++ ·) := by
  have hsize : ∀ {cs taken more : Text}, cs = taken ++ more → ∀ pos,
      pos + Text.size taken + Text.size more + 1 = pos + Text.size cs + 1 := by
    intro cs taken more hcut pos
    rw [hcut, Text.size_append, Nat.add_assoc pos]
  induction h generalizing pos with
  | nil =>
    refine ⟨[], fun rest => ?_⟩
    rw [map_nil_append]
    exact @lexFrom_spaces ['\n'] (by decide) pos rest
  | @space c cs hspace _ ih =>
    obtain ⟨us, hus⟩ := ih (pos + Text.size [c])
    refine ⟨us, fun rest => ?_⟩
    have hcut : c :: cs = [c] ++ cs := rfl
    rw [← hsize hcut, ← hus]
    exact @lexFrom_spaces [c] (by simpa using hspace) pos (cs ++ '\n' :: rest)
  | @skip c cs taken more _ hcut hread _ ih =>
    obtain ⟨us, hus⟩ := ih (pos + Text.size taken)
    refine ⟨us, fun rest => ?_⟩
    rw [List.cons_append, lexFrom_skip (hread rest), hus, hsize hcut]
  | @token c cs taken more kind hcut hread _ ih =>
    obtain ⟨us, hus⟩ := ih (pos + Text.size taken)
    refine ⟨⟨kind, pos, pos + Text.size taken⟩ :: us, fun rest => ?_⟩
    rw [List.cons_append, lexFrom_token (hread rest), hus, hsize hcut]
    exact map_append_append [_] us _

/-- **A line break divides the tokens.** If a text is read up to its end, and behind the line break
no comment is closed, then the tokens before the break are the same whatever comes behind it. -/
theorem lexFrom_line {tail : Text} (htail : ClosesNothing tail) (t : Text) (pos : Nat)
    {tokens : List Token} (h : lexFrom pos (t ++ '\n' :: tail) = .ok tokens) :
    ∃ us vs, tokens = us ++ vs ∧ lexFrom (pos + Text.size t + 1) tail = .ok vs ∧ ∀ rest,
      lexFrom pos (t ++ '\n' :: rest) = (lexFrom (pos + Text.size t + 1) rest).map (us ++ ·) := by
  obtain ⟨us, hus⟩ := (settled_of_lexFrom htail t pos h).exists_tokens pos
  rw [hus] at h
  obtain ⟨vs, hvs, rfl⟩ := Except.map_eq_ok h
  exact ⟨us, vs, rfl, hvs, hus⟩

/-- A token that stands some bytes further on. -/
def shift (d : Nat) (t : Token) : Token :=
  { t with start := t.start + d, stop := t.stop + d }

/-- Where a text begins does not matter for its tokens, but for the place where they stand. -/
theorem lexFrom_shift (d pos : Nat) (t : Text) :
    ∀ tokens, lexFrom pos t = .ok tokens → lexFrom (pos + d) t = .ok (tokens.map (shift d)) := by
  have hsum : ∀ m n : Nat, m + d + n = m + n + d := by omega
  induction pos, t using lexFrom.induct with
  | case1 pos =>
    intro tokens h
    rw [lexFrom] at h
    obtain rfl := Except.ok.inj h
    rw [lexFrom]
    rfl
  | case2 pos c cs r stop hskip ih =>
    intro tokens h
    have hread : read c cs = ⟨.skip, r.taken, r.rest⟩ := by rw [← hskip]
    rw [lexFrom_skip hread] at h
    rw [lexFrom_skip hread, hsum]
    exact ih tokens h
  | case3 pos c cs r stop kind htoken ih =>
    intro tokens h
    have hread : read c cs = ⟨.token kind, r.taken, r.rest⟩ := by rw [← htoken]
    rw [lexFrom_token hread] at h
    obtain ⟨ts, hts, rfl⟩ := Except.map_eq_ok h
    rw [lexFrom_token hread, hsum, ih ts hts]
    rfl
  | case4 pos c cs r cause hfault =>
    intro tokens h
    rw [lexFrom] at h
    simp [r, hfault] at h

/-! ## Joining two texts

The other way round nothing is asked of what stands behind the break. A text that is read up to
its own end has no comment and no literal open there, and a line break extends none of the
tokens that end at it. -/

/-- What is read before the end of a text is read before a line break. -/
theorem follows_line (rest tail : Text) : Follows rest (rest ++ '\n' :: tail) := by
  by_cases hrest : rest = []
  · subst hrest
    exact follows_space (by decide) _ _
  · obtain ⟨c, cs, rfl⟩ := List.exists_cons_of_ne_nil hrest
    exact .inl rfl

/-- A comment that is closed stays closed, whatever comes behind the break. -/
theorem readComment_joined {opening closing cs taken rest : Text} (hclosing : '\n' ∉ closing)
    (hne : closing ≠ []) (h : readComment opening closing cs = ⟨.skip, taken, rest⟩) (tail : Text) :
    readComment opening closing (cs ++ '\n' :: tail) = ⟨.skip, taken, rest ++ '\n' :: tail⟩ := by
  rw [readComment] at h
  split at h
  next inside back hcut =>
    obtain ⟨-, rfl, rfl⟩ := Reading.mk.inj h
    rw [readComment, cut?_line hclosing hne, hcut]
  next => cases (Reading.mk.inj h).1

/-- What is read from a text is read from it **also where a line break and another text follow**. -/
theorem read_joined {c : Char} {cs taken rest : Text} {lexeme : Lexeme}
    (hspace : isSpace c = false) (h : read c cs = ⟨lexeme, taken, rest⟩)
    (hfault : ∀ cause, lexeme ≠ .fault cause) (tail : Text) :
    read c (cs ++ '\n' :: tail) = ⟨lexeme, taken, rest ++ '\n' :: tail⟩ := by
  have hwhole := whole_read c cs
  have hne := taken_read_ne_nil c cs
  rw [h] at hwhole hne
  cases lexeme with
  | fault cause => exact absurd rfl (hfault cause)
  | token kind =>
    obtain ⟨d, front, rfl⟩ := List.exists_cons_of_ne_nil hne
    obtain ⟨rfl, rfl⟩ := List.cons.inj hwhole
    have hagain := again_read d _ kind front rest _ h (follows_line rest tail)
    rwa [← List.append_assoc] at hagain
  | skip =>
    rcases readAs_skip hspace h with ⟨rfl, hcomment⟩ | ⟨ds, rfl, rfl, hcomment⟩ |
      ⟨ds, rfl, rfl, rfl, rfl⟩
    · exact readComment_joined (by decide) (by decide) hcomment tail
    · exact readComment_joined (by decide) (by decide) hcomment tail
    · -- A comment that ends with the text ends at the break.
      show Reading.mk _ ('/' :: '/' :: (ds ++ '\n' :: tail).takeWhile _)
        ((ds ++ '\n' :: tail).dropWhile _) = _
      rw [(takeWhile_line rfl ds tail).1, (takeWhile_line rfl ds tail).2]

/-- The induction is on the readings of the first text. Only a run of spaces can go on behind it,
and spaces give no token. -/
theorem lexFrom_joined (pos : Nat) (t : Text) :
    ∀ tokens, lexFrom pos t = .ok tokens →
      ∃ us, tokens = us ++ [⟨.eof, pos + Text.size t, pos + Text.size t⟩] ∧ ∀ rest,
        lexFrom pos (t ++ '\n' :: rest) = (lexFrom (pos + Text.size t + 1) rest).map (us ++ ·) := by
  have hsize : ∀ {taken rest : Text} {c : Char} {cs : Text}, taken ++ rest = c :: cs → ∀ pos,
      pos + Text.size taken + Text.size rest = pos + Text.size (c :: cs) := by
    intro taken rest c cs hwhole pos
    rw [← hwhole, Text.size_append, Nat.add_assoc]
  induction pos, t using lexFrom.induct with
  | case1 pos =>
    intro tokens h
    rw [lexFrom] at h
    refine ⟨[], (Except.ok.inj h).symm, fun rest => ?_⟩
    rw [map_nil_append]
    exact @lexFrom_spaces ['\n'] (by decide) pos rest
  | case2 pos c cs r stop hskip ih =>
    intro tokens h
    have hread : read c cs = ⟨.skip, r.taken, r.rest⟩ := by rw [← hskip]
    have hwhole : r.taken ++ r.rest = c :: cs := whole_read c cs
    rw [lexFrom_skip hread] at h
    obtain ⟨us, htokens, hrest⟩ := ih tokens h
    rw [hsize hwhole] at htokens hrest
    refine ⟨us, htokens, fun rest => ?_⟩
    rw [← hrest rest]
    by_cases hspace : isSpace c = true
    · -- More spaces may follow behind the break, but the first ones can be skipped by themselves.
      obtain ⟨-, htaken, -⟩ := Reading.mk.inj (hread.symm.trans (read_of_isSpace hspace cs))
      have hspaces : ∀ d ∈ r.taken, isSpace d = true := by
        rw [htaken]
        exact isSpace_of_mem_run hspace
      rw [← hwhole, List.append_assoc, lexFrom_spaces hspaces]
    · rw [List.cons_append, lexFrom_skip
        (read_joined (Bool.eq_false_iff.2 hspace) hread (by simp) rest)]
  | case3 pos c cs r stop kind htoken ih =>
    intro tokens h
    have hread : read c cs = ⟨.token kind, r.taken, r.rest⟩ := by rw [← htoken]
    have hwhole : r.taken ++ r.rest = c :: cs := whole_read c cs
    have hspace : isSpace c = false := by
      rw [← Bool.not_eq_true]
      intro hc
      rw [read_of_isSpace hc] at hread
      cases (Reading.mk.inj hread).1
    rw [lexFrom_token hread] at h
    obtain ⟨ts, hts, rfl⟩ := Except.map_eq_ok h
    obtain ⟨us, rfl, hrest⟩ := ih ts hts
    rw [hsize hwhole] at hrest ⊢
    refine ⟨_ :: us, rfl, fun rest => ?_⟩
    rw [List.cons_append, lexFrom_token (read_joined hspace hread (by simp) rest), hrest rest]
    exact map_append_append [_] us _
  | case4 pos c cs r cause hfault =>
    intro tokens h
    rw [lexFrom] at h
    simp [r, hfault] at h

/-- **Lines are read one by one.** A text that is read as tokens, a line break and another such text
have the tokens of the first without its `eof`, and behind them those of the second, moved by what
stands in front of them. -/
theorem lex_lines {a b : Text} {front back : List Token} (ha : lex a = .ok front)
    (hb : lex b = .ok back) :
    ∃ us, front = us ++ [⟨.eof, Text.size a, Text.size a⟩]
      ∧ lex (a ++ '\n' :: b) = .ok (us ++ back.map (shift (Text.size a + 1))) := by
  obtain ⟨us, hfront, hrest⟩ := lexFrom_joined 0 a front ha
  have hback := lexFrom_shift (Text.size a + 1) 0 b back hb
  rw [Nat.zero_add] at hfront hrest hback
  refine ⟨us, hfront, ?_⟩
  rw [lex, hrest b, hback]
  rfl

/-- The first text ends in a comment that has a quote in it, and the second begins with what
could end an operator. -/
theorem lex_lines_comment :
    lex "a:// 'é".toList = .ok [⟨.ident ['a'], 0, 1⟩, ⟨.symbol .colon, 1, 2⟩, ⟨.eof, 8, 8⟩]
      ∧ lex "='b'".toList = .ok [⟨.symbol .eq, 0, 1⟩, ⟨.str ['b'], 1, 4⟩, ⟨.eof, 4, 4⟩]
      ∧ lex "a:// 'é\n='b'".toList
        = .ok [⟨.ident ['a'], 0, 1⟩, ⟨.symbol .colon, 1, 2⟩, ⟨.symbol .eq, 9, 10⟩,
          ⟨.str ['b'], 10, 13⟩, ⟨.eof, 13, 13⟩] := by
  have ha : lex "a:// 'é".toList
      = .ok [⟨.ident ['a'], 0, 1⟩, ⟨.symbol .colon, 1, 2⟩, ⟨.eof, 8, 8⟩] := by
    with_unfolding_all rfl
  have hb : lex "='b'".toList = .ok [⟨.symbol .eq, 0, 1⟩, ⟨.str ['b'], 1, 4⟩, ⟨.eof, 4, 4⟩] := by
    with_unfolding_all rfl
  obtain ⟨us, hus, hlex⟩ := lex_lines ha hb
  have hfront : [⟨.ident ['a'], 0, 1⟩, ⟨.symbol .colon, 1, 2⟩] = us := by
    simpa using congrArg List.dropLast hus
  rw [← hfront] at hlex
  exact ⟨ha, hb, hlex⟩

end Token

end PascalAtlas
