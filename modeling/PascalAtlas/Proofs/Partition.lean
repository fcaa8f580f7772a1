import PascalAtlas.Proofs.Line

/-!
# The partition of a text

The tokens of a text and the gaps between them are the whole text, and each of the two can be
told from what it is made of. A **gap** is spaces and complete comments, said here without
the reader (`Gap`). A **token** is what is read from its own text alone (`Alone`): what
stands around it has had no part in what it is, although the reader looks past the end of
every token for something longer.

Both come from one induction over the readings (`divided_lexFrom`). What has been skipped since the
last token is carried along as a gap that ends where the next reading begins. That a comment is
closed by its **first** closing sign is a fact about the search for it (`cut?_first`).
-/

namespace PascalAtlas

namespace Token

/-! ## Gaps -/

/-- The signs that open and close a comment of its own. -/
def commentSigns : List (Text × Text) :=
  [(['{'], ['}']), (['(', '*'], ['*', ')'])]

/-- **Complete comments**, with the text that follows them. A comment between two signs has its
closing sign at its end and not before; a comment at the end of a line goes up to the line break, or
to the end of the text. -/
inductive Comment : Text → Text → Prop
  | closed {opening closing inside rest : Text} (hsigns : (opening, closing) ∈ commentSigns)
      (hfirst : ¬ closing <:+: inside ++ closing.dropLast) :
      Comment (opening ++ inside ++ closing) rest
  | line {inside rest : Text} (hline : '\n' ∉ inside) (hrest : ∀ c ∈ rest.head?, c = '\n') :
    Comment ('/' :: '/' :: inside) rest

/-- **Gaps**, with the text that follows them: runs of spaces and complete comments,
one after the other. -/
inductive Gap : Text → Text → Prop
  | nil {rest : Text} : Gap [] rest
  | spaces {run gap rest : Text} (hne : run ≠ []) (hrun : ∀ c ∈ run, isSpace c = true)
    (more : Gap gap rest) :
    Gap (run ++ gap) rest
  | comment {comment gap rest : Text} (hcomment : Comment comment (gap ++ rest))
    (more : Gap gap rest) :
    Gap (comment ++ gap) rest

/-- A gap and then a gap is a gap. -/
theorem Gap.append {a b rest : Text} (ha : Gap a (b ++ rest)) (hb : Gap b rest) :
    Gap (a ++ b) rest := by
  generalize hall : b ++ rest = all at ha
  induction ha with
  | nil => exact hb
  | spaces hne hrun _ ih =>
    rw [List.append_assoc]
    exact .spaces hne hrun (ih hall)
  | comment hcomment _ ih =>
    subst hall
    rw [List.append_assoc]
    rw [← List.append_assoc] at hcomment
    exact .comment hcomment (ih rfl)

/-! ## What is skipped is a gap -/

/-- What is found first does not begin before it is found. -/
theorem cut?_first {needle t front back : Text} (hne : needle ≠ [])
    (h : Text.cut? needle t = some (front, back)) :
    ¬ needle <:+: front ++ needle.dropLast := by
  induction t generalizing front with
  | nil =>
    rw [Text.cut?, if_neg (by simpa using hne)] at h
    cases h
  | cons c cs ih =>
    rw [Text.cut?] at h
    split at h
    next rest hrest =>
      obtain ⟨rfl, rfl⟩ : [] = front ∧ rest = back := by simpa using h
      -- Without its last character the needle is too short to hold itself.
      intro hinfix
      have hle := hinfix.length_le
      have hpos := List.length_pos_iff.2 hne
      rw [List.nil_append, List.length_dropLast] at hle
      omega
    next hnone =>
      obtain ⟨⟨front', back'⟩, hcut, heq⟩ := Option.map_eq_some_iff.1 h
      obtain ⟨rfl, rfl⟩ : c :: front' = front ∧ back' = back := by simpa using heq
      rintro hinfix
      rcases List.infix_cons_iff.1 hinfix with hprefix | hinfix
      · -- A needle that begins here would have been found here.
        have hlonger : c :: (front' ++ needle.dropLast) <+: c :: cs := by
          rw [← cut?_eq_some hcut, List.append_assoc]
          refine List.cons_prefix_cons.2 ⟨rfl, (List.prefix_append_right_inj _).2 ?_⟩
          exact (List.dropLast_prefix needle).trans (List.prefix_append _ _)
        obtain ⟨rest, hrest⟩ := hprefix.trans hlonger
        rw [← hrest, dropPrefix?_append] at hnone
        cases hnone
      · exact ih hcut hinfix

/-- What is skipped as a comment is a comment: its sign is the **first** that closes it. -/
theorem comment_readComment {opening closing cs taken rest : Text}
    (hsigns : (opening, closing) ∈ commentSigns) (hne : closing ≠ [])
    (h : readComment opening closing cs = ⟨.skip, taken, rest⟩) : Comment taken rest := by
  rw [readComment] at h
  split at h
  next inside back hcut =>
    obtain ⟨-, rfl, rfl⟩ := Reading.mk.inj h
    exact .closed hsigns (cut?_first hne hcut)
  next => cases (Reading.mk.inj h).1

/-- A comment to the end of the line ends at the line break. -/
theorem head?_dropWhile_line (cs : Text) : ∀ c ∈ (cs.dropWhile (· != '\n')).head?, c = '\n' := by
  intro c hc
  have hstop := headIs_dropWhile (· != '\n') cs
  obtain ⟨ds, hds⟩ := List.head?_eq_some_iff.1 hc
  rw [hds] at hstop
  simpa [headIs] using hstop

/-- **What is skipped is a gap.** -/
theorem gap_read {c : Char} {cs taken rest : Text} (h : read c cs = ⟨.skip, taken, rest⟩) :
    Gap taken rest := by
  have hcomment : ∀ {t : Text}, Comment t rest → Gap t rest := by
    intro t ht
    rw [← List.append_nil t]
    exact .comment ht .nil
  by_cases hspace : isSpace c = true
  · rw [read_of_isSpace hspace] at h
    obtain ⟨-, rfl, rfl⟩ := Reading.mk.inj h
    rw [← List.append_nil (c :: _)]
    exact .spaces (List.cons_ne_nil _ _) (isSpace_of_mem_run hspace) .nil
  · rcases readAs_skip (Bool.eq_false_iff.2 hspace) h with ⟨rfl, hread⟩ | ⟨ds, rfl, rfl, hread⟩
      | ⟨ds, rfl, rfl, rfl, rfl⟩
    · exact hcomment (comment_readComment (by decide) (by decide) hread)
    · exact hcomment (comment_readComment (by decide) (by decide) hread)
    · exact hcomment (.line (newline_not_mem_takeWhile rfl ds) (head?_dropWhile_line ds))

/-! ## Tokens alone -/

/-- The tokens of a text **that is one token**. -/
def single (kind : TokenKind) (text : Text) : List Token :=
  [⟨kind, 0, Text.size text⟩, ⟨.eof, Text.size text, Text.size text⟩]

/-- A token is read from its own text: nothing may follow it. -/
theorem lex_token {c : Char} {cs taken rest : Text} {kind : TokenKind}
    (h : read c cs = ⟨.token kind, taken, rest⟩) : lex taken = .ok (single kind taken) := by
  have hwhole := whole_read c cs
  have hne := taken_read_ne_nil c cs
  rw [h] at hwhole hne
  obtain ⟨d, tail, rfl⟩ := List.exists_cons_of_ne_nil hne
  obtain ⟨rfl, -⟩ := List.cons.inj hwhole
  have hread := again_read d cs kind tail rest [] h (follows_nil rest)
  rw [List.append_nil] at hread
  rw [lex, lexFrom_token hread, lexFrom, Nat.zero_add]
  rfl

/-! ## The whole text -/

/-- What lies between two offsets of a text is a gap. -/
def GapBetween (src : Text) (start stop : Nat) : Prop :=
  ∃ front gap back, src = front ++ gap ++ back ∧ Text.size front = start
    ∧ Text.size (front ++ gap) = stop
    ∧ Gap gap back

/-- What lies under a token of a text is read as this token **and nothing else**. -/
def Alone (src : Text) (t : Token) : Prop :=
  ∃ text, Text.slice? src t.start t.stop = some text ∧ lex text = .ok (single t.kind text)

/-- **Divided texts.** From byte `pos` on, a text is gaps and tokens in turn. -/
inductive Divided (src : Text) : Nat → List Token → Prop
  | eof {pos : Nat} (hgap : GapBetween src pos (Text.size src)) :
    Divided src pos [⟨.eof, Text.size src, Text.size src⟩]
  | token {pos : Nat} {t : Token} {ts : List Token} (hgap : GapBetween src pos t.start)
      (halone : Alone src t)
      (rest : Divided src t.stop ts) : Divided src pos (t :: ts)

/-- The induction is on what is left of the text. Before it stand the text up to the end of the last
token, and the gap that is open since then. -/
theorem divided_lexFrom {src : Text} (pos : Nat) (t : Text) :
    ∀ done gap tokens, src = done ++ gap ++ t → Text.size (done ++ gap) = pos → Gap gap t →
      lexFrom pos t = .ok tokens → Divided src (Text.size done) tokens := by
  induction pos, t using lexFrom.induct with
  | case1 pos =>
    intro done gap tokens hsrc hpos hgap h
    have hend : pos = Text.size src := by rw [hsrc, List.append_nil, hpos]
    rw [lexFrom, hend] at h
    obtain rfl := Except.ok.inj h
    exact .eof ⟨done, gap, [], hsrc, rfl, hpos.trans hend, hgap⟩
  | case2 pos c cs r stop hskip ih =>
    intro done gap tokens hsrc hpos hgap h
    have hread : read c cs = ⟨.skip, r.taken, r.rest⟩ := by rw [← hskip]
    have hwhole : r.taken ++ r.rest = c :: cs := whole_read c cs
    rw [lexFrom_skip hread] at h
    rw [← hwhole] at hsrc hgap
    -- What is skipped makes the open gap longer.
    refine ih done (gap ++ r.taken) tokens ?_ ?_ (hgap.append (gap_read hread)) h
    · rw [hsrc]
      simp only [List.append_assoc]
    · rw [← List.append_assoc, Text.size_append, hpos]
  | case3 pos c cs r stop kind htoken ih =>
    intro done gap tokens hsrc hpos hgap h
    have hread : read c cs = ⟨.token kind, r.taken, r.rest⟩ := by rw [← htoken]
    have hwhole : r.taken ++ r.rest = c :: cs := whole_read c cs
    rw [lexFrom_token hread] at h
    obtain ⟨ts, hts, rfl⟩ := Except.map_eq_ok h
    have hsrc' : src = done ++ gap ++ r.taken ++ r.rest := by
      rw [hsrc, ← hwhole, List.append_assoc (done ++ gap)]
    have hstop : Text.size (done ++ gap ++ r.taken) = pos + Text.size r.taken := by
      rw [Text.size_append, hpos]
    refine .token ⟨done, gap, c :: cs, hsrc, rfl, hpos, hgap⟩ ⟨r.taken, ?_, lex_token hread⟩ ?_
    · have hslice := Text.slice?_three_parts (done ++ gap) r.taken r.rest
      rw [hpos, hstop, ← hsrc'] at hslice
      exact hslice
    · -- Behind the token the next gap is still empty.
      have hrest := ih (done ++ gap ++ r.taken) [] ts (by rw [List.append_nil, hsrc'])
        (by rw [List.append_nil, hstop]) .nil hts
      rw [hstop] at hrest
      exact hrest
  | case4 pos c cs r cause hfault =>
    intro done gap tokens hsrc hpos hgap h
    rw [lexFrom] at h
    simp [r, hfault] at h

/-- The tokens of a text divide it from its beginning. -/
theorem divided_lex {src : Text} {tokens : List Token} (h : lex src = .ok tokens) :
    Divided src 0 tokens :=
  divided_lexFrom 0 src [] [] tokens rfl rfl .nil h

/-- The **gaps** of a list of tokens: from the beginning of the text, or from the end of a token, to
the beginning of the token that comes next. -/
def gaps (tokens : List Token) : List (Nat × Nat) :=
  (0 :: tokens.map Token.stop).zip (tokens.map Token.start)

/-- Between two tokens of a divided text there is a gap. -/
theorem Divided.gapBetween {src : Text} {pos : Nat} {tokens : List Token}
    (h : Divided src pos tokens) :
    ∀ gap ∈ (pos :: tokens.map Token.stop).zip (tokens.map Token.start),
      GapBetween src gap.1 gap.2 := by
  induction h with
  | eof hgap => simpa using hgap
  | @token pos t ts hgap _ _ ih =>
    intro gap hmem
    rw [List.map_cons, List.map_cons, List.zip_cons_cons] at hmem
    rcases List.mem_cons.1 hmem with rfl | hmem
    · exact hgap
    · exact ih gap hmem

/-- And every token is read from its own text alone. -/
theorem Divided.alone {src : Text} {pos : Nat} {tokens : List Token} (h : Divided src pos tokens) :
    ∀ t ∈ tokens, t.kind ≠ .eof → Alone src t := by
  induction h with
  | eof =>
    intro t ht hkind
    rw [List.mem_singleton.1 ht] at hkind
    exact absurd rfl hkind
  | token _ halone _ ih =>
    intro u hu hkind
    rcases List.mem_cons.1 hu with rfl | hu
    · exact halone
    · exact ih u hu hkind

/-- **The tokens of a text divide it.** They end with one `eof` at the end of the text. Those before
it are not empty, lie on characters and follow one another; between them, in front of them and
behind them there are gaps and nothing else; and each is what is read from its own text alone. -/
theorem lex_partition {src : Text} {tokens : List Token} (h : lex src = .ok tokens) :
    ∃ front, tokens = front ++ [⟨.eof, Text.size src, Text.size src⟩]
      ∧ (∀ t ∈ front, t.kind ≠ .eof ∧ t.start < t.stop
        ∧ Text.IsCut src t.start ∧ Text.IsCut src t.stop)
      ∧ tokens.Pairwise (fun t u => t.stop ≤ u.start)
      ∧ (∀ gap ∈ gaps tokens, GapBetween src gap.1 gap.2)
      ∧ ∀ t ∈ front, Alone src t := by
  have hstream := stream_lex h
  have hdivided := divided_lex h
  obtain ⟨front, hfront, hproper⟩ := hstream.eq_append_eof
  refine ⟨front, hfront, hproper, hstream.pairwise, hdivided.gapBetween, ?_⟩
  intro t ht
  refine hdivided.alone t ?_ (hproper t ht).1
  rw [hfront]
  exact List.mem_append_left _ ht

/-- A quote inside a comment opens no literal, and `(*)` does not close a comment. -/
theorem lex_partition_comments :
    lex "a\x7b'\x7d:=(*)*)'é'''// .".toList
        = .ok [⟨.ident ['a'], 0, 1⟩, ⟨.symbol .assign, 4, 6⟩,
            ⟨.str ['é', '\''], 11, 17⟩, ⟨.eof, 21, 21⟩]
      ∧ (∀ gap ∈ [(0, 0), (1, 4), (6, 11), (17, 21)],
          GapBetween "a\x7b'\x7d:=(*)*)'é'''// .".toList gap.1 gap.2)
      ∧ ∀ t ∈ [⟨.ident ['a'], 0, 1⟩, ⟨.symbol .assign, 4, 6⟩, ⟨.str ['é', '\''], 11, 17⟩],
          Alone "a\x7b'\x7d:=(*)*)'é'''// .".toList t := by
  have h : lex "a\x7b'\x7d:=(*)*)'é'''// .".toList
      = .ok [⟨.ident ['a'], 0, 1⟩, ⟨.symbol .assign, 4, 6⟩, ⟨.str ['é', '\''], 11, 17⟩,
        ⟨.eof, 21, 21⟩] := by
    with_unfolding_all rfl
  obtain ⟨front, hfront, -, -, hgaps, halone⟩ := lex_partition h
  have hkeep : front = [⟨.ident ['a'], 0, 1⟩, ⟨.symbol .assign, 4, 6⟩,
      ⟨.str ['é', '\''], 11, 17⟩] := by
    simpa using (congrArg List.dropLast hfront).symm
  rw [hkeep] at halone
  exact ⟨h, hgaps, halone⟩

end Token

end PascalAtlas
