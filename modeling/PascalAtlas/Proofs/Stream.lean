import PascalAtlas.Parser.Scan
import PascalAtlas.Proofs.Fallible
import PascalAtlas.Token.Lexer

/-!
# The stream of tokens

What the tokens of a text look like to whoever reads them one by one. Each covers at least one
byte, none begins before the one in front of it has ended, both its ends fall between two
characters of the text, and the list closes with one `eof` at the end of the text that is found
nowhere else (`Token.Stream`).

Offsets are bytes and a text is a list of characters, so the second half of this is about **cuts**:
the offsets at which a text can be divided. A slice between two cuts always succeeds.
-/

namespace PascalAtlas

/-! ## Cuts -/

namespace Text

@[simp] theorem size_append (a b : Text) : size (a ++ b) = size a + size b := by
  induction a with
  | nil => rw [List.nil_append, size, Nat.zero_add]
  | cons c cs ih => rw [List.cons_append, size, size, ih, Nat.add_assoc]

/-- Every character has a size. -/
theorem size_pos {t : Text} (h : t ≠ []) : 0 < size t := by
  cases t with
  | nil => exact absurd rfl h
  | cons c cs =>
    have hc := c.utf8Size_pos
    rw [size]
    omega

/-- A text can be **cut** at an offset if the offset falls between two of its characters. -/
def IsCut (t : Text) (n : Nat) : Prop :=
  ∃ front back, t = front ++ back ∧ size front = n

/-- Where a part of a text ends it can be cut: behind the cut is the rest. -/
theorem drop?_append (front back : Text) : drop? (size front) (front ++ back) = some back := by
  induction front with
  | nil => rw [size, drop?, List.nil_append]
  | cons c cs ih =>
    have hc := c.utf8Size_pos
    obtain ⟨n, hn⟩ : ∃ n, size (c :: cs) = n + 1 := ⟨size (c :: cs) - 1, by rw [size]; omega⟩
    rw [size] at hn
    have hrest : n + 1 - c.utf8Size = size cs := by omega
    rw [size, hn, List.cons_append, drop?, if_pos (by omega), hrest, ih]

/-- Before the cut is the part. -/
theorem take?_append (front back : Text) : take? (size front) (front ++ back) = some front := by
  induction front with
  | nil => rw [size, take?]
  | cons c cs ih =>
    have hc := c.utf8Size_pos
    obtain ⟨n, hn⟩ : ∃ n, size (c :: cs) = n + 1 := ⟨size (c :: cs) - 1, by rw [size]; omega⟩
    rw [size] at hn
    have hrest : n + 1 - c.utf8Size = size cs := by omega
    rw [size, hn, List.cons_append, take?, if_pos (by omega), hrest, ih, Option.map_some]

/-- Two cuts divide a text into three parts. -/
theorem IsCut.three_parts {t : Text} {m n : Nat} (hm : IsCut t m) (hn : IsCut t n) (hle : m ≤ n) :
    ∃ front middle back, t = front ++ middle ++ back ∧ size front = m ∧
      size (front ++ middle) = n := by
  obtain ⟨a, b, rfl, rfl⟩ := hm
  obtain ⟨c, d, hcd, rfl⟩ := hn
  rcases List.append_eq_append_iff.1 hcd with ⟨middle, rfl, rfl⟩ | ⟨middle, rfl, rfl⟩
  · exact ⟨a, middle, d, by rw [List.append_assoc], rfl, rfl⟩
  · -- The second cut is not before the first, so nothing lies between them.
    have hmiddle : middle = [] := by
      rw [size_append] at hle
      by_cases hne : middle = []
      · exact hne
      · have := size_pos hne
        omega
    subst hmiddle
    exact ⟨c, [], b, by simp, by simp, by simp⟩

/-- **A slice between two cuts succeeds**, and is the part between them. -/
theorem slice?_three_parts (front middle back : Text) :
    slice? (front ++ middle ++ back) (size front) (size (front ++ middle)) = some middle := by
  have hle : size front ≤ size (front ++ middle) := by rw [size_append]; omega
  have hlen : size (front ++ middle) - size front = size middle := by rw [size_append]; omega
  rw [slice?, if_pos hle, hlen, List.append_assoc, drop?_append, Option.bind_some, take?_append]

end Text

/-! ## Streams -/

namespace Token

/-- **Streams.** `Stream src pos tokens` says that `tokens` can be what remains to be read of the
text `src` from byte `pos` on. -/
inductive Stream (src : Text) : Nat → List Token → Prop
  | eof {pos : Nat} (hpos : pos ≤ Text.size src) :
    Stream src pos [⟨.eof, Text.size src, Text.size src⟩]
  | token {pos : Nat} {t : Token} {ts : List Token} (hpos : pos ≤ t.start) (hlt : t.start < t.stop)
      (hstart : Text.IsCut src t.start) (hstop : Text.IsCut src t.stop) (hkind : t.kind ≠ .eof)
      (rest : Stream src t.stop ts) : Stream src pos (t :: ts)

namespace Stream

variable {src : Text} {pos pos' : Nat} {tokens : List Token}

/-- A stream may begin later than it must. -/
theorem mono (h : Stream src pos tokens) (hle : pos' ≤ pos) : Stream src pos' tokens := by
  cases h with
  | eof hpos => exact .eof (by omega)
  | token hpos hlt hstart hstop hkind rest => exact .token (by omega) hlt hstart hstop hkind rest

/-- A stream begins with a token at or behind its position, at a cut of the text. -/
theorem eq_cons (h : Stream src pos tokens) :
    ∃ t ts, tokens = t :: ts ∧ pos ≤ t.start ∧ Text.IsCut src t.start := by
  cases h with
  | eof hpos => exact ⟨_, [], rfl, hpos, src, [], by rw [List.append_nil], rfl⟩
  | @token _ t ts hpos _ hstart _ _ _ => exact ⟨t, ts, rfl, hpos, hstart⟩

/-- The position of a stream can be moved on to its first token. -/
theorem at_start {t : Token} {ts : List Token} (h : Stream src pos (t :: ts)) :
    Stream src t.start (t :: ts) := by
  cases h with
  | eof => exact .eof (Nat.le_refl _)
  | token _ hlt hstart hstop hkind rest => exact .token (Nat.le_refl _) hlt hstart hstop hkind rest

/-- No token of a stream begins before its position, and only `eof` is empty. -/
theorem le_start (h : Stream src pos tokens) :
    ∀ t ∈ tokens, pos ≤ t.start ∧ (t.kind ≠ .eof → t.start < t.stop) := by
  induction h with
  | eof hpos =>
    intro t ht
    obtain rfl := List.mem_singleton.1 ht
    exact ⟨hpos, fun hkind => absurd rfl hkind⟩
  | token hpos hlt _ _ _ _ ih =>
    intro u hu
    rcases List.mem_cons.1 hu with rfl | hu
    · exact ⟨hpos, fun _ => hlt⟩
    · have hu' := ih u hu
      exact ⟨by omega, hu'.2⟩

/-- What is left of a stream behind some of its tokens is a stream from the end
of each of them on. -/
theorem drop_front {front rest : List Token} (h : Stream src pos (front ++ rest))
    (hrest : rest ≠ []) :
    ∃ pos', pos ≤ pos' ∧ Stream src pos' rest ∧ ∀ t ∈ front, t.start < t.stop ∧ t.stop ≤ pos' := by
  induction front generalizing pos with
  | nil => exact ⟨pos, Nat.le_refl _, h, by simp⟩
  | cons t ts ih =>
    generalize hall : (t :: ts) ++ rest = all at h
    cases h with
    | eof =>
      -- Behind the end of the tokens nothing is left.
      obtain ⟨-, hnil⟩ := List.cons.inj hall
      exact absurd (List.append_eq_nil_iff.1 hnil).2 hrest
    | token hpos hlt _ _ _ hts =>
      obtain ⟨rfl, rfl⟩ := List.cons.inj hall
      obtain ⟨pos', hle, hstream, hts'⟩ := ih hts
      refine ⟨pos', by omega, hstream, ?_⟩
      intro u hu
      rcases List.mem_cons.1 hu with rfl | hu
      · exact ⟨hlt, hle⟩
      · exact hts' u hu

/-- A stream that has been read up to an `eof` is at its last token. -/
theorem rest_eq_eof {front rest : List Token} (h : Stream src pos (front ++ rest))
    (hfront : ∀ t ∈ front, t.kind ≠ .eof) (hrest : headKind rest = .eof) :
    rest = [⟨.eof, Text.size src, Text.size src⟩] := by
  induction front generalizing pos with
  | nil =>
    cases h with
    | eof => rfl
    | token _ _ _ _ hkind _ => exact absurd hrest hkind
  | cons t ts ih =>
    have ht := hfront t (List.mem_cons_self ..)
    generalize hall : (t :: ts) ++ rest = all at h
    cases h with
    | eof =>
      obtain ⟨rfl, -⟩ := List.cons.inj hall
      exact absurd rfl ht
    | token _ _ _ _ _ hts =>
      obtain ⟨rfl, rfl⟩ := List.cons.inj hall
      exact ih hts fun u hu => hfront u (List.mem_cons_of_mem _ hu)

/-- No token begins before an earlier one has ended. -/
theorem pairwise (h : Stream src pos tokens) : tokens.Pairwise fun t u => t.stop ≤ u.start := by
  induction h with
  | eof => exact List.pairwise_singleton _ _
  | token _ _ _ _ _ rest ih => exact .cons (fun u hu => (rest.le_start u hu).1) ih

/-- A stream is some tokens that are not empty, and one `eof` at the end of the text. -/
theorem eq_append_eof (h : Stream src pos tokens) :
    ∃ front, tokens = front ++ [⟨.eof, Text.size src, Text.size src⟩] ∧
      ∀ t ∈ front, t.kind ≠ .eof ∧ t.start < t.stop ∧ Text.IsCut src t.start
        ∧ Text.IsCut src t.stop := by
  induction h with
  | eof => exact ⟨[], rfl, by simp⟩
  | @token _ t _ _ hlt hstart hstop hkind _ ih =>
    obtain ⟨front, rfl, hfront⟩ := ih
    refine ⟨t :: front, rfl, ?_⟩
    rintro u hu
    rcases List.mem_cons.1 hu with rfl | hu
    · exact ⟨hkind, hlt, hstart, hstop⟩
    · exact hfront u hu

end Stream

/-! ## The tokens of a text are a stream -/

/-- A word is not read as the end of the file. -/
theorem wordKind_ne_eof (word : Text) : wordKind word ≠ .eof := by
  unfold wordKind
  split
  · exact TokenKind.noConfusion
  · exact TokenKind.noConfusion

/-- No reading is the end of the file; this one is of a run of characters. -/
theorem lexeme_readRun {p : Char → Bool} {kind : Text → TokenKind}
    (hkind : ∀ word, kind word ≠ .eof) (front cs : Text) :
    (readRun p kind front cs).lexeme ≠ .token .eof := by
  intro h
  exact hkind _ (Lexeme.token.inj h)

theorem lexeme_readString (cs : Text) : (readString cs).lexeme ≠ .token .eof := by
  unfold readString
  split <;> simp

theorem lexeme_readComment (opening closing cs : Text) :
    (readComment opening closing cs).lexeme ≠ .token .eof := by
  unfold readComment
  split <;> simp

theorem lexeme_readSymbol (c : Char) (cs : Text) : (readSymbol c cs).lexeme ≠ .token .eof := by
  unfold readSymbol
  split <;> simp

theorem lexeme_readCharCode (cs : Text) : (readCharCode cs).lexeme ≠ .token .eof := by
  unfold readCharCode
  split
  · exact lexeme_readRun (by simp) _ _
  · split
    · split
      · exact lexeme_readRun (by simp) _ _
      · simp
    · simp

theorem lexeme_readEscaped (cs : Text) : (readEscaped cs).lexeme ≠ .token .eof := by
  unfold readEscaped
  split <;> simp

/-- No reading gives the end of the tokens. -/
theorem lexeme_read (c : Char) (cs : Text) : (read c cs).lexeme ≠ .token .eof := by
  unfold read
  repeat' split
  · simp
  · exact lexeme_readRun wordKind_ne_eof _ _
  · exact lexeme_readRun (by simp) _ _
  · exact lexeme_readString cs
  · exact lexeme_readComment _ _ _
  · exact lexeme_readCharCode cs
  · exact lexeme_readEscaped cs
  · exact lexeme_readRun (by simp) _ _
  · exact lexeme_readComment _ _ _
  · simp
  · exact lexeme_readSymbol c cs

/-- The induction is on what is left of the text; `done` is what has been read of it. -/
theorem stream_lexFrom {src : Text} (pos : Nat) (t : Text) :
    ∀ done tokens, src = done ++ t → Text.size done = pos → lexFrom pos t = .ok tokens →
      Stream src pos tokens := by
  induction pos, t using lexFrom.induct with
  | case1 pos =>
    intro done tokens hsrc hpos h
    have hend : pos = Text.size src := by rw [hsrc, List.append_nil, hpos]
    rw [lexFrom, hend] at h
    obtain rfl := Except.ok.inj h
    exact .eof (by omega)
  | case2 pos c cs r stop hskip ih =>
    intro done tokens hsrc hpos h
    have hwhole : r.taken ++ r.rest = c :: cs := whole_read c cs
    have hrest : lexFrom stop r.rest = .ok tokens := by rw [lexFrom] at h; simpa [r, hskip] using h
    -- What is skipped only moves the position.
    have hstream := ih (done ++ r.taken) tokens (by rw [hsrc, List.append_assoc, hwhole])
      (by rw [Text.size_append, hpos]) hrest
    exact hstream.mono (Nat.le_add_right _ _)
  | case3 pos c cs r stop kind htoken ih =>
    intro done tokens hsrc hpos h
    have hwhole : r.taken ++ r.rest = c :: cs := whole_read c cs
    have htaken : 0 < Text.size r.taken := Text.size_pos (taken_read_ne_nil c cs)
    have hmap : (lexFrom stop r.rest).map (⟨kind, pos, stop⟩ :: ·) = .ok tokens := by
      rw [lexFrom] at h
      simpa [r, htoken] using h
    obtain ⟨ts, hts, rfl⟩ := Except.map_eq_ok hmap
    have hsrc' : src = (done ++ r.taken) ++ r.rest := by rw [hsrc, List.append_assoc, hwhole]
    have hpos' : Text.size (done ++ r.taken) = stop := by rw [Text.size_append, hpos]
    refine .token (Nat.le_refl _) ?_ ⟨done, c :: cs, hsrc, hpos⟩ ⟨_, _, hsrc', hpos'⟩
      (fun heof => lexeme_read c cs (heof ▸ htoken)) (ih (done ++ r.taken) ts hsrc' hpos' hts)
    show pos < pos + Text.size r.taken
    omega
  | case4 pos c cs r cause hfault =>
    intro done tokens hsrc hpos h
    rw [lexFrom] at h
    simp [r, hfault] at h

/-- **The tokens of a text are a stream** over it. -/
theorem stream_lex {src : Text} {tokens : List Token} (h : lex src = .ok tokens) :
    Stream src 0 tokens :=
  stream_lexFrom 0 src [] tokens rfl rfl h

end Token

end PascalAtlas
