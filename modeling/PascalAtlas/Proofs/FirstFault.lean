import PascalAtlas.Proofs.Excerpt

/-!
# The first fault

A text that cannot be read as tokens has a first place at which nothing can be read, and the error
lies there. Its kind and its extent can be told from what stands at that place (`FaultAt`): a
literal that is not closed goes to the end of its line, a comment that is not closed goes to the end
of the text, and anything else is one character.

That the place is the **first** one means that the text before it can be read by itself. Every
reading before the fault has ended where the next one began, so that it is the same where the text
stops at the fault: a token was cut off by what followed it, and a comment was closed
(`lexFrom_token_front` and `lexFrom_skip_front`).
-/

namespace PascalAtlas

/-! ## Messages -/

namespace LexFault

theorem message_unexpected (c : Char) :
    (unexpected c).message = "unexpected character " ++ Text.quoted [c] := rfl

/-- The third letter tells a stray character from an open literal or comment. -/
theorem letter_unexpected (c : Char) : (unexpected c).message.toList[2]? = some 'e' := by
  rw [message_unexpected, String.toList_append, List.getElem?_append_left (by decide)]
  decide

/-- The message **tells the cause**: already the third letter tells a stray
character from the others. -/
theorem message_eq_iff {f : LexFault} (g : LexFault) (hg : ∀ c, g ≠ unexpected c) :
    f.message = g.message ↔ f = g := by
  refine ⟨fun h => ?_, fun h => h ▸ rfl⟩
  cases g with
  | unexpected c => exact absurd rfl (hg c)
  | unterminatedString =>
    cases f with
    | unterminatedString => rfl
    | unterminatedComment => exact absurd h (by decide)
    | unexpected c => exact absurd (letter_unexpected c) (by rw [h]; decide)
  | unterminatedComment =>
    cases f with
    | unterminatedString => exact absurd h (by decide)
    | unterminatedComment => rfl
    | unexpected c => exact absurd (letter_unexpected c) (by rw [h]; decide)

end LexFault

namespace Token

/-! ## One reading -/

/-- A comment between two signs **opens** at the front of a text. -/
def OpensBlock (t : Text) : Prop :=
  ['{'] <+: t ∨ ['(', '*'] <+: t

/-- **What can be wrong** at the front of a text, and how far it goes. -/
inductive FaultAt : Text → LexFault → Text → Prop
  | string {cs : Text} : FaultAt ('\'' :: cs) .unterminatedString ('\'' :: cs.takeWhile (· != '\n'))
  | comment {t : Text} (hopens : OpensBlock t) : FaultAt t .unterminatedComment t
  | stray {c : Char} {cs : Text} (hquote : c ≠ '\'') (hopens : ¬ OpensBlock (c :: cs)) :
    FaultAt (c :: cs) (.unexpected c) [c]

variable {c : Char} {cs taken rest : Text} {cause : LexFault}

/-- A literal that is not closed goes to the end of its line. -/
theorem faultAt_readString (h : readString cs = ⟨.fault cause, taken, rest⟩) :
    FaultAt ('\'' :: cs) cause taken := by
  rw [readString] at h
  split at h
  next => cases (Reading.mk.inj h).1
  next =>
    obtain ⟨hcause, rfl, -⟩ := Reading.mk.inj h
    obtain rfl := Lexeme.fault.inj hcause
    exact .string

/-- A comment that is not closed goes to the end of the text. -/
theorem faultAt_readComment (opening closing : Text) (hopens : OpensBlock (opening ++ cs))
    (h : readComment opening closing cs = ⟨.fault cause, taken, rest⟩) :
    FaultAt (opening ++ cs) cause taken := by
  rw [readComment] at h
  split at h
  next => cases (Reading.mk.inj h).1
  next =>
    obtain ⟨hcause, rfl, -⟩ := Reading.mk.inj h
    obtain rfl := Lexeme.fault.inj hcause
    exact .comment hopens

/-- Where neither a literal nor a comment between two signs begins, a fault is **one character**. -/
theorem stray_of_readAs {r : Reading} (hread : ReadAs c cs r) (hquote : c ≠ '\'')
    (hopens : ¬ OpensBlock (c :: cs)) (h : r = ⟨.fault cause, taken, rest⟩) :
    cause = .unexpected c ∧ taken = [c] := by
  cases hread with
  | string => exact absurd rfl hquote
  | braced => exact absurd (.inl ⟨cs, rfl⟩) hopens
  | @starred ds => exact absurd (.inr ⟨ds, rfl⟩) hopens
  | code =>
    -- The sign is a fault of its own where no digit follows it, and also where `$`
    -- does and then no digit.
    unfold readCharCode at h
    repeat' split at h
    all_goals cases h
    all_goals exact ⟨rfl, rfl⟩
  | escaped =>
    unfold readEscaped at h
    split at h <;> cases h
    exact ⟨rfl, rfl⟩
  | symbol =>
    rw [readSymbol] at h
    split at h <;> cases h
    exact ⟨rfl, rfl⟩
  | _ => cases h

/-- A **fault** is what stands at the front of the text. -/
theorem faultAt_read (h : read c cs = ⟨.fault cause, taken, rest⟩) :
    FaultAt (c :: cs) cause taken := by
  by_cases hquote : c = '\''
  · subst hquote
    exact faultAt_readString h
  by_cases hopens : OpensBlock (c :: cs)
  · rcases hopens with ⟨ds, hds⟩ | ⟨ds, hds⟩
    · obtain ⟨rfl, rfl⟩ := List.cons.inj hds
      exact faultAt_readComment ['{'] ['}'] (.inl ⟨ds, rfl⟩) h
    · obtain ⟨rfl, rfl⟩ := List.cons.inj hds
      exact faultAt_readComment ['(', '*'] ['*', ')'] (.inr ⟨ds, rfl⟩) h
  · obtain ⟨rfl, rfl⟩ := stray_of_readAs (readAs_read c cs) hquote hopens h
    exact .stray hquote hopens

namespace FaultAt

variable {t : Text}

theorem not_opensBlock_quote (cs : Text) : ¬ OpensBlock ('\'' :: cs) := by
  rintro (⟨ds, hds⟩ | ⟨ds, hds⟩)
  all_goals exact absurd (List.cons.inj hds).1 (by decide)

/-- The fault is an open literal **exactly** where a quote stands. -/
theorem string_iff (h : FaultAt t cause taken) : cause = .unterminatedString ↔ ['\''] <+: t := by
  cases h with
  | @string cs => exact iff_of_true rfl ⟨cs, rfl⟩
  | comment hopens =>
    refine iff_of_false (by simp) ?_
    rintro ⟨cs, rfl⟩
    exact not_opensBlock_quote cs hopens
  | stray hquote =>
    refine iff_of_false (by simp) ?_
    rintro ⟨ds, hds⟩
    exact hquote (List.cons.inj hds).1.symm

/-- It is an open comment exactly where a comment opens. -/
theorem comment_iff (h : FaultAt t cause taken) : cause = .unterminatedComment ↔ OpensBlock t := by
  cases h with
  | string => exact iff_of_false (by simp) (not_opensBlock_quote _)
  | comment hopens => exact iff_of_true rfl hopens
  | stray _ hopens => exact iff_of_false (by simp) hopens

/-- A literal that is not closed goes to the **end of its line**. -/
theorem taken_string (h : FaultAt t .unterminatedString taken) :
    taken = t.takeWhile (· != '\n') := by
  cases h with
  | string => exact (List.takeWhile_cons_of_pos (by decide)).symm

/-- A comment that is not closed goes to the **end of the text**. -/
theorem taken_comment (h : FaultAt t .unterminatedComment taken) : taken = t := by
  cases h with
  | comment => rfl

/-- Anything else is one stray character. -/
theorem exists_stray (h : FaultAt t cause taken) (hquote : ¬ ['\''] <+: t)
    (hopens : ¬ OpensBlock t) :
    ∃ c, cause = .unexpected c ∧ taken = [c] := by
  cases h with
  | @string cs => exact absurd ⟨cs, rfl⟩ hquote
  | comment h => exact absurd h hopens
  | @stray c => exact ⟨c, rfl, rfl⟩

end FaultAt

/-! ## The whole text -/

/-- The **first fault**: what stands in front of it can be read by itself. The induction is on the
readings before it. -/
theorem lexFrom_error (pos : Nat) (t : Text) :
    ∀ e, lexFrom pos t = .error e →
      ∃ front rest taken tokens, t = front ++ rest ∧ FaultAt rest e.fault taken
      ∧ taken <+: rest ∧ taken ≠ [] ∧ e.start = pos + Text.size front
      ∧ e.stop = e.start + Text.size taken
      ∧ lexFrom pos front = .ok tokens := by
  induction pos, t using lexFrom.induct with
  | case1 pos =>
    intro e h
    rw [lexFrom] at h
    cases h
  | case2 pos c cs r stop hskip ih =>
    intro e h
    have hread : read c cs = ⟨.skip, r.taken, r.rest⟩ := by rw [← hskip]
    have hwhole : r.taken ++ r.rest = c :: cs := whole_read c cs
    rw [lexFrom_skip hread] at h
    obtain ⟨front, rest, taken, tokens, hrest, hfault, hfront, hne, hstart, hstop, htokens⟩ :=
      ih e h
    refine ⟨r.taken ++ front, rest, taken, tokens, by rw [← hwhole, hrest, List.append_assoc],
      hfault, hfront, hne, ?_, hstop, ?_⟩
    · rw [hstart, Text.size_append, ← Nat.add_assoc]
    · -- Behind what is skipped stands now only what comes before the fault.
      rw [lexFrom_skip_front hread ⟨rest, hrest.symm⟩]
      exact htokens
  | case3 pos c cs r stop kind htoken ih =>
    intro e h
    have hread : read c cs = ⟨.token kind, r.taken, r.rest⟩ := by rw [← htoken]
    have hwhole : r.taken ++ r.rest = c :: cs := whole_read c cs
    rw [lexFrom_token hread] at h
    obtain ⟨front, rest, taken, tokens, hrest, hfault, hfront, hne, hstart, hstop, htokens⟩ :=
      ih e (Except.map_eq_error h)
    refine ⟨r.taken ++ front, rest, taken, ⟨kind, pos, stop⟩ :: tokens,
      by rw [← hwhole, hrest, List.append_assoc], hfault, hfront, hne, ?_, hstop, ?_⟩
    · rw [hstart, Text.size_append, ← Nat.add_assoc]
    · rw [lexFrom_token_front hread ⟨rest, hrest.symm⟩]
      show Except.map _ (lexFrom stop front) = _
      rw [htokens]
      rfl
  | case4 pos c cs r cause hfault =>
    intro e h
    have hread : read c cs = ⟨.fault cause, r.taken, r.rest⟩ := by rw [← hfault]
    have hwhole : r.taken ++ r.rest = c :: cs := whole_read c cs
    rw [lexFrom_fault hread] at h
    obtain rfl := Except.error.inj h
    -- Nothing is left in front of the fault, and the empty text can always be read.
    exact ⟨[], c :: cs, r.taken, [⟨.eof, pos, pos⟩], rfl, faultAt_read hread, ⟨r.rest, hwhole⟩,
      taken_read_ne_nil c cs, rfl, rfl, by rw [lexFrom]⟩

/-- **An error lies at the first fault of its text.** It covers whole characters and at least one,
and the text before it can be read. The message says that a literal is not closed if and only if a
quote stands there, and that a comment is not closed if and only if its opening sign does. Such a
literal is covered to the end of its line and such a comment to the end of the text; otherwise the
error covers one character, and the message names it. -/
theorem lex_error_first {src : Text} {e : LexError} (h : lex src = .error e) :
    e.start < e.stop ∧ e.stop ≤ Text.size src ∧ Text.IsCut src e.start ∧ Text.IsCut src e.stop
      ∧ ∃ front rest, Text.take? e.start src = some front ∧ Text.drop? e.start src = some rest
        ∧ (∃ tokens, lex front = .ok tokens)
        ∧ (e.message = "unterminated string literal" ↔ ['\''] <+: rest)
        ∧ (e.message = "unterminated comment" ↔ OpensBlock rest)
        ∧ (['\''] <+: rest → Text.slice? src e.start e.stop = some (rest.takeWhile (· != '\n')))
        ∧ (OpensBlock rest → e.stop = Text.size src)
        ∧ (¬ ['\''] <+: rest → ¬ OpensBlock rest → ∃ c, Text.slice? src e.start e.stop = some [c]
          ∧ e.message = "unexpected character " ++ Text.quoted [c]) := by
  obtain ⟨front, rest, taken, tokens, rfl, hfault, ⟨back, rfl⟩, hne, hstart, hstop, htokens⟩ :=
    lexFrom_error 0 src e h
  rw [Nat.zero_add] at hstart
  rw [hstart, ← Text.size_append] at hstop
  have hparts : front ++ (taken ++ back) = front ++ taken ++ back := (List.append_assoc ..).symm
  have hslice : Text.slice? (front ++ (taken ++ back)) e.start e.stop = some taken := by
    rw [hstart, hstop, hparts]
    exact Text.slice?_three_parts front taken back
  have hlt : e.start < e.stop := by
    have hpos := Text.size_pos hne
    rw [hstart, hstop, Text.size_append]
    omega
  have hle : e.stop ≤ Text.size (front ++ (taken ++ back)) := by
    rw [hstop, hparts, Text.size_append (front ++ taken)]
    exact Nat.le_add_right _ _
  refine ⟨hlt, hle, ⟨front, taken ++ back, rfl, hstart.symm⟩,
    ⟨front ++ taken, back, hparts, hstop.symm⟩, front, taken ++ back, ?_, ?_, ⟨tokens, htokens⟩,
    ?_, ?_, ?_, ?_, ?_⟩
  · rw [hstart, Text.take?_append]
  · rw [hstart, Text.drop?_append]
  · exact (LexFault.message_eq_iff .unterminatedString (by simp)).trans hfault.string_iff
  · exact (LexFault.message_eq_iff .unterminatedComment (by simp)).trans hfault.comment_iff
  · intro hquote
    rw [hfault.string_iff.2 hquote] at hfault
    rw [hslice, ← hfault.taken_string]
  · intro hopens
    rw [hfault.comment_iff.2 hopens] at hfault
    rw [hstop, ← hfault.taken_comment]
  · intro hquote hopens
    obtain ⟨c, hcause, rfl⟩ := hfault.exists_stray hquote hopens
    refine ⟨c, hslice, ?_⟩
    rw [LexError.message, hcause, LexFault.message_unexpected]

/-- A comment that `(*)` does not close, behind a comment with a quote in it and a
literal that ends in one. -/
theorem lex_error_first_comment :
    lex "a\x7b'\x7d:='é'''(*)é".toList = .error ⟨.unterminatedComment, 12, 17⟩
      ∧ ∃ front rest, Text.take? 12 "a\x7b'\x7d:='é'''(*)é".toList = some front
        ∧ Text.drop? 12 "a\x7b'\x7d:='é'''(*)é".toList = some rest
        ∧ (∃ tokens, lex front = .ok tokens)
        ∧ OpensBlock rest := by
  have h : lex "a\x7b'\x7d:='é'''(*)é".toList = .error ⟨.unterminatedComment, 12, 17⟩ := by
    with_unfolding_all rfl
  obtain ⟨-, -, -, -, front, rest, hfront, hrest, htokens, -, hcomment, -⟩ := lex_error_first h
  exact ⟨h, front, rest, hfront, hrest, htokens, hcomment.1 rfl⟩

end Token

end PascalAtlas
