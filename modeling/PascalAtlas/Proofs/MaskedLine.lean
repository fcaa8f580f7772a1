import PascalAtlas.Proofs.Line
import PascalAtlas.Proofs.MaskedTokens

/-!
# Masks and line breaks

The mask of a text has the **size** of the text (`Mask.size_maskText`). And as with tokens, a line
break that stands outside of comments **divides** it: what is before the break is masked by itself
(`Mask.maskText_line`).

The mask goes character by character and the lexer token by token, so the second is shown along the
readings. What the mask makes of a token is determined by the token, and what it makes of a comment
are blanks; both end before the break.
-/

namespace PascalAtlas

namespace Mask

open Token (lexFrom read isSpace readComment ClosesNothing)

/-- **A mask has the size of the text**: offsets are the same in both. -/
theorem size_maskText (t : Text) : Text.size (maskText t) = Text.size t := by
  rw [← mask_eq]
  exact (aligned_mask t).size_eq

theorem blankText_concat (t : Text) : blankText (t ++ ['\n']) = blankText t ++ ['\n'] := by
  rw [blankText, List.flatMap_append]
  rfl

/-- A line break ends the contents of a literal. -/
theorem contents_line (t : Text) :
    contents (t ++ ['\n']) = if (contents t).2 = [] then (t, ['\n'])
      else ((contents t).1, (contents t).2 ++ ['\n']) := by
  fun_induction contents t with
  | case1 => rfl
  | case2 c hc =>
    rw [Bool.or_eq_true, decide_eq_true_eq, decide_eq_true_eq] at hc
    obtain rfl | rfl := hc <;> rfl
  | case3 c hc =>
    rw [Bool.or_eq_true, decide_eq_true_eq, decide_eq_true_eq, not_or] at hc
    rw [List.singleton_append, contents, if_neg hc.1, if_neg hc.2]
    rfl
  | case4 c' cs => rfl
  | case5 cs _ ih =>
    rw [List.cons_append, List.cons_append, contents, if_neg (by decide),
      if_pos rfl, if_pos rfl, ih]
    split <;> rfl
  | case6 c' cs hc' _ =>
    rw [List.cons_append, List.cons_append, contents, if_neg (by decide), if_pos rfl, if_neg hc']
    rfl
  | case7 c c' cs hline hquote ih =>
    rw [List.cons_append] at ih
    rw [List.cons_append, List.cons_append, contents, if_neg hline, if_neg hquote, ih]
    split <;> rfl

/-- Something that divides a text in two **keeps a line break** at the end of it: in the second
part, or in the first if the second is empty. -/
def KeepsBreak (divided extended : Text × Text) : Prop :=
  extended = (divided.1, divided.2 ++ ['\n'])
    ∨ extended = (divided.1 ++ ['\n'], []) ∧ divided.2 = []

/-- A comment that ends before the break is blanked without it. -/
theorem keepsBreak_comment {opening closing : Text} (hclosing : '\n' ∉ closing)
    (hne : closing ≠ []) (cs : Text) :
    KeepsBreak (comment opening closing cs) (comment opening closing (cs ++ ['\n'])) := by
  have hnil : Text.cut? closing [] = none := by simp [Text.cut?, hne]
  rw [comment, comment, Token.cut?_line hclosing hne, hnil]
  cases Text.cut? closing cs with
  | some cut => exact .inl rfl
  | none => exact .inr ⟨by simp [← List.append_assoc, blankText_concat], rfl⟩

/-- No sign of two characters is completed by the break. -/
theorem head?_concat (cs : Text) {c : Char} (hc : c ≠ '\n') :
    ((cs ++ ['\n']).head? == some c) = (cs.head? == some c) := by
  cases cs with
  | nil => simpa using Ne.symm hc
  | cons d ds => rfl

/-- So is whatever the mask takes in one step. -/
theorem keepsBreak_charStep (c : Char) (cs : Text) :
    KeepsBreak (charStep c cs) (charStep c (cs ++ ['\n'])) := by
  simp only [charStep, head?_concat cs (show '*' ≠ '\n' by decide),
    head?_concat cs (show '/' ≠ '\n' by decide)]
  by_cases hbrace : c = '{'
  · rw [if_pos hbrace, if_pos hbrace]
    exact keepsBreak_comment (by decide) (by decide) cs
  rw [if_neg hbrace, if_neg hbrace]
  by_cases hparen : (c = '(' && cs.head? == some '*') = true
  · rw [if_pos hparen, if_pos hparen]
    rw [Bool.and_eq_true, decide_eq_true_eq, beq_iff_eq] at hparen
    obtain ⟨rfl, hstar⟩ := hparen
    cases cs with
    | nil => cases hstar
    | cons d ds => exact keepsBreak_comment (by decide) (by decide) ds
  rw [if_neg hparen, if_neg hparen]
  by_cases hslash : (c = '/' && cs.head? == some '/') = true
  · rw [if_pos hslash, if_pos hslash, (Token.takeWhile_line rfl cs []).1,
      (Token.takeWhile_line rfl cs []).2]
    exact .inl rfl
  rw [if_neg hslash, if_neg hslash]
  by_cases hquote : c = '\''
  · -- The break ends a literal that is not closed, and is left where it is.
    rw [if_pos hquote, if_pos hquote, contents_line]
    by_cases hopen : (contents cs).2 = []
    · have hall := contents_append cs
      rw [hopen, List.append_nil] at hall
      rw [if_pos hopen, hopen, hall]
      exact .inr ⟨by simp, rfl⟩
    · obtain ⟨d, ds, hds⟩ := List.exists_cons_of_ne_nil hopen
      rw [if_neg hopen, hds]
      exact .inl rfl
  · rw [if_neg hquote, if_neg hquote]
    exact .inl rfl

/-- A line break at the end of a text stays. -/
theorem maskText_concat (t : Text) : maskText (t ++ ['\n']) = maskText t ++ ['\n'] := by
  induction t using maskText.induct with
  | case1 =>
    rw [List.nil_append, maskText_cons (by decide) (by decide) rfl, maskText, List.nil_append]
  | case2 c cs ih =>
    rw [List.cons_append, maskText, maskText]
    obtain hstep | ⟨hstep, hnil⟩ := keepsBreak_charStep c cs
    · rw [hstep, ih, List.append_assoc]
    · rw [hstep, hnil, maskText, List.append_nil, List.append_nil]

/-- The mask sees the comments that the reader sees. -/
theorem comment_eq {opening closing cs taken rest : Text}
    (h : readComment opening closing cs = ⟨.skip, taken, rest⟩) :
    comment opening closing cs = (blankText taken, rest) := by
  rw [readComment] at h
  rw [comment]
  cases hcut : Text.cut? closing cs with
  | some cut =>
    simp only [hcut] at h
    obtain ⟨-, rfl, rfl⟩ := Token.Reading.mk.inj h
    rfl
  | none =>
    simp only [hcut] at h
    cases h

/-- What is skipped is masked alone. -/
theorem maskText_skip {c : Char} {cs taken rest : Text} (hspace : isSpace c = false)
    (h : read c cs = ⟨.skip, taken, rest⟩) :
    maskText (c :: cs) = blankText taken ++ maskText rest := by
  have hstep : charStep c cs = (blankText taken, rest) := by
    rcases Token.readAs_skip hspace h with ⟨rfl, hread⟩ | ⟨ds, rfl, rfl, hread⟩ |
      ⟨ds, rfl, rfl, rfl, rfl⟩
    · exact comment_eq hread
    · exact comment_eq hread
    · rfl
  rw [maskText, hstep]

/-- What becomes of a token is determined **by the token**. -/
theorem maskedAs_unique {kind : TokenKind} {taken a b : Text} (ha : MaskedAs (.token kind) taken a)
    (hb : MaskedAs (.token kind) taken b) : a = b := by
  cases ha with
  | copied hkind =>
    cases hb with
    | copied => rfl
    | blanked => exact absurd rfl (hkind _)
  | @blanked value inside hline =>
    generalize htaken : '\'' :: (inside ++ ['\'']) = taken at hb
    cases hb with
    | copied hkind => exact absurd rfl (hkind _)
    | blanked =>
      rw [List.cons.injEq] at htaken
      rw [List.append_cancel_right htaken.2]

/-- The mask of a settled text does not depend on what comes behind the line break. -/
theorem exists_maskText_settled {t : Text} (h : Token.Settled t) :
    ∃ front, ∀ rest, maskText (t ++ '\n' :: rest) = front ++ '\n' :: maskText rest := by
  induction h with
  | nil => exact ⟨[], fun rest => maskText_cons (by decide) (by decide) rfl⟩
  | @space c cs hspace _ ih =>
    obtain ⟨front, hfront⟩ := ih
    refine ⟨c :: front, fun rest => ?_⟩
    have hquiet := isQuiet_of (p := isSpace) (by decide) hspace
    have hcopy := @maskText_append [c] (by simpa using hquiet) (cs ++ '\n' :: rest)
    rw [hfront] at hcopy
    exact hcopy
  | @skip c cs taken more hspace _ hread _ ih =>
    obtain ⟨front, hfront⟩ := ih
    refine ⟨blankText taken ++ front, fun rest => ?_⟩
    rw [List.cons_append, maskText_skip hspace (hread rest), hfront, List.append_assoc]
  | @token c cs taken more kind _ hread _ ih =>
    obtain ⟨front, hfront⟩ := ih
    have hsplits : ∀ rest, ∃ x, MaskedAs (.token kind) taken x
        ∧ maskText (c :: (cs ++ '\n' :: rest)) = x ++ maskText (more ++ '\n' :: rest) := by
      intro rest
      have hx := @splits_read c (cs ++ '\n' :: rest) (by rw [hread rest]; simp)
      rwa [Splits, hread rest] at hx
    -- The token is masked in one way only, so what it becomes before one rest it
    -- becomes before all.
    obtain ⟨x, hx, -⟩ := hsplits []
    refine ⟨x ++ front, fun rest => ?_⟩
    obtain ⟨y, hy, hmask⟩ := hsplits rest
    rw [List.cons_append, hmask, maskedAs_unique hy hx, hfront, List.append_assoc]

/-- **A line break divides the mask.** If a text is read up to its end, and behind the line break no
comment is closed, then the mask before the break does not depend on what comes behind it. -/
theorem maskText_line {tail : Text} (htail : ClosesNothing tail) (t : Text) (pos : Nat)
    {tokens : List Token} (h : lexFrom pos (t ++ '\n' :: tail) = .ok tokens) (rest : Text) :
    maskText (t ++ '\n' :: rest) = maskText t ++ '\n' :: maskText rest := by
  obtain ⟨front, hfront⟩ := exists_maskText_settled (Token.settled_of_lexFrom htail t pos h)
  -- With nothing behind the break, the part before it is the mask of the text.
  have hfront' := hfront []
  rw [maskText_concat, maskText] at hfront'
  rw [hfront, List.append_cancel_right hfront']

end Mask

end PascalAtlas
