import Mathlib.Data.List.Forall2
import PascalAtlas.Proofs.MaskedTokens

/-!
# Masking in place

The scanner finds its way through the mask and cuts what it finds out of the source, so the mask
must not move anything, **byte by byte** and for every text. A byte of the mask is the byte of the
source that has its place, or a blank, and a line break is never blanked. A character is blanked as
a whole or not at all: what is masked is again UTF-8, and reading it as text changes nothing.

And masking is done after one time. A text is **bare** (`Mask.Bare`) if it has no comments, and
nothing but blanks in its literals. Every mask is bare (`Mask.bare_maskText`), though blanking a
stretch could have brought two signs together that open a comment, or two quotes that make one; and
it is the bare texts that masking leaves as they are (`Mask.maskText_of_bare`).
-/

namespace PascalAtlas.Mask

open Text (size)
open Token (opensComment isSpace)
open Utf8 (encode encode_append encode_cons length_encode)

/-! ## Byte by byte -/

/-- What a byte may become: it is kept, or it is blanked and was no line break. -/
def Becomes (b b' : UInt8) : Prop :=
  b' = b ∨ b' = byte ' ' ∧ b ≠ byte '\n'

/-- A byte becomes a blank, unless it is a line break. -/
theorem becomes_blankByte (b : UInt8) : Becomes b (blankByte b) := by
  rw [blankByte]
  split
  · exact .inl rfl
  next hb => exact .inr ⟨rfl, hb⟩

/-- Only a line break becomes one, and it becomes nothing else. -/
theorem Becomes.newline_iff {b b' : UInt8} (h : Becomes b b') : b' = byte '\n' ↔ b = byte '\n' := by
  rcases h with rfl | ⟨rfl, hb⟩
  · exact Iff.rfl
  · exact ⟨fun hline => absurd hline (by decide), fun hline => absurd hline hb⟩

/-- What has its place in one sequence of bytes and in the other. -/
theorem rel_getElem? {bytes masked : List UInt8} (h : List.Forall₂ Becomes bytes masked) (i : Nat) :
    Option.Rel Becomes bytes[i]? masked[i]? := by
  induction h generalizing i with
  | nil => exact .none
  | cons hb _ ih =>
    cases i with
    | zero => exact .some hb
    | succ i => exact ih i

/-- **Aligned texts are aligned byte by byte.** -/
theorem Aligned.bytes {s m : Text} (h : Aligned s m) :
    List.Forall₂ Becomes (encode s) (encode m) := by
  induction h with
  | nil => exact .nil
  | kept c _ ih =>
    rw [encode_cons, encode_cons]
    exact List.rel_append (List.forall₂_same.2 fun b _ => .inl rfl) ih
  | blanked c _ ih =>
    rw [encode_cons, encode_append, ← blank_encodeChar, blank]
    refine List.rel_append ?_ ih
    rw [List.forall₂_map_right_iff]
    exact List.forall₂_same.2 fun b _ => becomes_blankByte b

/-- A character of a text and what is aligned with it. -/
theorem Aligned.split {a b m : Text} {c : Char} (h : Aligned (a ++ c :: b) m) :
    ∃ ma mc mb, m = ma ++ (mc ++ mb) ∧ Aligned a ma ∧ (mc = [c] ∨ mc = blankChar c) := by
  induction a generalizing m with
  | nil =>
    cases h with
    | kept _ h => exact ⟨[], [c], _, rfl, .nil, .inl rfl⟩
    | blanked _ h => exact ⟨[], blankChar c, _, rfl, .nil, .inr rfl⟩
  | cons d a ih =>
    cases h with
    | kept _ h =>
      obtain ⟨ma, mc, mb, rfl, ha, hc⟩ := ih h
      exact ⟨d :: ma, mc, mb, rfl, .kept d ha, hc⟩
    | blanked _ h =>
      obtain ⟨ma, mc, mb, rfl, ha, hc⟩ := ih h
      exact ⟨blankChar d ++ ma, mc, mb, by rw [List.append_assoc], .blanked d ha, hc⟩

/-- The bytes of a blanked character. -/
theorem encode_blankChar (c : Char) :
    encode (blankChar c) = String.utf8EncodeChar c
      ∨ encode (blankChar c) = List.replicate c.utf8Size (byte ' ') := by
  rw [blankChar]
  split
  next hc =>
    rw [encode_cons, Utf8.encode_nil, List.append_nil]
    exact .inl rfl
  next => exact .inr (encode_replicate rfl _)

/-- **A character is blanked as a whole or not at all.** -/
theorem Aligned.whole {a b m : Text} {c : Char} (h : Aligned (a ++ c :: b) m) :
    ((encode m).drop (size a)).take c.utf8Size = String.utf8EncodeChar c ∨
      ((encode m).drop (size a)).take c.utf8Size = List.replicate c.utf8Size (byte ' ') := by
  obtain ⟨ma, mc, mb, rfl, ha, hc⟩ := h.split
  have hbefore : (encode ma).length = size a := by rw [length_encode, ha.size_eq]
  have hthere : (encode mc).length = c.utf8Size := by
    rw [length_encode]
    rcases hc with rfl | rfl
    · rfl
    · exact size_blankChar c
  rw [encode_append, encode_append, ← hbefore, List.drop_left, ← hthere, List.take_left, hthere]
  rcases hc with rfl | rfl
  · rw [encode_cons, Utf8.encode_nil, List.append_nil]
    exact .inl rfl
  · exact encode_blankChar c

/-! ## Bare texts -/

/-- Where the contents of a literal may end: at the end of the text, at a line break, or at a quote
that is not doubled. -/
def Ends (stop t : Text) : Prop :=
  stop = [] ∧ t = [] ∨ stop = ['\n'] ∨ stop = ['\''] ∧ t.head? ≠ some '\''

/-- **Bare texts**: there are no comments, and blanks are all there is in a literal. -/
inductive Bare : Text → Prop
  | nil : Bare []
  | char {c : Char} {t : Text} (hbrace : c ≠ '{') (hquote : c ≠ '\'')
      (hcomment : opensComment c t = false)
      (h : Bare t) : Bare (c :: t)
  | literal (n : Nat) {stop t : Text} (hstop : Ends stop t) (h : Bare t) :
    Bare ('\'' :: (List.replicate n ' ' ++ (stop ++ t)))

/-- A character that ends no literal belongs to it. -/
theorem contents_cons {c : Char} (hline : c ≠ '\n') (hquote : c ≠ '\'') (t : Text) :
    contents (c :: t) = (c :: (contents t).1, (contents t).2) := by
  cases t with
  | nil => simp [contents, hline, hquote]
  | cons d ds => rw [contents, if_neg hline, if_neg hquote]

/-- At its end a literal has no contents left. -/
theorem Ends.contents {stop t : Text} (h : Ends stop t) :
    contents (stop ++ t) = ([], stop ++ t) := by
  rcases h with ⟨rfl, rfl⟩ | rfl | ⟨rfl, hnext⟩
  · rfl
  · cases t with
    | nil => rfl
    | cons d ds => rw [List.cons_append, List.nil_append, Mask.contents, if_pos rfl]
  · cases t with
    | nil => rfl
    | cons d ds =>
      have hd : d ≠ '\'' := fun heq => hnext (by rw [heq]; rfl)
      rw [List.cons_append, List.nil_append, Mask.contents, if_neg (by decide),
        if_pos rfl, if_neg hd]

/-- Blanks up to the end of a literal are its contents. -/
theorem Ends.contents_blanks {stop t : Text} (h : Ends stop t) (n : Nat) :
    Mask.contents (List.replicate n ' ' ++ (stop ++ t)) = (List.replicate n ' ', stop ++ t) := by
  induction n with
  | zero => exact h.contents
  | succ n ih =>
    rw [List.replicate_succ, List.cons_append, contents_cons (by decide) (by decide), ih]

theorem Ends.take {stop t : Text} (h : Ends stop t) :
    (stop ++ t).take 1 = stop ∧ (stop ++ t).drop 1 = t := by
  rcases h with ⟨rfl, rfl⟩ | rfl | ⟨rfl, -⟩
  · exact ⟨rfl, rfl⟩
  · exact ⟨rfl, rfl⟩
  · exact ⟨rfl, rfl⟩

/-- A quote is copied, and so is what ends the contents behind it. -/
theorem charStep_quote (cs : Text) :
    charStep '\'' cs = ('\'' :: blankText (contents cs).1 ++ (contents cs).2.take 1,
        (contents cs).2.drop 1) := by
  rw [charStep, if_neg (by decide), if_neg (by simp), if_neg (by simp), if_pos rfl]

/-- A literal keeps its quotes, and its contents become blanks. -/
theorem maskText_quote (cs : Text) :
    maskText ('\'' :: cs) = '\'' :: (blankText (contents cs).1
      ++ ((contents cs).2.take 1 ++ maskText ((contents cs).2.drop 1))) := by
  rw [maskText, charStep_quote, List.append_assoc, List.cons_append]

theorem blankText_replicate (n : Nat) :
    blankText (List.replicate n ' ') = List.replicate n ' ' := by
  induction n with
  | zero => rfl
  | succ n ih => rw [List.replicate_succ, blankText, List.flatMap_cons, ← blankText, ih]; rfl

/-- **Masking leaves a bare text as it is.** -/
theorem maskText_of_bare {t : Text} (h : Bare t) : maskText t = t := by
  induction h with
  | nil => rw [maskText]
  | char hbrace hquote hcomment _ ih => rw [maskText_cons hbrace hquote hcomment, ih]
  | literal n hstop _ ih =>
    rw [maskText_quote, hstop.contents_blanks, blankText_replicate, hstop.take.1, hstop.take.2, ih]

/-! ## Every mask is bare -/

/-- Blanks in front of a bare text leave it bare. -/
theorem bare_spaces {front t : Text} (hfront : ∀ c ∈ front, isSpace c = true) (h : Bare t) :
    Bare (front ++ t) := by
  induction front with
  | nil => exact h
  | cons c front ih =>
    obtain ⟨hc, hfront⟩ := List.forall_mem_cons.1 hfront
    obtain ⟨hbrace, hparen, hslash, hquote⟩ := isQuiet_of (by decide) hc
    exact .char hbrace hquote (by simp [opensComment, hparen, hslash]) (ih hfront)

/-- A comment becomes **spaces and line breaks**. -/
theorem isSpace_comment (opening closing cs : Text) :
    ∀ c ∈ (comment opening closing cs).1, isSpace c = true := by
  unfold comment
  split
  · exact isSpace_blankText _
  · exact isSpace_blankText _

/-- A comment becomes spaces. -/
theorem spaces_charStep {c : Char} {cs : Text} (hopens : c ≠ '{' → opensComment c cs = true) :
    ∀ d ∈ (charStep c cs).1, isSpace d = true := by
  by_cases hbrace : c = '{'
  · rw [charStep, if_pos hbrace]
    exact isSpace_comment _ _ _
  have hsigns := hopens hbrace
  rw [opensComment_eq, Bool.or_eq_true] at hsigns
  rw [charStep, if_neg hbrace]
  by_cases hparen : (c = '(' && cs.head? == some '*') = true
  · rw [if_pos hparen]
    exact isSpace_comment _ _ _
  · rw [if_neg hparen, if_pos (hsigns.resolve_left hparen)]
    exact isSpace_blankText _

/-- No line break is in the contents of a literal. -/
theorem notMem_contents (t : Text) : '\n' ∉ (contents t).1 := by
  fun_induction contents t with
  | case1 => simp
  | case2 => simp
  | case3 c hend =>
    obtain ⟨hline, -⟩ : c ≠ '\n' ∧ c ≠ '\'' := by simpa using hend
    simpa using hline.symm
  | case4 => simp
  | case5 cs _ ih => simpa using ih
  | case6 => simp
  | case7 c c' cs hline _ ih => simpa using ⟨fun heq => hline heq.symm, ih⟩

/-- What follows the contents of a literal ends them. -/
theorem ends_contents (t : Text) : Ends ((contents t).2.take 1) ((contents t).2.drop 1) := by
  fun_induction contents t with
  | case1 => exact .inl ⟨rfl, rfl⟩
  | case2 c hc =>
    rcases (by simpa using hc : c = '\n' ∨ c = '\'') with rfl | rfl
    · exact .inr (.inl rfl)
    · exact .inr (.inr ⟨rfl, by simp⟩)
  | case3 => exact .inl ⟨rfl, rfl⟩
  | case4 => exact .inr (.inl rfl)
  | case5 cs _ ih => exact ih
  | case6 c' cs hquote => exact .inr (.inr ⟨rfl, by simpa using hquote⟩)
  | case7 c c' cs _ _ ih => exact ih

/-- A quote that is not doubled is not doubled in the mask. -/
theorem Ends.maskText {stop t : Text} (h : Ends stop t) : Ends stop (maskText t) := by
  rcases h with ⟨rfl, rfl⟩ | rfl | ⟨rfl, hnext⟩
  · exact .inl ⟨rfl, by rw [Mask.maskText]⟩
  · exact .inr (.inl rfl)
  · exact .inr (.inr ⟨rfl, fun hhead => hnext ((follows_maskText t).head? hhead (by decide))⟩)

/-- **Every mask is bare.** -/
theorem bare_maskText (t : Text) : Bare (maskText t) := by
  induction t using maskText.induct with
  | case1 =>
    rw [maskText]
    exact .nil
  | case2 c cs ih =>
    by_cases hquote : c = '\''
    · -- The contents are blanks now, and what ended them ends the blanks.
      subst hquote
      rw [charStep_quote] at ih
      rw [maskText_quote, blankText_eq_replicate (notMem_contents cs)]
      exact .literal _ (ends_contents cs).maskText ih
    by_cases hplain : c ≠ '{' ∧ opensComment c cs = false
    · rw [charStep_plain hplain.1 hquote hplain.2] at ih
      rw [maskText_cons hplain.1 hquote hplain.2]
      -- What is masked behind a sign begins as before or with a blank, so no comment opens here.
      have hopens : opensComment c ([] ++ maskText cs) = false :=
        Token.opensComment_follows (follows_maskText cs) hplain.2
      exact .char hplain.1 hquote hopens ih
    · rw [maskText]
      refine bare_spaces (spaces_charStep fun hbrace => ?_) ih
      simpa [hbrace] using hplain

/-- **A bare text is one that masking leaves as it is.** -/
theorem mask_eq_self_iff (t : Text) : mask t = t ↔ Bare t := by
  rw [mask_eq]
  exact ⟨fun h => h ▸ bare_maskText t, maskText_of_bare⟩

/-- **Masking is in place and done after one time**, for every text. What is masked has as many
bytes as the text, it is UTF-8, and as a text it has these bytes. Each byte is that of the text or a
blank, line breaks are where they were, and each character is blanked as a whole or not at all. The
mask of a mask is the mask, for masking leaves exactly the bare texts as they are. -/
theorem mask_inPlace (t : Text) :
    let bytes := encode t
    let masked := maskBytes bytes
    masked.toByteArray.IsValidUTF8 ∧ encode (mask t) = masked ∧ masked.length = bytes.length ∧
    (∀ (i : Nat) (b : UInt8), masked[i]? = some b → bytes[i]? = some b ∨ b = byte ' ') ∧
    (∀ i : Nat, masked[i]? = some (byte '\n') ↔ bytes[i]? = some (byte '\n')) ∧
    (∀ front c back, t = front ++ c :: back →
      (masked.drop (size front)).take c.utf8Size = String.utf8EncodeChar c ∨
      (masked.drop (size front)).take c.utf8Size = List.replicate c.utf8Size (byte ' ')) ∧
    mask (mask t) = mask t ∧ (mask t = t ↔ Bare t) := by
  intro bytes masked
  have hmasked : encode (mask t) = masked := by rw [mask_eq, ← maskBytes_encode]
  have haligned := aligned_mask t
  have hbytes : List.Forall₂ Becomes bytes masked := hmasked ▸ haligned.bytes
  refine ⟨?_, hmasked, hbytes.length_eq.symm, fun i b hb => ?_, fun i => ?_, ?_, ?_,
    mask_eq_self_iff t⟩
  · rw [← hmasked]
    exact ⟨mask t, rfl⟩
  · -- There is a byte in the mask, so there is one in the text.
    have hat := rel_getElem? hbytes i
    rw [hb] at hat
    generalize bytes[i]? = source at hat ⊢
    cases hat with
    | some hat => exact hat.imp (fun hkept => congrArg some hkept.symm) And.left
  · have hat := rel_getElem? hbytes i
    generalize bytes[i]? = source, masked[i]? = image at hat ⊢
    cases hat with
    | none => exact Iff.rfl
    | some hat => rw [Option.some_inj, Option.some_inj, hat.newline_iff]
  · rintro front c back rfl
    rw [← hmasked]
    exact haligned.whole
  · rw [mask_eq_self_iff, mask_eq]
    exact bare_maskText t

/-- A wide character outside, one in a literal with a doubled quote, and one in a
comment that never ends. -/
def openEnded : Text := "é:='é'''\n\x7bλ\n".toList

/-- The sign outside is kept, the wide character of the comment is blanked, and so the line break
behind it has its place. -/
theorem mask_inPlace_openEnded :
    mask openEnded = "é:='    '\n   \n".toList ∧ mask (mask openEnded) = mask openEnded ∧
    (encode openEnded)[2]? = some (byte ':') ∧
    (maskBytes (encode openEnded))[14]? = some (byte '\n') ∧
    ((maskBytes (encode openEnded)).drop 12).take 2 = [byte ' ', byte ' '] := by
  obtain ⟨-, -, -, hbyte, hline, hwhole, hagain, -⟩ := mask_inPlace openEnded
  refine ⟨by decide +kernel, hagain, ?_, (hline 14).2 (by decide +kernel), ?_⟩
  · exact (hbyte 2 (byte ':') (by decide +kernel)).resolve_right (by decide)
  · exact (hwhole "é:='é'''\n\x7b".toList 'λ' ['\n'] (by decide +kernel)).resolve_left
      (by decide +kernel)

end PascalAtlas.Mask
