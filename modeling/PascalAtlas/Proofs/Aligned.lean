import PascalAtlas.Proofs.Masked
import PascalAtlas.Proofs.Stream

/-!
# A text and its mask lie side by side

The mask of a text keeps some of its characters and writes blanks for the others, as many for each
as it has bytes. So the two texts are **aligned** (`Mask.Aligned`): what stands at an offset of the
one stands at the same offset of the other, or has been blanked out.

An offset that falls between two characters of the mask may fall inside a character of the source,
but only where there is a blank on both sides of it. Next to any other character, where the mask can
be cut the source can be cut too (`Mask.Aligned.isCut`).
-/

namespace PascalAtlas.Mask

open Text (size IsCut)

/-- A text **aligned** with another, in which some of its characters are blanked out. -/
inductive Aligned : Text → Text → Prop
  | nil : Aligned [] []
  | kept {s m : Text} (c : Char) (h : Aligned s m) : Aligned (c :: s) (c :: m)
  | blanked {s m : Text} (c : Char) (h : Aligned s m) : Aligned (c :: s) (blankChar c ++ m)

namespace Aligned

variable {s m s' m' : Text}

/-- Aligned texts can be put together. -/
theorem append (h : Aligned s m) (h' : Aligned s' m') : Aligned (s ++ s') (m ++ m') := by
  induction h with
  | nil => exact h'
  | kept c _ ih => exact .kept c ih
  | blanked c _ ih =>
    rw [List.append_assoc]
    exact .blanked c ih

/-- A text lies beside itself. -/
theorem refl (t : Text) : Aligned t t := by
  induction t with
  | nil => exact .nil
  | cons c t ih => exact .kept c ih

/-- A text lies beside the blanks that stand for it. -/
theorem blankText (t : Text) : Aligned t (blankText t) := by
  induction t with
  | nil => exact .nil
  | cons c t ih => exact .blanked c ih

end Aligned

theorem size_replicate (n : Nat) : size (List.replicate n ' ') = n := by
  induction n with
  | zero => rfl
  | succ n ih =>
    rw [List.replicate_succ, size, ih, Nat.add_comm]
    rfl

/-- A character is blanked out by **as many bytes** as it has. -/
theorem size_blankChar (c : Char) : size (blankChar c) = c.utf8Size := by
  rw [blankChar]
  split
  next h =>
    subst h
    rfl
  next => exact size_replicate _

/-- **Aligned texts have the same size**, so an offset of the one is an offset of the other. -/
theorem Aligned.size_eq {s m : Text} (h : Aligned s m) : size m = size s := by
  induction h with
  | nil => rfl
  | kept c _ ih => rw [size, size, ih]
  | blanked c _ ih => rw [Text.size_append, size_blankChar, ih, size]

/-! ## Every text is aligned with its mask -/

/-- A comment lies beside what is written for it, up to where it ends. -/
theorem aligned_comment (opening : Text) {closing : Text} (cs : Text) :
    ∃ front, opening ++ cs = front ++ (comment opening closing cs).2
      ∧ Aligned front (comment opening closing cs).1 := by
  unfold comment
  split
  next inside rest hcut =>
    refine ⟨opening ++ inside ++ closing, ?_, .blankText _⟩
    rw [← Token.cut?_eq_some hcut]
    simp
  next => exact ⟨opening ++ cs, (List.append_nil _).symm, .blankText _⟩

/-- One step of the mask goes over a part of the text, and writes what is aligned with it. -/
theorem aligned_charStep (c : Char) (cs : Text) :
    ∃ front, c :: cs = front ++ (charStep c cs).2 ∧ Aligned front (charStep c cs).1 := by
  unfold charStep
  split
  next h =>
    subst h
    exact aligned_comment ['{'] cs
  split
  next h =>
    obtain ⟨rfl, hstar⟩ : c = '(' ∧ cs.head? = some '*' := by simpa using h
    obtain ⟨rest, rfl⟩ := List.head?_eq_some_iff.1 hstar
    exact aligned_comment ['(', '*'] rest
  split
  next =>
    refine ⟨c :: cs.takeWhile (· != '\n'), ?_, .blankText _⟩
    rw [List.cons_append, List.takeWhile_append_dropWhile]
  split
  next =>
    refine ⟨c :: (contents cs).1 ++ (contents cs).2.take 1, ?_, ?_⟩
    · rw [List.append_assoc, List.take_append_drop, List.cons_append, contents_append]
    · exact (Aligned.kept c (.blankText _)).append (.refl _)
  next => exact ⟨[c], rfl, .refl _⟩

/-- **A text is aligned with its mask.** -/
theorem aligned_mask (t : Text) : Aligned t (mask t) := by
  rw [mask_eq]
  induction t using maskText.induct with
  | case1 =>
    rw [maskText]
    exact .nil
  | case2 c cs ih =>
    obtain ⟨front, hfront, haligned⟩ := aligned_charStep c cs
    rw [maskText, hfront]
    exact haligned.append ih

/-! ## Cuts of the mask -/

/-- A place between two texts with something else than a blank **on one side**. -/
def Sharp (a b : Text) : Prop :=
  a.getLast?.any (· != ' ') = true ∨ b.head?.any (· != ' ') = true

/-- No place inside of a blanked character is sharp. -/
theorem not_sharp_of_blankChar {c : Char} {a z b : Text} (h : blankChar c = a ++ z) (ha : a ≠ [])
    (hz : z ≠ []) :
    ¬ Sharp a (z ++ b) := by
  obtain ⟨front, d, rfl⟩ := (List.eq_nil_or_concat a).resolve_left ha
  obtain ⟨e, back, rfl⟩ := List.exists_cons_of_ne_nil hz
  rw [blankChar] at h
  split at h
  next =>
    have hlength := congrArg List.length h
    simp at hlength
    omega
  next =>
    have hblank : ∀ x ∈ front.concat d ++ e :: back, x = ' ' :=
      fun x hx => List.eq_of_mem_replicate (h ▸ hx)
    have hd := hblank d (by simp)
    have he := hblank e (by simp)
    rintro (hsharp | hsharp)
    · rw [List.concat_eq_append, List.getLast?_concat, hd] at hsharp
      cases hsharp
    · rw [List.cons_append, List.head?_cons, he] at hsharp
      cases hsharp

/-- **Where the mask can be cut next to a character that is no blank, the source can be cut.** -/
theorem Aligned.isCut {s a b : Text} (h : Aligned s (a ++ b)) (hsharp : Sharp a b) :
    IsCut s (size a) := by
  generalize hm : a ++ b = m at h
  -- What has been passed may go to the end of the front part; then the place is a
  -- cut without more ado.
  have hstart : ∀ {s : Text} {a : Text}, a = [] → IsCut s (size a) :=
    fun ha => ⟨[], _, rfl, ha ▸ rfl⟩
  induction h generalizing a with
  | nil => exact hstart (List.append_eq_nil_iff.1 hm).1
  | @kept s m c _ ih =>
    cases a with
    | nil => exact hstart rfl
    | cons d a =>
      obtain ⟨rfl, hrest⟩ := List.cons.inj hm
      suffices hcut : IsCut s (size a) by
        obtain ⟨front, back, rfl, hsize⟩ := hcut
        exact ⟨d :: front, back, rfl, by rw [size, hsize, size]⟩
      by_cases ha : a = []
      · exact hstart ha
      · refine ih (hsharp.imp_left fun hlast => ?_) hrest
        obtain ⟨e, a, rfl⟩ := List.exists_cons_of_ne_nil ha
        rwa [List.getLast?_cons_cons] at hlast
  | @blanked s m c _ ih =>
    rcases List.append_eq_append_iff.1 hm with ⟨z, hblank, rfl⟩ | ⟨a, rfl, hrest⟩
    · by_cases ha : a = []
      · exact hstart ha
      by_cases hz : z = []
      · rw [hz, List.append_nil] at hblank
        exact ⟨[c], s, rfl, by rw [← hblank, size_blankChar]; rfl⟩
      · exact absurd hsharp (not_sharp_of_blankChar hblank ha hz)
    · suffices hcut : IsCut s (size a) by
        obtain ⟨front, back, rfl, hsize⟩ := hcut
        exact ⟨c :: front, back, rfl, by rw [size, hsize, Text.size_append, size_blankChar]⟩
      by_cases ha : a = []
      · exact hstart ha
      · refine ih (hsharp.imp_left fun hlast => ?_) hrest.symm
        rwa [List.getLast?_append, Option.or_of_isSome (List.getLast?_isSome.2 ha)] at hlast

end PascalAtlas.Mask
