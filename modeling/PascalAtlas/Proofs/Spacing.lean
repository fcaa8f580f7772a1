import PascalAtlas.Proofs.CanonicalParams
import PascalAtlas.Proofs.Excerpt
import PascalAtlas.Proofs.View

/-!
# Blanks around the pieces of a text

A reader that cuts a text into pieces trims each of them, so the pieces make up the text again only
up to blanks. A text is **made of** some pieces (`Text.MadeOf`) if it has them in their order with
nothing but blanks around them. Where the blanks stand does not matter for what else is in the text
(`Text.MadeOf.inked_eq`), and so a text that is made of some pieces in one way is not made of fewer.
-/

namespace PascalAtlas.Text

/-- A text of **blanks** only. -/
def Blanks (t : Text) : Prop :=
  ∀ c ∈ t, isBlank c = true

instance (t : Text) : Decidable (Blanks t) :=
  inferInstanceAs (Decidable (∀ c ∈ t, isBlank c = true))

/-! ## Trimming -/

/-- Blanks before a text are trimmed. -/
theorem trim_blanks_append {a : Text} (ha : Blanks a) (t : Text) : trim (a ++ t) = trim t := by
  induction a with
  | nil => rfl
  | cons c a ih =>
    rw [Blanks, List.forall_mem_cons] at ha
    rw [List.cons_append, trim_cons_blank ha.1, ih ha.2]

/-- Blanks behind a text are trimmed. -/
theorem trim_append_blanks {b : Text} (hb : Blanks b) (t : Text) : trim (t ++ b) = trim t := by
  induction b generalizing t with
  | nil => rw [List.append_nil]
  | cons c b ih =>
    rw [Blanks, List.forall_mem_cons] at hb
    rw [List.append_cons, ih hb.2, trim_concat_blank hb.1]

/-- Trimming takes away **blanks at both ends**, and nothing else. -/
theorem exists_blanks_trim (t : Text) : ∃ a b, Blanks a ∧ Blanks b ∧ t = a ++ trim t ++ b := by
  obtain ⟨b, hend, hb⟩ := Token.exists_append_trimEnd (trimStart t)
  refine ⟨t.takeWhile isBlank, b, fun c hc => List.all_eq_true.1 List.all_takeWhile c hc, hb, ?_⟩
  rw [List.append_assoc, trim, ← hend, trimStart, List.takeWhile_append_dropWhile]

/-- Only what is not blank holds the end of a text. -/
theorem trimEnd_append {b : Text} (hb : trimEnd b ≠ []) (a : Text) :
    trimEnd (a ++ b) = a ++ trimEnd b := by
  have hne : (b.reverse.dropWhile isBlank).isEmpty = false := by simpa [trimEnd] using hb
  rw [trimEnd, List.reverse_append, List.dropWhile_append, hne]
  simp [trimEnd]

/-- Nothing is left exactly of the texts that have nothing but blanks. -/
theorem trim_eq_nil_iff {t : Text} : trim t = [] ↔ Blanks t := by
  constructor
  · intro hnil
    obtain ⟨a, b, ha, hb, heq⟩ := exists_blanks_trim t
    rw [heq, hnil, List.append_nil]
    exact List.forall_mem_append.2 ⟨ha, hb⟩
  · intro h
    have htrim := trim_append_blanks h []
    rwa [List.nil_append] at htrim

/-- What ends a trimmed text is not made of blanks. -/
theorem eq_nil_of_blanks {a b : Text} (ht : trim (a ++ b) = a ++ b) (hb : Blanks b) : b = [] := by
  have hlength := Registry.length_trim_le a
  rw [← trim_append_blanks hb a, ht, List.length_append] at hlength
  exact List.length_eq_zero_iff.1 (by omega)

/-! ## Pieces -/

/-- A text is **made of** some pieces: it has them in their order, with blanks before,
between and behind them. -/
inductive MadeOf : List Text → Text → Prop where
  | nil {a : Text} : Blanks a → MadeOf [] a
  | cons {piece a t : Text} {pieces : List Text} : Blanks a → MadeOf pieces t →
      MadeOf (piece :: pieces) (a ++ piece ++ t)

/-- The characters of a text that are **no blanks**. -/
def inked (t : Text) : Text :=
  t.filter fun c => !isBlank c

theorem inked_append (a b : Text) : inked (a ++ b) = inked a ++ inked b :=
  List.filter_append ..

/-- A text is blank if nothing in it is inked. -/
theorem inked_eq_nil_iff {t : Text} : inked t = [] ↔ Blanks t := by
  rw [inked, List.filter_eq_nil_iff]
  exact forall₂_congr fun c _ => by rw [Bool.not_eq_true', Bool.not_eq_false]

/-- Up to blanks, a text **is** the pieces that it is made of. -/
theorem MadeOf.inked_eq {pieces : List Text} {t : Text} (h : MadeOf pieces t) :
    inked t = inked pieces.flatten := by
  induction h with
  | nil ha => exact inked_eq_nil_iff.2 ha
  | cons ha _ ih =>
    rw [inked_append, inked_append, inked_eq_nil_iff.2 ha, ih, List.flatten_cons, inked_append,
      List.nil_append]

/-- Blanks before a text do not change what it is made of. -/
theorem MadeOf.blanks_append {pieces : List Text} {t b : Text} (hb : Blanks b)
    (h : MadeOf pieces t) :
    MadeOf pieces (b ++ t) := by
  cases h with
  | nil ha => exact .nil (List.forall_mem_append.2 ⟨hb, ha⟩)
  | cons ha h =>
    rw [← List.append_assoc, ← List.append_assoc]
    exact .cons (List.forall_mem_append.2 ⟨hb, ha⟩) h

/-- The blanks of a piece that is **trimmed** are blanks around it. -/
theorem MadeOf.cons_trim {pieces : List Text} {t : Text} (h : MadeOf pieces t) (piece : Text) :
    MadeOf (trim piece :: pieces) (piece ++ t) := by
  obtain ⟨a, b, ha, hb, heq⟩ := exists_blanks_trim piece
  have hcons : MadeOf (trim piece :: pieces) (a ++ trim piece ++ (b ++ t)) :=
    .cons ha (h.blanks_append hb)
  rwa [← List.append_assoc, ← heq] at hcons

/-- A piece may be put before what is made of others. -/
theorem MadeOf.cons_self {pieces : List Text} {t : Text} (h : MadeOf pieces t) (piece : Text) :
    MadeOf (piece :: pieces) (piece ++ t) :=
  .cons (a := []) (by decide) h

/-- A text is made of itself. -/
theorem madeOf_self (t : Text) : MadeOf [t] t := by
  have h := MadeOf.cons_self (.nil (a := []) (by decide)) t
  rwa [List.append_nil] at h

end PascalAtlas.Text
