import Mathlib.Data.List.Infix
import Mathlib.Data.List.Induction
import PascalAtlas.Proofs.Spacing

/-!
# What stands outside of literals

A literal stands between two quotes, and a quote inside of it is written twice. So every quote
changes sides, and a place in a text lies **outside** of literals if an even number of quotes is
before it (`Text.Outside`): the two quotes for one inside a literal leave it and enter it again.
Which characters stand outside (`Text.unquoted`) is said of their places in this way, and not by
reading the text from its beginning. A reader that does so is compared with it one character at a
time (`Text.unquoted_concat`).

Parentheses are **balanced** (`Text.Balanced`) if those outside of literals are: as many are closed
as opened, and nowhere more of them closed than opened before.
-/

namespace PascalAtlas.Text

/-! ## Places -/

/-- The place behind a text lies **outside** of literals. -/
def Outside (front : Text) : Prop :=
  front.count '\'' % 2 = 0

instance (front : Text) : Decidable (Outside front) :=
  inferInstanceAs (Decidable (_ = _))

/-- From a place outside of literals, what follows decides. -/
theorem outside_append {a : Text} (ha : Outside a) (b : Text) : Outside (a ++ b) ↔ Outside b := by
  rw [Outside] at ha
  rw [Outside, Outside, List.count_append]
  omega

/-- Without a quote nothing is inside. -/
theorem outside_of_notMem {t : Text} (h : '\'' ∉ t) : Outside t := by
  rw [Outside, List.count_eq_zero.2 h]

/-- A quote **changes sides**, and no other character does. -/
theorem outside_concat_quote (front : Text) : Outside (front ++ ['\'']) ↔ ¬ Outside front := by
  rw [Outside, List.count_append, List.count_singleton_self, Outside]
  omega

/-- Only quotes change sides. -/
theorem outside_concat {c : Char} (hc : c ≠ '\'') (front : Text) :
    Outside (front ++ [c]) ↔ Outside front := by
  have hcount : [c].count '\'' = 0 := List.count_eq_zero.2 (by simpa using hc.symm)
  rw [Outside, List.count_append, hcount, Outside, Nat.add_zero]

/-! ## Characters -/

variable {p : Char → Bool}

/-- The characters of a text that pass a test and stand **outside of literals**. -/
def unquoted (p : Char → Bool) (t : Text) : Text :=
  (t.zipIdx.filter fun place => p place.1 && decide (Outside (t.take place.2))).map (·.1)

@[simp] theorem unquoted_nil : unquoted p [] = [] := rfl

/-- What stands outside of literals stands in the text. -/
theorem mem_of_mem_unquoted {t : Text} {c : Char} (hc : c ∈ unquoted p t) : c ∈ t ∧ p c = true := by
  obtain ⟨place, hplace, rfl⟩ := List.mem_map.1 hc
  obtain ⟨hmem, htest⟩ := List.mem_filter.1 hplace
  exact ⟨List.fst_mem_of_mem_zipIdx hmem, (Bool.and_eq_true _ _ ▸ htest).1⟩

/-- A character at the end stands outside if the place **behind all others** does. -/
theorem unquoted_concat (t : Text) (c : Char) :
    unquoted p (t ++ [c]) = unquoted p t ++ if p c = true ∧ Outside t then [c] else [] := by
  -- The places before the last one have the same front with it and without it.
  have hbefore : (t.zipIdx.filter fun place => p place.1
        && decide (Outside ((t ++ [c]).take place.2)))
      = t.zipIdx.filter fun place => p place.1 && decide (Outside (t.take place.2)) := by
    refine List.filter_congr fun place hplace => ?_
    rw [List.take_append_of_le_length (List.snd_lt_of_mem_zipIdx hplace).le]
  rw [unquoted, List.zipIdx_append, List.filter_append, List.map_append, hbefore, unquoted]
  congr 1
  rw [List.zipIdx_singleton, Nat.zero_add, List.filter_singleton, List.take_left]
  by_cases hc : p c = true ∧ Outside t
  · simp [hc]
  · have hfail : (p c && decide (Outside t)) = false := by simpa using hc
    rw [if_neg hc, hfail]
    rfl

/-- Texts whose literals are closed can be read apart. -/
theorem unquoted_append {a : Text} (ha : Outside a) (b : Text) :
    unquoted p (a ++ b) = unquoted p a ++ unquoted p b := by
  induction b using List.reverseRecOn with
  | nil => simp
  | append_singleton b c ih =>
    rw [← List.append_assoc, unquoted_concat, ih, unquoted_concat, List.append_assoc]
    simp only [outside_append ha]

/-- Characters that fail the test may be left out, **at the end** of a text and, if no quotes are
among them, at its beginning. -/
theorem unquoted_append_of_fail {b : Text} (hb : ∀ c ∈ b, p c = false) (t : Text) :
    unquoted p (t ++ b) = unquoted p t := by
  induction b using List.reverseRecOn with
  | nil => rw [List.append_nil]
  | append_singleton b c ih =>
    rw [List.forall_mem_append, List.forall_mem_singleton] at hb
    rw [← List.append_assoc, unquoted_concat, ih hb.1, if_neg (by simp [hb.2]), List.append_nil]

/-- A text that has neither quotes nor what is looked for may be left out. -/
theorem unquoted_fail_append {a : Text} (ha : ∀ c ∈ a, p c = false) (hquote : '\'' ∉ a) (t : Text) :
    unquoted p (a ++ t) = unquoted p t := by
  rw [unquoted_append (outside_of_notMem hquote), ← List.nil_append a, unquoted_append_of_fail ha]
  rfl

/-! ## Balanced parentheses -/

/-- Whether a character is a parenthesis. -/
def isParen (c : Char) : Bool :=
  c == '(' || c == ')'

/-- The **parentheses outside of literals** are balanced. -/
structure Balanced (t : Text) : Prop where
  /-- As many are closed as opened. -/
  level : (unquoted isParen t).count '(' = (unquoted isParen t).count ')'
  /-- Nowhere are more closed than have been opened. -/
  matched : ∀ front, front <+: unquoted isParen t → front.count ')' ≤ front.count '('

/-- Balanced parentheses, **counted**: as many are closed as opened, and at no place more. -/
theorem balanced_iff {t : Text} :
    Balanced t ↔ (unquoted isParen t).count '(' = (unquoted isParen t).count ')'
    ∧ ∀ front ∈ (unquoted isParen t).inits, front.count ')' ≤ front.count '(' := by
  simp only [List.mem_inits]
  exact ⟨fun h => ⟨h.level, h.matched⟩, fun h => ⟨h.1, h.2⟩⟩

instance (t : Text) : Decidable (Balanced t) :=
  decidable_of_iff _ balanced_iff.symm

/-- Blanks are nothing else. -/
theorem Blanks.notMem {t : Text} (h : Blanks t) {c : Char} (hc : isBlank c = false) : c ∉ t := by
  intro hmem
  rw [h c hmem] at hc
  cases hc

theorem Blanks.isParen_eq_false {t : Text} (h : Blanks t) : ∀ c ∈ t, isParen c = false := by
  intro c hc
  refine Bool.eq_false_iff.2 fun hparen => ?_
  rw [isParen, Bool.or_eq_true, beq_iff_eq, beq_iff_eq] at hparen
  rcases hparen with rfl | rfl
  · exact h.notMem rfl hc
  · exact h.notMem rfl hc

/-- **Blanks** around a text do not matter. -/
theorem balanced_trim_iff {t : Text} : Balanced (trim t) ↔ Balanced t := by
  obtain ⟨a, b, ha, hb, heq⟩ := exists_blanks_trim t
  have hsame : unquoted isParen t = unquoted isParen (trim t) := by
    conv_lhs => rw [heq]
    rw [unquoted_append_of_fail hb.isParen_eq_false, unquoted_fail_append ha.isParen_eq_false
      (ha.notMem rfl)]
  rw [balanced_iff, balanced_iff, hsame]

end PascalAtlas.Text
