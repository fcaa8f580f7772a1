import PascalAtlas.Position

/-!
# Positions in order

Positions are compared by line, and within a line by column. A text of less than `2 ^ 32 - 1` bytes
has few enough lines and columns for all of them to be counted, and then a position is two numbers
that can be read off the offset: how many lines begin at or before it, and how far it is behind the
last of these (`LineIndex.line_position` and `LineIndex.column_position`). The lines that begin
before an offset are among the first that begin before a later one, so positions **keep the order**
of the offsets (`LineIndex.position_mono`). In a longer text they need not: the count of the lines
stops while that of the columns begins anew.
-/

namespace PascalAtlas

namespace Position

/-- Positions in **lexicographic order**. -/
instance : LE Position where
  le p q := p.line < q.line ∨ p.line = q.line ∧ p.column ≤ q.column

instance (p q : Position) : Decidable (p ≤ q) :=
  inferInstanceAs (Decidable (p.line < q.line ∨ p.line = q.line ∧ p.column ≤ q.column))

theorem le_refl (p : Position) : p ≤ p :=
  .inr ⟨rfl, UInt32.le_refl _⟩

/-- Positions are in order through others. -/
theorem le_trans {p q r : Position} (hpq : p ≤ q) (hqr : q ≤ r) : p ≤ r := by
  rcases hpq with hpq | ⟨hpq, hpq'⟩
  · rcases hqr with hqr | ⟨hqr, -⟩
    · exact .inl (UInt32.lt_trans hpq hqr)
    · exact .inl (hqr ▸ hpq)
  · rcases hqr with hqr | ⟨hqr, hqr'⟩
    · exact .inl (hpq ▸ hqr)
    · exact .inr ⟨hpq.trans hqr, UInt32.le_trans hpq' hqr'⟩

end Position

namespace LineIndex

/-- A line begins behind every line break, and a line break takes one byte. -/
theorem length_startsAfter_le (pos : Nat) (t : Text) :
    (startsAfter pos t).length ≤ Text.size t := by
  fun_induction startsAfter pos t with
  | case1 => exact Nat.zero_le _
  | case2 pos cs ih =>
    rw [List.length_cons, Text.size]
    have hbreak : Char.utf8Size '\n' = 1 := rfl
    omega
  | case3 pos c cs hc ih =>
    rw [Text.size]
    omega

/-- A number that fits is kept as it is. -/
theorem toNat_clamp {n : Nat} (hn : n < UInt32.size) : (clamp n).toNat = n := by
  rw [clamp, Nat.min_eq_left (by omega)]
  exact UInt32.toNat_ofNat_of_lt' hn

/-- The offsets of the lines that **begin at or before** an offset, the end of the
text at the latest. -/
def linesBefore (index : LineIndex) (offset : Nat) : List Nat :=
  index.starts.takeWhile (· ≤ min offset index.size)

section Position

variable {t : Text} {offset : Nat}

/-- The first line begins at the beginning of the text, the others behind line breaks. -/
theorem linesBefore_ofText (t : Text) (offset : Nat) :
    (ofText t).linesBefore offset
      = 0 :: (startsAfter 0 t).takeWhile (· ≤ min offset (Text.size t)) :=
  List.takeWhile_cons_of_pos (by simp)

/-- There are no more lines than bytes, and one. -/
theorem length_linesBefore_le (t : Text) (offset : Nat) :
    ((ofText t).linesBefore offset).length ≤ Text.size t + 1 := by
  have htaken : ((startsAfter 0 t).takeWhile (· ≤ min offset (Text.size t))).length
      ≤ (startsAfter 0 t).length :=
    (List.takeWhile_sublist _).length_le
  have hstarts := length_startsAfter_le 0 t
  rw [linesBefore_ofText, List.length_cons]
  omega

/-- The **line** of an offset is the number of lines that begin at or before it. -/
theorem line_position (hsize : Text.size t < UInt32.size - 1) :
    ((ofText t).position offset).line.toNat = ((ofText t).linesBefore offset).length := by
  have hle := length_linesBefore_le t offset
  have hpos : 1 ≤ ((ofText t).linesBefore offset).length := by
    rw [linesBefore_ofText, List.length_cons]
    omega
  show (clamp (max ((ofText t).linesBefore offset).length 1)).toNat = _
  rw [toNat_clamp (by omega), Nat.max_eq_left hpos]

/-- The **column** of an offset is its distance from the last line that begins at or before
it, counted from one. -/
theorem column_position (hsize : Text.size t < UInt32.size - 1) :
    ((ofText t).position offset).column.toNat
      = min offset (Text.size t) - ((ofText t).linesBefore offset).getLast?.getD 0 + 1 := by
  show (clamp (min offset (Text.size t)
    - ((ofText t).linesBefore offset).getLast?.getD 0 + 1)).toNat = _
  rw [toNat_clamp (by omega)]

end Position

/-- What is below a bound comes first among what is below a larger one. -/
theorem takeWhile_le_isPrefix {a b : Nat} (h : a ≤ b) (l : List Nat) :
    l.takeWhile (· ≤ a) <+: l.takeWhile (· ≤ b) := by
  induction l with
  | nil => exact List.prefix_rfl
  | cons x xs ih =>
    by_cases hx : x ≤ a
    · rw [List.takeWhile_cons_of_pos (by simpa using hx),
        List.takeWhile_cons_of_pos (by simpa using Nat.le_trans hx h)]
      exact (List.prefix_cons_inj x).2 ih
    · rw [List.takeWhile_cons_of_neg (by simpa using hx)]
      exact List.nil_prefix

/-- **Positions keep the order of the offsets.** -/
theorem position_mono {t : Text} (hsize : Text.size t < UInt32.size - 1) {a b : Nat} (h : a ≤ b) :
    (ofText t).position a ≤ (ofText t).position b := by
  have hfront : (ofText t).linesBefore a <+: (ofText t).linesBefore b :=
    takeWhile_le_isPrefix (by omega) _
  rcases Nat.lt_or_ge ((ofText t).linesBefore a).length ((ofText t).linesBefore b).length
    with hlt | hge
  · refine .inl (UInt32.lt_iff_toNat_lt.2 ?_)
    rw [line_position hsize, line_position hsize]
    exact hlt
  · -- On the same line both are measured from the same offset.
    have hsame : (ofText t).linesBefore a = (ofText t).linesBefore b :=
      hfront.eq_of_length (Nat.le_antisymm hfront.length_le hge)
    refine .inr ⟨UInt32.toNat_inj.1 ?_, UInt32.le_iff_toNat_le.2 ?_⟩
    · rw [line_position hsize, line_position hsize, hsame]
    · rw [column_position hsize, column_position hsize, hsame]
      omega

end LineIndex

end PascalAtlas
