import PascalAtlas.Proofs.Located
import PascalAtlas.Proofs.Utf8

/-!
# Positions counted in bytes

The position of an offset is found among the offsets at which the lines begin. Here it is read off
the bytes before the offset alone: the line is the number of line breaks among them, and the column
the number of bytes behind the last of these, both counted from one (`LineIndex.position_counted`).
An offset may fall inside a character; a line break is one byte and no byte of another character is
that of a line break, so that this does not matter.

The lines that begin at or before an offset are those that begin among the bytes before it
(`LineIndex.linesBefore_eq`), and of two offsets on one line the later one is farther from its
beginning. So positions are **strictly** in the order of the offsets, up to the end of the text. The
offsets at which lines begin increase, which is why a binary search among them counts the line
breaks, too (`LineIndex.lineFound_eq`).
-/

namespace PascalAtlas

namespace Position

/-- Positions in **strict** lexicographic order. -/
instance : LT Position where
  lt p q := p.line < q.line ∨ p.line = q.line ∧ p.column < q.column

instance (p q : Position) : Decidable (p < q) :=
  inferInstanceAs (Decidable (p.line < q.line ∨ p.line = q.line ∧ p.column < q.column))

end Position

namespace LineIndex

/-! ## Lines among bytes -/

/-- The byte of a line break. -/
def lineBreak : UInt8 :=
  '\n'.toUInt8

/-- The offsets just after the line breaks among some bytes, the first of which
is at offset `pos`. -/
def startsIn (pos : Nat) : List UInt8 → List Nat
  | [] => []
  | b :: bytes =>
    if b = lineBreak then (pos + 1) :: startsIn (pos + 1) bytes else startsIn (pos + 1) bytes

/-- The offset just after the **last line break** among some bytes, or zero if there is none. -/
def lineStart (bytes : List UInt8) : Nat :=
  (bytes.reverse.dropWhile (· != lineBreak)).length

/-- A line begins among the bytes. -/
theorem lineStart_le (bytes : List UInt8) : lineStart bytes ≤ bytes.length := by
  have hle := (List.dropWhile_sublist (l := bytes.reverse) (· != lineBreak)).length_le
  rwa [List.length_reverse] at hle

/-- The lines that begin in two stretches of bytes are those of one and of the other. -/
theorem startsIn_append (pos : Nat) (front back : List UInt8) :
    startsIn pos (front ++ back) = startsIn pos front ++ startsIn (pos + front.length) back := by
  induction front generalizing pos with
  | nil => rfl
  | cons b front ih =>
    have hpos : pos + (b :: front).length = pos + 1 + front.length := by
      rw [List.length_cons]
      omega
    rw [List.cons_append, startsIn, startsIn, ih, hpos]
    split <;> rfl

/-- Without a line break no line begins. -/
theorem startsIn_of_notMem {bytes : List UInt8} (h : lineBreak ∉ bytes) (pos : Nat) :
    startsIn pos bytes = [] := by
  induction bytes generalizing pos with
  | nil => rfl
  | cons b bytes ih =>
    rw [List.mem_cons, not_or] at h
    rw [startsIn, if_neg (Ne.symm h.1), ih h.2]

/-- The lines of a text are those **among its bytes**. -/
theorem startsAfter_eq (pos : Nat) (t : Text) :
    startsAfter pos t = startsIn pos (Utf8.encode t) := by
  fun_induction startsAfter pos t with
  | case1 => rfl
  | case2 pos cs ih =>
    have hbreak : '\n'.toUInt8 = lineBreak := rfl
    rw [Utf8.encode_cons_ascii (by decide), startsIn, if_pos hbreak, ih]
  | case3 pos c cs hc ih =>
    -- The bytes of another character are passed over all at once.
    have hnone : lineBreak ∉ String.utf8EncodeChar c := fun hmem =>
      Utf8.ne_of_mem_encodeChar (by decide) hc _ hmem rfl
    rw [Utf8.encode_cons, startsIn_append, startsIn_of_notMem hnone, List.nil_append,
      String.length_utf8EncodeChar, ih]

theorem lt_of_mem_startsIn {pos x : Nat} {bytes : List UInt8} (hx : x ∈ startsIn pos bytes) :
    pos < x := by
  induction bytes generalizing pos with
  | nil => cases hx
  | cons b bytes ih =>
    rw [startsIn] at hx
    split at hx
    · rcases List.mem_cons.1 hx with rfl | hx
      · exact Nat.lt_succ_self pos
      · exact Nat.lt_of_succ_lt (ih hx)
    · exact Nat.lt_of_succ_lt (ih hx)

/-- The lines that begin at or before an offset begin **among the bytes before it**. -/
theorem takeWhile_startsIn (pos n : Nat) (bytes : List UInt8) :
    (startsIn pos bytes).takeWhile (· ≤ pos + n) = startsIn pos (bytes.take n) := by
  induction bytes generalizing pos n with
  | nil => rw [List.take_nil, startsIn, List.takeWhile_nil]
  | cons b bytes ih =>
    cases n with
    | zero =>
      -- Even the first of the lines begins behind the offset.
      rw [List.take_zero]
      cases hstarts : startsIn pos (b :: bytes) with
      | nil => rfl
      | cons x xs =>
        have hx : pos < x := lt_of_mem_startsIn (hstarts ▸ List.mem_cons_self)
        exact List.takeWhile_cons_of_neg (by simpa using hx)
    | succ n =>
      -- One byte is passed, and the offset is one byte nearer.
      have hpos : pos + (n + 1) = pos + 1 + n := by omega
      rw [List.take_succ_cons, startsIn, startsIn, hpos]
      split
      · rw [List.takeWhile_cons_of_pos (by simp), ih]
      · exact ih (pos + 1) n

/-- **As many lines begin as there are line breaks.** -/
theorem length_startsIn (pos : Nat) (bytes : List UInt8) :
    (startsIn pos bytes).length = bytes.count lineBreak := by
  induction bytes generalizing pos with
  | nil => rfl
  | cons b bytes ih =>
    rw [startsIn]
    split
    next hb => rw [hb, List.length_cons, ih, List.count_cons_self]
    next hb => rw [ih, List.count_cons_of_ne hb]

/-- The last of the lines begins just after the **last line break**. The induction is from
the end of the bytes. -/
theorem getLast?_startsIn (bytes : List UInt8) :
    (startsIn 0 bytes).getLast?.getD 0 = lineStart bytes := by
  rw [← List.reverse_reverse bytes]
  induction bytes.reverse with
  | nil => rfl
  | cons b rev ih =>
    rw [List.reverse_cons, startsIn_append, startsIn, startsIn, Nat.zero_add, lineStart,
      List.reverse_append, List.reverse_reverse]
    by_cases hb : b = lineBreak
    · -- A line break at the end begins a line that has nothing in it yet.
      rw [if_pos hb, List.getLast?_concat]
      show rev.reverse.length + 1 = (List.dropWhile _ (b :: rev)).length
      rw [List.dropWhile_cons_of_neg (by simpa using hb), List.length_reverse, List.length_cons]
    · rw [if_neg hb, List.append_nil, ih, lineStart, List.reverse_reverse]
      show _ = (List.dropWhile _ (b :: rev)).length
      rw [List.dropWhile_cons_of_pos (by simpa using hb)]

/-- Their beginnings increase. -/
theorem pairwise_startsIn (pos : Nat) (bytes : List UInt8) :
    (startsIn pos bytes).Pairwise (· < ·) := by
  induction bytes generalizing pos with
  | nil => exact .nil
  | cons b bytes ih =>
    rw [startsIn]
    split
    · exact .cons (fun x hx => lt_of_mem_startsIn hx) (ih _)
    · exact ih _

/-! ## Looking up a line -/

/-- The answer of a **binary search** for an offset among increasing ones: the place at which it
stands, or else the place at which it could be put. -/
inductive Searched (starts : List Nat) (offset : Nat) : Except Nat Nat → Prop
  | found {i : Nat} (hfound : starts[i]? = some offset) : Searched starts offset (.ok i)
  | missing {i : Nat} (hle : i ≤ starts.length) (hfront : ∀ x ∈ starts.take i, x < offset)
      (hback : ∀ x ∈ starts.drop i, offset < x) : Searched starts offset (.error i)

/-- The line, counted from zero, for the answer of a search: the one that begins at the offset, or
the one **before** the place at which the offset could be put. -/
def lineFound : Except Nat Nat → Nat
  | .ok i => i
  | .error i => i - 1

/-- In an increasing list, those up to a bound are a front part. -/
theorem takeWhile_eq_take {starts : List Nat} {offset n : Nat}
    (hfront : ∀ x ∈ starts.take n, x ≤ offset) (hback : ∀ x ∈ starts.drop n, offset < x) :
    starts.takeWhile (· ≤ offset) = starts.take n := by
  have hnone : (starts.drop n).takeWhile (· ≤ offset) = [] := by
    cases hdrop : starts.drop n with
    | nil => rfl
    | cons x xs =>
      have hx := hback x (hdrop ▸ List.mem_cons_self)
      exact List.takeWhile_cons_of_neg (by simpa using hx)
  conv => lhs; rw [← List.take_append_drop n starts]
  rw [List.takeWhile_append_of_pos (by simpa using hfront), hnone, List.append_nil]

/-- A search leads to the **last line that begins at or before** the offset. -/
theorem Searched.takeWhile_eq {starts : List Nat} {offset : Nat} {answer : Except Nat Nat}
    (h : Searched (0 :: starts) offset answer) (hsorted : (0 :: starts).Pairwise (· < ·)) :
    lineFound answer < (0 :: starts).length
      ∧ (0 :: starts).takeWhile (· ≤ offset) = (0 :: starts).take (lineFound answer + 1) := by
  cases h with
  | @found i hfound =>
    obtain ⟨hi, hget⟩ := List.getElem?_eq_some_iff.1 hfound
    have hparts : (0 :: starts).take i ++ offset :: (0 :: starts).drop (i + 1) = 0 :: starts := by
      rw [← hget, ← List.drop_eq_getElem_cons hi, List.take_append_drop]
    rw [← hparts, List.pairwise_append] at hsorted
    obtain ⟨-, hback, hfront⟩ := hsorted
    have hle : ∀ x ∈ (0 :: starts).take (i + 1), x ≤ offset := by
      intro x hx
      rw [List.take_succ_eq_append_getElem hi, hget, List.mem_append, List.mem_singleton] at hx
      rcases hx with hx | rfl
      · exact Nat.le_of_lt (hfront x hx offset List.mem_cons_self)
      · exact Nat.le_refl _
    exact ⟨hi, takeWhile_eq_take hle (List.pairwise_cons.1 hback).1⟩
  | @missing i hle hfront hback =>
    -- The first line begins at zero, so that no offset comes before it.
    have hi : i - 1 + 1 = i := by
      cases i with
      | zero => exact absurd (hback 0 List.mem_cons_self) (Nat.not_lt_zero _)
      | succ i => rfl
    refine ⟨?_, ?_⟩
    · show i - 1 < (0 :: starts).length
      omega
    · show _ = (0 :: starts).take (i - 1 + 1)
      rw [hi]
      exact takeWhile_eq_take (fun x hx => Nat.le_of_lt (hfront x hx)) hback

/-! ## Positions -/

/-- The **bytes before** an offset, all of them if it is past the end. -/
def bytesBefore (t : Text) (offset : Nat) : List UInt8 :=
  (Utf8.encode t).take (min offset (Text.size t))

theorem length_bytesBefore (t : Text) (offset : Nat) :
    (bytesBefore t offset).length = min offset (Text.size t) := by
  rw [bytesBefore, List.length_take, Utf8.length_encode]
  omega

/-- The lines that begin at or before an offset: the first one, and those that begin **among
the bytes before it**. -/
theorem linesBefore_eq (t : Text) (offset : Nat) :
    (ofText t).linesBefore offset = 0 :: startsIn 0 (bytesBefore t offset) := by
  have htake := takeWhile_startsIn 0 (min offset (Text.size t)) (Utf8.encode t)
  rw [Nat.zero_add] at htake
  rw [linesBefore_ofText, startsAfter_eq, htake, bytesBefore]

/-- The last line that begins before an offset begins behind the last line break before it. -/
theorem getLast?_linesBefore (t : Text) (offset : Nat) :
    ((ofText t).linesBefore offset).getLast?.getD 0 = lineStart (bytesBefore t offset) := by
  rw [linesBefore_eq, List.getLast?_cons, Option.getD_some, getLast?_startsIn]

section Counted

variable {t : Text} {a b : Nat}

/-- **A binary search counts the line breaks**, whichever of its answers it gives. -/
theorem lineFound_eq {offset : Nat} {answer : Except Nat Nat}
    (h : Searched (ofText t).starts (min offset (Text.size t)) answer) :
    lineFound answer = (bytesBefore t offset).count lineBreak
      ∧ (ofText t).starts[lineFound answer]? = some (lineStart (bytesBefore t offset)) := by
  have hsorted : (0 :: startsAfter 0 t).Pairwise (· < ·) := by
    rw [startsAfter_eq]
    exact .cons (fun x hx => lt_of_mem_startsIn hx) (pairwise_startsIn _ _)
  obtain ⟨hlt, hlines⟩ := h.takeWhile_eq hsorted
  have hbefore : (ofText t).linesBefore offset
      = (0 :: startsAfter 0 t).take (lineFound answer + 1) := hlines
  constructor
  · have hlength := congrArg List.length hbefore
    rw [linesBefore_eq, List.length_cons, length_startsIn, List.length_take] at hlength
    omega
  · have hlast := congrArg (fun starts => starts.getLast?.getD 0) hbefore
    simp only [getLast?_linesBefore, List.take_succ_eq_append_getElem hlt, List.getLast?_concat,
      Option.getD_some] at hlast
    rw [hlast]
    exact List.getElem?_eq_getElem hlt

/-- Positions are **strictly** in the order of the offsets, up to the end of the text. -/
theorem position_strictMono (hsize : Text.size t < UInt32.size - 1) (h : a < b)
    (hb : b ≤ Text.size t) :
    (ofText t).position a < (ofText t).position b := by
  rcases position_mono hsize (Nat.le_of_lt h) with hline | ⟨hline, -⟩
  · exact .inl hline
  · -- On one line both are measured from its beginning, which is not behind the first of them.
    have hlength : ((ofText t).linesBefore a).length = ((ofText t).linesBefore b).length := by
      rw [← line_position hsize, ← line_position hsize, hline]
    have hfront : (ofText t).linesBefore a <+: (ofText t).linesBefore b :=
      takeWhile_le_isPrefix (by omega) _
    have hstart := lineStart_le (bytesBefore t a)
    rw [length_bytesBefore] at hstart
    refine .inr ⟨hline, UInt32.lt_iff_toNat_lt.2 ?_⟩
    rw [column_position hsize, column_position hsize, ← hfront.eq_of_length hlength,
      getLast?_linesBefore]
    omega

/-- **Positions are counted in bytes.** In a text of less than `2 ^ 32 - 1` bytes, the line of an
offset is one more than the number of line breaks among the bytes before it, and the column is
one more than the distance from the last of them, or from the beginning of the text; a binary
search among the beginnings of the lines leads to the same line, whether it finds the offset or
not. So positions increase strictly, in lexicographic order, up to the end of the text, and past
the end there is no other. -/
theorem position_counted (hsize : Text.size t < UInt32.size - 1) :
    (∀ offset, ((ofText t).position offset).line.toNat = 1 + (bytesBefore t offset).count lineBreak
        ∧ ((ofText t).position offset).column.toNat
          = 1 + (min offset (Text.size t) - lineStart (bytesBefore t offset)))
      ∧ (∀ offset answer, Searched (ofText t).starts (min offset (Text.size t)) answer →
        lineFound answer = (bytesBefore t offset).count lineBreak
          ∧ (ofText t).starts[lineFound answer]? = some (lineStart (bytesBefore t offset)))
      ∧ (∀ a b, a < b → b ≤ Text.size t → (ofText t).position a < (ofText t).position b)
      ∧ ∀ offset, Text.size t ≤ offset →
        (ofText t).position offset = (ofText t).position (Text.size t) := by
  refine ⟨fun offset => ⟨?_, ?_⟩, fun offset answer => lineFound_eq,
    fun a b => position_strictMono hsize, fun offset h => ?_⟩
  · rw [line_position hsize, linesBefore_eq, List.length_cons, length_startsIn, Nat.add_comm]
  · rw [column_position hsize, getLast?_linesBefore, Nat.add_comm]
  · have hend : min offset (ofText t).size = min (Text.size t) (ofText t).size := by
      show min offset (Text.size t) = min (Text.size t) (Text.size t)
      omega
    rw [position, position, hend]

/-- An offset inside a character, one behind two line breaks, one that begins no line
and one past the end. -/
theorem position_counted_lines :
    Text.size "é\n\na\n".toList = 6
      ∧ ((ofText "é\n\na\n".toList).position 1).column.toNat = 2
      ∧ ((ofText "é\n\na\n".toList).position 4).line.toNat = 3
      ∧ lineFound (.error 3) = (bytesBefore "é\n\na\n".toList 5).count lineBreak
      ∧ (ofText "é\n\na\n".toList).position 4 < (ofText "é\n\na\n".toList).position 5
      ∧ (ofText "é\n\na\n".toList).position 9 = (ofText "é\n\na\n".toList).position 6 := by
  obtain ⟨hcount, hsearch, hlt, hend⟩ := @position_counted "é\n\na\n".toList (by decide)
  have hfive := hsearch 5 (.error 3) (.missing (by decide) (by decide) (by decide))
  exact ⟨by decide, (hcount 1).2, (hcount 4).1, hfive.1, hlt 4 5 (by decide) (by decide),
    hend 9 (by decide)⟩

end Counted

end LineIndex

end PascalAtlas
