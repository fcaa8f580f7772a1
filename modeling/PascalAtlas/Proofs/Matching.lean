import PascalAtlas.Pattern
import PascalAtlas.Proofs.Stream

/-!
# How patterns match

A pattern is run with a continuation, and it may try many ways to match before the continuation
accepts one. Two views of that are enough for everything that is shown about patterns.

* What a pattern **takes** (`Pattern.Takes`): the way that is tried first. If the rest of the
  pattern accepts it, this is the match. A match is shown step by step in this view.
* What **fits** a pattern (`Pattern.Fits`): every way that is ever tried. If nothing fits, there is
  no match. It says nothing about the order, so this view is as plain as that of a language.

Both speak of a place between two texts (`Cursor.between`), so that a step over some text moves it
from one to the other.
-/

namespace PascalAtlas

namespace Cursor

/-- The place **between two parts** of a text that begins at byte `offset`. -/
def between (offset : Nat) (front rest : Text) : Cursor :=
  ⟨front.getLast?, offset + Text.size front, rest⟩

/-- Behind the cursor comes the next character. -/
theorem next?_between (o : Nat) (front : Text) (c : Char) (rest : Text) :
    (between o front (c :: rest)).next? = some (c, between o (front ++ [c]) rest) := by
  simp [between, next?, Text.size, Nat.add_assoc]

/-- Between two cursors lies what has been passed. -/
theorem textTo_between (o : Nat) (front x rest : Text) :
    (between o front (x ++ rest)).textTo (between o (front ++ x) rest) = x := by
  have hsize : o + Text.size (front ++ x) - (o + Text.size front) = Text.size x := by
    rw [Text.size_append]
    omega
  rw [textTo, between, between, hsize, Text.take?_append]
  rfl

theorem at?_append (front rest : Text) :
    at? (front ++ rest) (Text.size front) = some (between 0 front rest) := by
  rw [at?, Text.take?_append, Text.drop?_append, between, Nat.zero_add]

end Cursor

namespace Pattern

open Cursor (between)

/-! ## What fits a pattern -/

/-- Some rounds of a repetition. -/
inductive Rounds (fits : Text → Text → Text → Prop) : Text → Text → Text → Prop
  | nil {front rest : Text} : Rounds fits front [] rest
  | cons {front x y rest : Text} (first : fits front x (y ++ rest))
    (others : Rounds fits (front ++ x) y rest) :
    Rounds fits front (x ++ y) rest

/-- A text **fits** a pattern between a text before it and a text after it. -/
def Fits : Pattern → Text → Text → Text → Prop
  | .empty, _, x, _ => x = []
  | .char test, _, x, _ => ∃ c, x = [c] ∧ test c = true
  | .seq a b, front, x, rest =>
    ∃ y z, x = y ++ z ∧ a.Fits front y (z ++ rest) ∧ b.Fits (front ++ y) z rest
  | .alt a b, front, x, rest => a.Fits front x rest ∨ b.Fits front x rest
  | .many a, front, x, rest => Rounds a.Fits front x rest
  | .group _ a, front, x, rest => a.Fits front x rest
  | .boundary, front, x, rest =>
    x = [] ∧ (front.getLast?.any Text.isWordChar != rest.head?.any Text.isWordChar) = true
  | .first, front, x, _ => x = [] ∧ front = []
  | .last, _, x, rest => x = [] ∧ rest = []

/-- A single character is taken if it passes the test. -/
theorem run_char {α : Type} (test : Char → Bool) (o : Nat) (front : Text) (c : Char) (rest : Text)
    (caps : Captures) (k : Cursor → Captures → Option α) :
    (char test).run (between o front (c :: rest)) caps k
      = if test c = true then k (between o (front ++ [c]) rest) caps else none := by
  rw [run, Cursor.next?_between]

/-- Captures that lie between two offsets. -/
def Captures.LieIn (lo hi : Nat) (caps : Captures) : Prop :=
  ∀ e ∈ caps, lo ≤ e.2.start ∧ e.2.start ≤ e.2.stop ∧ e.2.stop ≤ hi

/-- Captures of two parts lie in the whole. -/
theorem Captures.LieIn.append {o : Nat} {front y z : Text} {caps caps' : Captures}
    (h : LieIn (o + Text.size front) (o + Text.size (front ++ y)) caps)
    (h' : LieIn (o + Text.size (front ++ y)) (o + Text.size (front ++ y ++ z)) caps') :
    LieIn (o + Text.size front) (o + Text.size (front ++ (y ++ z))) (caps' ++ caps) := by
  intro e he
  rw [← List.append_assoc, Text.size_append, Text.size_append]
  rw [Text.size_append] at h h'
  rcases List.mem_append.1 he with he | he
  · have hbounds := h' e he
    rw [Text.size_append (front ++ y), Text.size_append front] at hbounds
    omega
  · have hbounds := h e he
    omega

theorem Captures.LieIn.nil (lo hi : Nat) : LieIn lo hi [] :=
  fun _ he => absurd he List.not_mem_nil

/-- **Whatever a pattern finds fits it**, and what its groups keep lies in what it finds. -/
theorem exists_fits_of_run {α : Type} {p : Pattern} {o : Nat} {front t : Text} {caps : Captures}
    {k : Cursor → Captures → Option α} {v : α} (h : p.run (between o front t) caps k = some v) :
    ∃ x rest added, t = x ++ rest ∧ p.Fits front x rest
      ∧ Captures.LieIn (o + Text.size front) (o + Text.size (front ++ x)) added
      ∧ k (between o (front ++ x) rest) (added ++ caps) = some v := by
  induction p generalizing front t caps k with
  | empty => exact ⟨[], t, [], rfl, rfl, .nil _ _, by rwa [List.append_nil]⟩
  | char test =>
    cases t with
    | nil => cases h
    | cons c cs =>
      rw [run_char] at h
      by_cases hc : test c = true
      · rw [if_pos hc] at h
        exact ⟨[c], cs, [], rfl, ⟨c, rfl, hc⟩, .nil _ _, h⟩
      · rw [if_neg hc] at h
        cases h
  | seq a b iha ihb =>
    obtain ⟨y, t', added, rfl, hy, hadded, h⟩ := iha h
    obtain ⟨z, rest, added', rfl, hz, hadded', h⟩ := ihb h
    refine ⟨y ++ z, rest, added' ++ added, (List.append_assoc _ _ _).symm, ⟨y, z, rfl, hy, hz⟩,
      hadded.append hadded', ?_⟩
    rwa [← List.append_assoc, List.append_assoc added']
  | alt a b iha ihb =>
    rw [run] at h
    cases ha : a.run (between o front t) caps k with
    | some w =>
      rw [ha] at h
      obtain ⟨x, rest, added, ht, hx, hk⟩ := iha (ha.trans h)
      exact ⟨x, rest, added, ht, .inl hx, hk⟩
    | none =>
      rw [ha] at h
      obtain ⟨x, rest, added, ht, hx, hk⟩ := ihb h
      exact ⟨x, rest, added, ht, .inr hx, hk⟩
  | many a iha =>
    -- What is left of the text bounds the rounds, so the inner induction is on the bound.
    rw [run] at h
    generalize (between o front t).rest = bound at h
    induction bound generalizing front t caps with
    | nil => exact ⟨[], t, [], rfl, .nil, .nil _ _, by rwa [List.append_nil]⟩
    | cons _ bound ih =>
      rw [runMany] at h
      cases hround : a.run (between o front t) caps fun c' caps' =>
          if (between o front t).offset < c'.offset
              then runMany a.run bound c' caps' k else none with
      | some w =>
        rw [hround] at h
        obtain ⟨x, t', added, rfl, hx, hadded, hrest⟩ := iha (hround.trans h)
        split at hrest
        · obtain ⟨y, rest, added', rfl, hy, hadded', hk⟩ := ih hrest
          refine ⟨x ++ y, rest, added' ++ added, (List.append_assoc _ _ _).symm, .cons hx hy,
            hadded.append hadded', ?_⟩
          rwa [← List.append_assoc, List.append_assoc added']
        · cases hrest
      | none =>
        rw [hround] at h
        exact ⟨[], t, [], rfl, .nil, .nil _ _, by rwa [List.append_nil]⟩
  | group number a iha =>
    obtain ⟨x, rest, added, ht, hx, hadded, hk⟩ := iha h
    refine ⟨x, rest, (number, _) :: added, ht, hx, ?_, hk⟩
    intro e he
    rcases List.mem_cons.1 he with rfl | he
    · have hsize := Text.size_append front x
      exact ⟨Nat.le_refl _, by show o + _ ≤ o + _; omega, Nat.le_refl _⟩
    · exact hadded e he
  | boundary =>
    rw [run] at h
    split at h
    · exact ⟨[], t, [], rfl, ⟨rfl, ‹_›⟩, .nil _ _, by rwa [List.append_nil]⟩
    · cases h
  | first =>
    rw [run] at h
    split at h
    · rename_i hfirst
      exact ⟨[], t, [], rfl, ⟨rfl, by simpa [between] using hfirst⟩, .nil _ _,
        by rwa [List.append_nil]⟩
    · cases h
  | last =>
    rw [run] at h
    split at h
    · rename_i hlast
      exact ⟨[], t, [], rfl, ⟨rfl, by simpa [between] using hlast⟩, .nil _ _,
        by rwa [List.append_nil]⟩
    · cases h

/-- Whatever way a run finds **fits** the pattern. -/
theorem fits_of_run {α : Type} {p : Pattern} {o : Nat} {front t : Text} {caps : Captures}
    {k : Cursor → Captures → Option α} {v : α} (h : p.run (between o front t) caps k = some v) :
    ∃ x rest caps', t = x ++ rest ∧ p.Fits front x rest
      ∧ k (between o (front ++ x) rest) caps' = some v := by
  obtain ⟨x, rest, added, ht, hx, -, hk⟩ := exists_fits_of_run h
  exact ⟨x, rest, _, ht, hx, hk⟩

/-- Whether a pattern has any use for a character. -/
def admits (c : Char) : Pattern → Bool
  | .char test => test c
  | .seq a b | .alt a b => a.admits c || b.admits c
  | .many a | .group _ a => a.admits c
  | .empty | .boundary | .first | .last => false

/-- What fits a pattern has only characters for which it has a use. -/
theorem Fits.admits {p : Pattern} {front x rest : Text} (h : p.Fits front x rest) :
    ∀ c ∈ x, p.admits c = true := by
  induction p generalizing front x rest with
  | empty =>
    obtain rfl := h
    simp
  | char test =>
    obtain ⟨d, rfl, hd⟩ := h
    intro c hc
    rwa [List.mem_singleton.1 hc]
  | seq a b iha ihb =>
    obtain ⟨y, z, rfl, hy, hz⟩ := h
    intro c hc
    obtain hc | hc := List.mem_append.1 hc
    · exact Bool.or_eq_true_iff.2 (.inl (iha hy c hc))
    · exact Bool.or_eq_true_iff.2 (.inr (ihb hz c hc))
  | alt a b iha ihb =>
    intro c hc
    obtain h | h := h
    · exact Bool.or_eq_true_iff.2 (.inl (iha h c hc))
    · exact Bool.or_eq_true_iff.2 (.inr (ihb h c hc))
  | many a iha =>
    -- The rounds of a repetition, with the induction on them inside the one on the pattern.
    induction h with
    | nil => simp
    | cons hfirst _ ih =>
      intro c hc
      obtain hc | hc := List.mem_append.1 hc
      · exact iha hfirst c hc
      · exact ih c hc
  | group number a iha => exact iha h
  | boundary | first | last =>
    obtain ⟨rfl, -⟩ := h
    simp

/-- A run of characters. -/
theorem fits_many_char {test : Char → Bool} {front x rest : Text}
    (h : (many (.char test)).Fits front x rest) :
    ∀ c ∈ x, test c = true :=
  h.admits

/-- Whether a pattern needs at least one character. -/
def needsChar : Pattern → Bool
  | .char _ => true
  | .seq a b => a.needsChar || b.needsChar
  | .alt a b => a.needsChar && b.needsChar
  | .group _ a => a.needsChar
  | .empty | .many _ | .boundary | .first | .last => false

/-- What fits a pattern that needs a character is not empty. -/
theorem Fits.ne_nil {p : Pattern} {front x rest : Text} (h : p.Fits front x rest)
    (hp : p.needsChar = true) : x ≠ [] := by
  induction p generalizing front x rest with
  | char test =>
    obtain ⟨c, rfl, -⟩ := h
    simp
  | seq a b iha ihb =>
    obtain ⟨y, z, rfl, hy, hz⟩ := h
    intro hnil
    obtain ⟨hy', hz'⟩ := List.append_eq_nil_iff.1 hnil
    exact (Bool.or_eq_true_iff.1 hp).elim (iha hy · hy') (ihb hz · hz')
  | alt a b iha ihb =>
    obtain ⟨ha, hb⟩ := Bool.and_eq_true_iff.1 hp
    exact h.elim (iha · ha) (ihb · hb)
  | group number a iha => exact iha h hp
  | empty | many | boundary | first | last => cases hp

/-! ## What a pattern takes -/

/-- At a place a pattern **takes** the beginning `x` of what follows, and goes from the captures
`caps` to `caps'`: if whatever comes next accepts that, no other way is tried. -/
def Takes (p : Pattern) (o : Nat) (front x rest : Text) (caps caps' : Captures) : Prop :=
  ∀ (α : Type) (k : Cursor → Captures → Option α) (v : α),
    k (between o (front ++ x) rest) caps' = some v →
    p.run (between o front (x ++ rest)) caps k = some v

variable {o : Nat} {front x y rest : Text} {caps caps' caps'' : Captures} {a b p : Pattern}
  {test : Char → Bool}

theorem takes_empty : empty.Takes o front [] rest caps caps := fun α k v hk => by
  rwa [List.append_nil] at hk

/-- A character that passes the test is taken. -/
theorem takes_char {c : Char} (hc : test c = true) :
    (char test).Takes o front [c] rest caps caps := fun α k v hk => by
  rw [List.singleton_append, run_char, if_pos hc, hk]

/-- One pattern and then another. -/
theorem Takes.seq (ha : a.Takes o front x (y ++ rest) caps caps')
    (hb : b.Takes o (front ++ x) y rest caps' caps'') :
    (seq a b).Takes o front (x ++ y) rest caps caps'' := fun α k v hk => by
  rw [List.append_assoc]
  refine ha α _ v (hb α k v ?_)
  rwa [List.append_assoc]

/-- A first part that takes nothing. -/
theorem Takes.after_nil (ha : a.Takes o front [] (x ++ rest) caps caps')
    (hb : b.Takes o front x rest caps' caps'') :
    (Pattern.seq a b).Takes o front x rest caps caps'' :=
  ha.seq (by rwa [List.append_nil])

/-- A second part that takes nothing. -/
theorem Takes.then_nil (ha : a.Takes o front x rest caps caps')
    (hb : b.Takes o (front ++ x) [] rest caps' caps'') :
    (Pattern.seq a b).Takes o front x rest caps caps'' := by
  have h := Takes.seq (y := []) ha hb
  rwa [List.append_nil] at h

/-- The first alternative is taken if it can be. -/
theorem Takes.alt_left (ha : a.Takes o front x rest caps caps') :
    (alt a b).Takes o front x rest caps caps' :=
  fun α k v hk => by
    rw [run, ha α k v hk]
    rfl

/-- The second one is taken if **nothing fits** the first. -/
theorem Takes.alt_right (ha : ∀ y z, x ++ rest = y ++ z → ¬ a.Fits front y z)
    (hb : b.Takes o front x rest caps caps') :
    (alt a b).Takes o front x rest caps caps' := fun α k v hk => by
  have hnone : a.run (between o front (x ++ rest)) caps k = none := by
    rw [Option.eq_none_iff_forall_ne_some]
    intro w hw
    obtain ⟨y, z, -, htext, hfits, -⟩ := fits_of_run hw
    exact ha y z htext hfits
  rw [run, hnone, hb α k v hk]
  rfl

/-- An optional pattern is taken if it can be. -/
theorem Takes.optional (ha : a.Takes o front x rest caps caps') :
    (optional a).Takes o front x rest caps caps' :=
  ha.alt_left

/-- And left out if nothing fits it. -/
theorem takes_optional_nil (ha : ∀ y z, rest = y ++ z → ¬ a.Fits front y z) :
    (optional a).Takes o front [] rest caps caps :=
  Takes.alt_right (x := []) ha takes_empty

/-- A group is taken as it is, and captured. -/
theorem Takes.group (number : Nat) (ha : a.Takes o front x rest caps caps') :
    (group number a).Takes o front x rest caps
      ((number, ⟨o + Text.size front, o + Text.size (front ++ x), x⟩) :: caps') :=
  fun α k v hk => by
  refine ha α _ v ?_
  rw [Cursor.textTo_between]
  exact hk

/-- A boundary lies between a word character and another one. -/
theorem takes_boundary (h : front.getLast?.any Text.isWordChar ≠ rest.head?.any Text.isWordChar) :
    boundary.Takes o front [] rest caps caps := fun α k v hk => by
  rw [List.append_nil] at hk
  rw [List.nil_append, run, if_pos (by simpa [Cursor.atBoundary, between] using h), hk]

theorem takes_first : first.Takes o [] [] rest caps caps := fun α k v hk => by
  rw [List.nil_append, run]
  exact hk

theorem takes_last : last.Takes o front [] [] caps caps := fun α k v hk => by
  rw [List.append_nil] at hk
  rw [List.nil_append, run]
  exact hk

/-- A repetition of single characters comes back to a place if the longer runs are of no use. -/
theorem run_many_char {α : Type} {k : Cursor → Captures → Option α} {v : α}
    (hx : ∀ c ∈ x, test c = true)
    (hlonger : ∀ y z, rest = y ++ z → y ≠ [] → (∀ c ∈ y, test c = true) →
      k (between o (front ++ x ++ y) z) caps = none)
    (hk : k (between o (front ++ x) rest) caps = some v) :
    (many (.char test)).run (between o front (x ++ rest)) caps k = some v := by
  have hoffset : ∀ front c rest, (between o front (c :: rest)).offset
      < (between o (front ++ [c]) rest).offset := by
    intro front c rest
    show o + Text.size front < o + Text.size (front ++ [c])
    have hc : 0 < c.utf8Size := c.utf8Size_pos
    rw [Text.size_append, Text.size]
    omega
  -- One round passes one character, and then it is as at the beginning.
  have hround : ∀ (bound : Text) (front : Text) (c : Char) (rest : Text), test c = true →
      runMany (char test).run (c :: bound) (between o front (c :: rest)) caps k
        = (runMany (char test).run bound (between o (front ++ [c]) rest) caps k
          <|> k (between o front (c :: rest)) caps) := by
    intro bound front c rest hc
    rw [runMany, run_char, if_pos hc, if_pos (hoffset front c rest)]
  have hend : ∀ front c rest, test c = false →
      runMany (char test).run (c :: rest) (between o front (c :: rest)) caps k
      = k (between o front (c :: rest)) caps := by
    intro front c rest hc
    rw [runMany, run_char, hc]
    rfl
  show runMany (char test).run (x ++ rest) (between o front (x ++ rest)) caps k = some v
  induction x generalizing front with
  | cons c x ih =>
    have hmore := @ih (front ++ [c]) (fun d hd => hx d (by simp [hd])) (by simpa using hlonger)
      (by simpa using hk)
    rw [List.cons_append, hround _ _ _ _ (hx c (by simp)), hmore]
    rfl
  | nil =>
    rw [List.append_nil] at hk hlonger
    rw [List.nil_append]
    -- The longer runs give nothing, however many rounds they take.
    have hnone : ∀ y z, rest = y ++ z → y ≠ [] → (∀ c ∈ y, test c = true) →
        runMany (char test).run z (between o (front ++ y) z) caps k = none := by
      intro y z hrest hy hall
      induction z generalizing y with
      | nil => exact hlonger y [] hrest hy hall
      | cons c z ih =>
        have hhere := hlonger y (c :: z) hrest hy hall
        by_cases hc : test c = true
        · have hnext := ih (y ++ [c]) (by simp [hrest]) (by simp) (by
            intro d hd
            obtain hd | hd := List.mem_append.1 hd
            · exact hall d hd
            · rwa [List.mem_singleton.1 hd])
          rw [hround _ _ _ _ hc, List.append_assoc, hnext, hhere]
          rfl
        · rw [hend _ _ _ (Bool.eq_false_iff.2 hc), hhere]
    cases rest with
    | nil => exact hk
    | cons c cs =>
      by_cases hc : test c = true
      · have hmore := hnone [c] cs rfl (by simp) (by simpa using hc)
        rw [hround _ _ _ _ hc, hmore, hk]
        rfl
      · rw [hend _ _ _ (Bool.eq_false_iff.2 hc), hk]

/-- A repetition of single characters takes **as many as it can**. -/
theorem takes_many (hx : ∀ c ∈ x, test c = true) (hrest : rest.head?.any test = false) :
    (many (.char test)).Takes o front x rest caps caps := fun α k v hk => by
  refine run_many_char hx ?_ hk
  intro y z hyz hy hall
  cases y with
  | nil => exact absurd rfl hy
  | cons c cs =>
    rw [hyz] at hrest
    rw [List.cons_append, List.head?_cons, Option.any_some, hall c (by simp)] at hrest
    cases hrest

/-- A run of characters is taken up to its end. -/
theorem takes_atLeastOne {c : Char} (hx : ∀ d ∈ c :: x, test d = true)
    (hrest : rest.head?.any test = false) :
    (atLeastOne (.char test)).Takes o front (c :: x) rest caps caps :=
  Takes.seq (x := [c]) (takes_char (hx c (by simp)))
    (takes_many (fun d hd => hx d (by simp [hd])) hrest)

/-- A repetition of anything takes nothing if no round fits. -/
theorem takes_many_nil (ha : ∀ y z, rest = y ++ z → ¬ a.Fits front y z) :
    (many a).Takes o front [] rest caps caps :=
  fun α k v hk => by
    rw [List.append_nil] at hk
    show runMany a.run rest (between o front rest) caps k = some v
    cases rest with
    | nil => exact hk
    | cons c cs =>
      rw [runMany]
      cases hround : a.run (between o front (c :: cs)) caps fun c' caps' =>
          if (between o front (c :: cs)).offset < c'.offset
              then runMany a.run cs c' caps' k else none with
      | none => exact hk
      | some w =>
        obtain ⟨y, z, -, htext, hfits, -⟩ := fits_of_run hround
        exact absurd hfits (ha y z htext)

/-- Anything up to a sign reaches to the **last** such sign. -/
theorem takes_anything_sign (number : Nat) {c : Char} (hrest : c ∉ rest) :
    (seq (.group number .anything) (.sign c)).Takes o front (x ++ [c]) rest caps
      ((number, ⟨o + Text.size front, o + Text.size (front ++ x), x⟩) :: caps) := fun α k v hk => by
  rw [List.append_assoc]
  refine run_many_char (by simp) ?_ ?_
  · intro y z hyz hy _
    rw [Option.eq_none_iff_forall_ne_some]
    intro w hw
    obtain ⟨s, r, -, hz, ⟨d, rfl, hd⟩, -⟩ := fits_of_run (p := .sign c) hw
    obtain rfl : d = c := by simpa using hd
    -- The sign would be one that comes after the last one.
    cases y with
    | nil => exact hy rfl
    | cons e ys =>
      rw [hz] at hyz
      have hmem : d ∈ ys ++ ([d] ++ r) := by simp
      rw [List.singleton_append, List.cons_append, List.cons.injEq] at hyz
      rw [← hyz.2] at hmem
      exact hrest hmem
  · rw [Cursor.textTo_between]
    refine takes_char (by simp) α k v ?_
    rwa [← List.append_assoc] at hk

/-! ## Searching -/

/-- The match that takes a text. -/
def matchOf (o : Nat) (front x rest : Text) (caps : Captures) : Match :=
  ⟨o + Text.size front, o + Text.size (front ++ x), x, caps, between o (front ++ x) rest⟩

/-- What is taken is the match. -/
theorem Takes.matchAt? (h : p.Takes o front x rest [] caps) :
    p.matchAt? (between o front (x ++ rest)) = some (matchOf o front x rest caps) := by
  refine h Match _ _ ?_
  rw [Cursor.textTo_between]
  rfl

/-- And a match fits. -/
theorem fits_of_matchAt? {t : Text} {m : Match} (h : p.matchAt? (between o front t) = some m) :
    ∃ x rest caps, t = x ++ rest ∧ p.Fits front x rest ∧ m = matchOf o front x rest caps := by
  obtain ⟨x, rest, caps, rfl, hx, hm⟩ := fits_of_run h
  refine ⟨x, rest, caps, rfl, hx, ?_⟩
  rw [Cursor.textTo_between] at hm
  exact (Option.some.inj hm).symm

/-- A search tries each place in turn. -/
theorem search?_cons (c : Char) (cs : Text) :
    p.search? (between o front (c :: cs))
      = (p.matchAt? (between o front (c :: cs)) <|> p.search? (between o (front ++ [c]) cs)) := by
  have hnext : p.search? (between o (front ++ [c]) cs)
      = p.searchFrom (some c) (o + Text.size front + c.utf8Size) cs := by
    simp [search?, between, Text.size, Nat.add_assoc]
  rw [hnext, search?]
  show p.searchFrom front.getLast? (o + Text.size front) (c :: cs) = _
  have hcursor : (⟨front.getLast?, o + Text.size front, c :: cs⟩ : Cursor)
      = between o front (c :: cs) := rfl
  rw [searchFrom, hcursor]
  cases p.matchAt? (between o front (c :: cs)) <;> rfl

/-- A match in the first place is found. -/
theorem search?_of_matchAt? {t : Text} {m : Match} (h : p.matchAt? (between o front t) = some m) :
    p.search? (between o front t) = some m := by
  cases t with
  | nil => exact h
  | cons c cs =>
    rw [search?_cons, h]
    rfl

/-- A search either finds something that **begins inside** a text, or it goes on behind it. -/
theorem search?_append (p : Pattern) (o : Nat) (front t rest : Text) :
    (∃ s s', t = s ++ s' ∧ s' ≠ [] ∧ ∃ m, p.matchAt? (between o (front ++ s) (s' ++ rest)) = some m
      ∧ p.search? (between o front (t ++ rest)) = some m)
    ∨ p.search? (between o front (t ++ rest)) = p.search? (between o (front ++ t) rest) := by
  induction t generalizing front with
  | nil => exact .inr (by rw [List.append_nil, List.nil_append])
  | cons c cs ih =>
    cases hm : p.matchAt? (between o front (c :: (cs ++ rest))) with
    | some m =>
      refine .inl ⟨[], c :: cs, rfl, by simp, m, ?_, ?_⟩
      · rw [List.append_nil]
        exact hm
      · exact search?_of_matchAt? hm
    | none =>
      have hskip : p.search? (between o front (c :: cs ++ rest))
          = p.search? (between o (front ++ [c]) (cs ++ rest)) := by
        rw [List.cons_append, search?_cons, hm]
        rfl
      obtain ⟨s, s', rfl, hne, m, hat, hsearch⟩ | hsearch := ih (front ++ [c])
      · refine .inl ⟨c :: s, s', rfl, hne, m, ?_, hskip.trans hsearch⟩
        rwa [List.append_assoc] at hat
      · refine .inr (hskip.trans (hsearch.trans ?_))
        rw [List.append_assoc]
        rfl

/-- Nothing that fits begins inside a text. -/
def Absent (p : Pattern) (front t rest : Text) : Prop :=
  ∀ s s', t = s ++ s' → s' ≠ [] → ∀ x r, s' ++ rest = x ++ r → ¬ p.Fits (front ++ s) x r

/-- A search passes over a text in which nothing begins. -/
theorem Absent.search?_eq {t : Text} (h : p.Absent front t rest) (o : Nat) :
    p.search? (between o front (t ++ rest)) = p.search? (between o (front ++ t) rest) := by
  obtain ⟨s, s', ht, hne, m, hat, -⟩ | hsearch := search?_append p o front t rest
  · obtain ⟨x, r, -, htext, hfits, -⟩ := fits_of_matchAt? hat
    exact absurd hfits (h s s' ht hne x r htext)
  · exact hsearch

/-- Nothing is found where nothing fits, the end included. -/
theorem search?_eq_none {t : Text} (h : p.Absent front t [])
    (hend : ∀ x r, [] = x ++ r → ¬ p.Fits (front ++ t) x r) :
    p.search? (between o front t) = none := by
  have hsearch := h.search?_eq o
  rw [List.append_nil] at hsearch
  rw [hsearch]
  show p.matchAt? (between o (front ++ t) []) = none
  rw [Option.eq_none_iff_forall_ne_some]
  intro m hm
  obtain ⟨x, r, -, htext, hfits, -⟩ := fits_of_matchAt? hm
  exact hend x r htext hfits

/-- What is found behind a text in which nothing begins. -/
theorem Takes.search?_eq {t : Text} (h : p.Takes o (front ++ t) x rest [] caps)
    (hbefore : p.Absent front t (x ++ rest)) :
    p.search? (between o front (t ++ (x ++ rest))) = some (matchOf o (front ++ t) x rest caps) := by
  rw [hbefore.search?_eq, search?_of_matchAt? h.matchAt?]

/-- A pattern that is bound to the beginning of a text is looked for **only there**. -/
theorem find?_first (q : Pattern) (t : Text) :
    (seq .first q).find? t = (seq .first q).matchAt? (between 0 [] t) := by
  show (seq .first q).search? (between 0 [] t) = _
  cases t with
  | nil => rfl
  | cons c cs =>
    have hlater : (seq .first q).search? (between 0 [c] cs) = none := by
      refine search?_eq_none ?_ ?_
      · rintro s s' - - x r - ⟨y, z, -, ⟨-, hfront⟩, -⟩
        simp at hfront
      · rintro x r - ⟨y, z, -, ⟨-, hfront⟩, -⟩
        simp at hfront
    rw [search?_cons, List.nil_append, hlater]
    cases (seq .first q).matchAt? (between 0 [] (c :: cs)) <;> rfl

/-- A pattern from the beginning that takes the whole text is found. -/
theorem Takes.find?_eq {q : Pattern} {t : Text}
    (h : (Pattern.seq .first q).Takes 0 [] t [] [] caps) :
    (Pattern.seq .first q).find? t = some (matchOf 0 [] t [] caps) := by
  have hat := h.matchAt?
  rw [List.append_nil] at hat
  exact (find?_first q t).trans hat

/-! ## All matches -/

/-- Nothing fits that is empty, so every match moves the search on. -/
def Advances (p : Pattern) : Prop :=
  ∀ front x rest, p.Fits front x rest → x ≠ []

/-- The matches behind a place. -/
def matchesAfter (p : Pattern) (o : Nat) (front t : Text) : List Match :=
  p.matchesFrom t.length (between o front t)

/-- What a search finds fits **where it was found**. -/
theorem search?_eq_some {t : Text} {m : Match} (h : p.search? (between o front t) = some m) :
    ∃ s x rest caps, t = s ++ (x ++ rest) ∧ p.Fits (front ++ s) x rest
      ∧ m = matchOf o (front ++ s) x rest caps := by
  have hcases := search?_append p o front t []
  rw [List.append_nil, h] at hcases
  obtain ⟨s, s', rfl, -, m', hat, hm⟩ | hend := hcases
  · obtain rfl := Option.some.inj hm
    obtain ⟨x, rest, caps, hs', hfits, rfl⟩ := fits_of_matchAt? hat
    rw [List.append_nil] at hs'
    exact ⟨s, x, rest, caps, by rw [hs'], hfits, rfl⟩
  · obtain ⟨x, rest, caps, hnil, hfits, rfl⟩ := fits_of_matchAt? (t := []) hend.symm
    exact ⟨t, x, rest, caps, by rw [← hnil, List.append_nil], hfits, rfl⟩

/-- There is always room enough for all matches. -/
theorem matchesFrom_eq (hp : p.Advances) {t : Text} {n : Nat} (hn : t.length ≤ n) :
    p.matchesFrom n (between o front t) = p.matchesAfter o front t := by
  rw [matchesAfter]
  induction hlen : t.length using Nat.strongRecOn generalizing front t n with
  | _ k ih =>
    subst hlen
    cases hsearch : p.search? (between o front t) with
    | none => cases n <;> cases t.length <;> simp [matchesFrom, hsearch]
    | some m =>
      obtain ⟨s, x, rest, caps, rfl, hfits, rfl⟩ := search?_eq_some hsearch
      have hx := List.length_pos_iff.2 (hp _ _ _ hfits)
      simp only [List.length_append] at hn ih ⊢
      obtain ⟨n, rfl⟩ : ∃ n', n = n' + 1 := ⟨n - 1, by omega⟩
      obtain ⟨k, hk⟩ : ∃ k, s.length + (x.length + rest.length) = k + 1 :=
        ⟨s.length + (x.length + rest.length) - 1, by omega⟩
      rw [hk, matchesFrom, matchesFrom, hsearch]
      show matchOf _ _ _ _ _ :: p.matchesFrom n (between o (front ++ s ++ x) rest)
        = matchOf _ _ _ _ _ :: p.matchesFrom k (between o (front ++ s ++ x) rest)
      rw [@ih rest.length (by omega) (front ++ s ++ x) rest n (by omega) rfl,
        @ih rest.length (by omega) (front ++ s ++ x) rest k (by omega) rfl]

/-- Matches are looked for behind a text in which nothing begins. -/
theorem Absent.matchesAfter_eq (hp : p.Advances) {t : Text} (h : p.Absent front t rest) (o : Nat) :
    p.matchesAfter o front (t ++ rest) = p.matchesAfter o (front ++ t) rest := by
  have hroom : rest.length ≤ (t ++ rest).length := by
    rw [List.length_append]
    omega
  rw [← matchesFrom_eq hp hroom, matchesAfter]
  cases (t ++ rest).length with
  | zero => rfl
  | succ n => rw [matchesFrom, matchesFrom, h.search?_eq]

theorem advances_of_needsChar (hp : p.needsChar = true) : p.Advances :=
  fun _ _ _ h => h.ne_nil hp

/-- The first match is the one that begins here. -/
theorem Takes.matchesAfter_eq (hp : p.Advances) (hx : x ≠ []) (h : p.Takes o front x rest [] caps) :
    p.matchesAfter o front (x ++ rest)
      = matchOf o front x rest caps :: p.matchesAfter o (front ++ x) rest := by
  have hpos := List.length_pos_iff.2 hx
  obtain ⟨n, hn⟩ : ∃ n, (x ++ rest).length = n + 1 :=
    ⟨(x ++ rest).length - 1, by rw [List.length_append]; omega⟩
  rw [matchesAfter, hn, matchesFrom, search?_of_matchAt? h.matchAt?]
  show matchOf o front x rest caps :: p.matchesFrom n (between o (front ++ x) rest) = _
  rw [matchesFrom_eq hp (by rw [List.length_append] at hn; omega)]

/-- A text in which a pattern is absent has no matches. -/
theorem Absent.matchesAfter_eq_nil (hp : p.Advances) {t : Text} (h : p.Absent front t [])
    (o : Nat) :
    p.matchesAfter o front t = [] := by
  have hmatches := h.matchesAfter_eq hp o
  rw [List.append_nil] at hmatches
  rw [hmatches]
  rfl

end Pattern

end PascalAtlas
