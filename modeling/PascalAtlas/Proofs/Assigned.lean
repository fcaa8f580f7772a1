import PascalAtlas.Proofs.Unquoted

/-!
# Where an assignment is cut

An assignment is cut at a `:=` that stands outside of literals and at a place where as many
brackets have been closed as opened. Both are properties of the **place** (`SimpleForm.AssignsAt`),
whatever is done to find it. The reader goes through the text once and keeps two things, how many
brackets are open and whether a literal is. The number may become negative, and may come back to
zero. What it keeps behind some text is what that text says about the place behind it
(`SimpleForm.cutOutside?_step`), so the reader stops at the first place there is
(`SimpleForm.first_of_cutOutside?`), and passes none over
(`SimpleForm.not_stopsAt_of_cutOutside?`).

One thing stands between the two. The number is kept in **32 bits**, so what the reader takes for
zero is every multiple of `2 ^ 32` (`SimpleForm.StopsAt`). This is the same wherever no more than
`2 ^ 31 - 1` brackets are open at once, as in every text with no more characters than that
(`SimpleForm.Countable`). Beyond that it is not: behind `2 ^ 32` opening brackets the reader takes
all of them for closed (`SimpleForm.ofText_unclosed`), and cuts where nothing is to be cut
(`SimpleForm.not_cutAtFirst_unclosed`).
-/

namespace PascalAtlas.SimpleForm

open Text (Outside unquoted unquoted_concat outside_concat outside_concat_quote MadeOf)

/-! ## Places of assignment -/

/-- The brackets that open something. -/
def opens (c : Char) : Bool :=
  c = '(' || c = '['

/-- The brackets that close something. -/
def closes (c : Char) : Bool :=
  c = ')' || c = ']'

/-- Between two parts of a text stands a `:=` **outside of literals and of brackets**. -/
structure AssignsAt (text front back : Text) : Prop where
  here : text = front ++ ":=".toList ++ back
  outside : Outside front
  /-- The brackets before it, as far as they stand outside of literals, balance to zero. -/
  level : (unquoted opens front).length = (unquoted closes front).length

/-- How many brackets are **open behind** a text; less than zero if too many have been closed. -/
def openBehind (front : Text) : Int :=
  (unquoted opens front).length - (unquoted closes front).length

/-- No bracket is open where as many have been closed as opened. -/
theorem openBehind_eq_zero_iff {front : Text} :
    openBehind front = 0 ↔ (unquoted opens front).length = (unquoted closes front).length := by
  rw [openBehind]
  omega

/-- How one character outside of literals changes the number of open brackets. -/
def turn (c : Char) : Int :=
  (if opens c then 1 else 0) - if closes c then 1 else 0

/-- An opening bracket is counted up, and begins no `:=`. -/
theorem turn_of_opens {c : Char} (h : opens c = true) : turn c = 1 ∧ c ≠ ':' := by
  obtain rfl | rfl : c = '(' ∨ c = '[' := by simpa [opens] using h
  · exact ⟨rfl, by decide⟩
  · exact ⟨rfl, by decide⟩

/-- A closing bracket is counted down, and begins no `:=`. -/
theorem turn_of_closes {c : Char} (h : closes c = true) : turn c = -1 ∧ c ≠ ':' := by
  obtain rfl | rfl : c = ')' ∨ c = ']' := by simpa [closes] using h
  · exact ⟨rfl, by decide⟩
  · exact ⟨rfl, by decide⟩

/-- Inside a literal no bracket counts. -/
theorem openBehind_concat_inside {front : Text} (h : ¬ Outside front) (c : Char) :
    openBehind (front ++ [c]) = openBehind front := by
  rw [openBehind, unquoted_concat, unquoted_concat, if_neg (fun hc => h hc.2),
    if_neg (fun hc => h hc.2), List.append_nil, List.append_nil, openBehind]

/-- Outside of literals one more character counts as its turn. -/
theorem openBehind_concat {front : Text} (h : Outside front) (c : Char) :
    openBehind (front ++ [c]) = openBehind front + turn c := by
  have hlength (p : Char → Bool) :
      ((unquoted p (front ++ [c])).length : Int)
        = (unquoted p front).length + if p c then 1 else 0 := by
    rw [unquoted_concat]
    by_cases hc : p c = true <;> simp [hc, h]
  rw [openBehind, hlength, hlength, openBehind, turn]
  omega

/-! ## The counter -/

/-- The **counter** of open brackets behind a text. -/
def counterBehind (front : Text) : Int32 :=
  .ofInt (openBehind front)

/-- The counter stands at zero wherever the brackets balance to a **multiple** of its size. -/
theorem counterBehind_eq_zero_iff {front : Text} :
    counterBehind front = 0 ↔ (Int32.size : Int) ∣ openBehind front := by
  rw [counterBehind, ← Int32.toInt_inj, Int32.toInt_ofInt, Int32.toInt_zero]
  exact Int.dvd_iff_bmod_eq_zero.symm

/-- Inside a literal the counter stands still. -/
theorem counterBehind_concat_inside {front : Text} (h : ¬ Outside front) (c : Char) :
    counterBehind (front ++ [c]) = counterBehind front := by
  rw [counterBehind, openBehind_concat_inside h, counterBehind]

/-- Outside of literals the counter turns with each bracket. -/
theorem counterBehind_concat {front : Text} (h : Outside front) (c : Char) :
    counterBehind (front ++ [c]) = counterBehind front + .ofInt (turn c) := by
  rw [counterBehind, openBehind_concat h, Int32.ofInt_add, counterBehind]

/-- Between two parts of a text stands a `:=` outside of literals, and the brackets before it
balance to what the **counter** takes for zero. -/
structure StopsAt (text front back : Text) : Prop where
  here : text = front ++ ":=".toList ++ back
  outside : Outside front
  /-- The brackets before it, as far as they stand outside of literals, balance to a multiple of
  `2 ^ 32`. -/
  level : (Int32.size : Int) ∣ openBehind front

/-- Inside a literal the reader goes on to the quote that closes it. -/
theorem cutOutside?_inside (depth : Int32) (c : Char) (cs : Text) :
    cutOutside? ":=".toList depth true (c :: cs)
      = (cutOutside? ":=".toList depth (c != '\'') cs).map fun parts =>
        (c :: parts.1, parts.2) := by
  rw [cutOutside?]
  rfl

/-- Outside of literals it stops before a `:=` if no bracket is open, and else counts the
character. -/
theorem cutOutside?_outside (depth : Int32) (c : Char) (cs : Text) :
    cutOutside? ":=".toList depth false (c :: cs)
      = if depth = 0 ∧ ":=".toList <+: c :: cs then some ([], (c :: cs).drop 2)
        else (cutOutside? ":=".toList (depth + .ofInt (turn c)) (c == '\'') cs).map
          fun parts => (c :: parts.1, parts.2) := by
  have hcolon (h : depth = 0 ∧ ":=".toList <+: c :: cs) : c = ':' := by
    obtain ⟨-, rest, hrest⟩ := h
    exact (List.cons.inj hrest).1.symm
  rw [cutOutside?, if_neg Bool.false_ne_true]
  -- Quotes and brackets are told first, and none of them begins a `:=`.
  split
  next hquote =>
    subst hquote
    have hstill : depth + .ofInt (turn '\'') = depth := Int32.add_zero depth
    rw [if_neg (mt hcolon (by decide)), hstill]
    rfl
  next hquote =>
    rw [beq_eq_false_iff_ne.2 hquote]
    split
    next hopens =>
      obtain ⟨hturn, hc⟩ := turn_of_opens hopens
      rw [hturn, if_neg (mt hcolon hc)]
      rfl
    next hopens =>
      split
      next hcloses =>
        obtain ⟨hturn, hc⟩ := turn_of_closes hcloses
        have hdown : depth + .ofInt (-1) = depth - 1 := (Int32.sub_eq_add_neg depth 1).symm
        rw [hturn, if_neg (mt hcolon hc), hdown]
      next hcloses =>
        have hturn : turn c = 0 := by simp [turn, opens, closes, hopens, hcloses]
        have hstill : depth + .ofInt (turn c) = depth := by
          rw [hturn]
          exact Int32.add_zero depth
        rw [hstill]
        split
        next hdepth =>
          cases hdrop : Text.dropPrefix? ":=".toList (c :: cs) with
          | some rest =>
            have heq := Token.dropPrefix?_eq_some hdrop
            rw [if_pos ⟨hdepth, rest, heq⟩, ← heq]
            rfl
          | none =>
            refine (if_neg ?_).symm
            rintro ⟨-, rest, hrest⟩
            rw [← hrest, Token.dropPrefix?_append] at hdrop
            cases hdrop
        next hdepth => rw [if_neg fun h => hdepth h.1]

/-- A quote changes sides, and no other character does. -/
theorem decide_outside_concat (front : Text) (c : Char) :
    decide (Outside (front ++ [c])) = (decide (Outside front) != (c == '\'')) := by
  by_cases hquote : c = '\''
  · subst hquote
    simp [outside_concat_quote]
  · rw [beq_eq_false_iff_ne.2 hquote, Bool.bne_false]
    simp only [outside_concat hquote]

/-- The reader **stops** where the counter stands at zero before a `:=`, and goes on from any other
place with what is said about the next one. -/
theorem cutOutside?_step (front : Text) (c : Char) (cs : Text) :
    cutOutside? ":=".toList (counterBehind front) (!decide (Outside front)) (c :: cs)
      = if Outside front ∧ counterBehind front = 0 ∧ ":=".toList <+: c :: cs
        then some ([], (c :: cs).drop 2)
        else (cutOutside? ":=".toList (counterBehind (front ++ [c]))
            (!decide (Outside (front ++ [c]))) cs).map
          fun parts => (c :: parts.1, parts.2) := by
  by_cases hout : Outside front
  · rw [decide_outside_concat, counterBehind_concat hout, decide_eq_true hout, Bool.not_true,
      Bool.true_bne, Bool.not_not, cutOutside?_outside]
    simp only [hout, true_and]
  · rw [decide_outside_concat, counterBehind_concat_inside hout, decide_eq_false hout,
      Bool.not_false, Bool.false_bne, cutOutside?_inside, if_neg fun h => hout h.1]
    rfl

/-! ## The whole text

Both inductions are on what is still to be read. What has been read is arbitrary, because the reader
knows of it only what is said about the place behind it. -/

variable {front back cs ahead : Text} {c : Char}

theorem not_stopsAt_end : ¬ StopsAt (front ++ []) (front ++ ahead) back := by
  intro h
  have hlength := congrArg List.length h.here
  simp at hlength

/-- A place at which the reader stops, and that is **not before** what has been read, is right
behind it, or behind one more character. -/
theorem StopsAt.here_or_later (h : StopsAt (front ++ c :: cs) (front ++ ahead) back) :
    (ahead = [] ∧ Outside front ∧ counterBehind front = 0 ∧ ":=".toList <+: c :: cs)
      ∨ ∃ later, ahead = c :: later
        ∧ StopsAt (front ++ [c] ++ cs) (front ++ [c] ++ later) back := by
  obtain ⟨hhere, hout, hlevel⟩ := h
  rw [List.append_assoc, List.append_assoc] at hhere
  have hrest := List.append_cancel_left hhere
  cases ahead with
  | nil =>
    rw [List.append_nil] at hout hlevel
    exact .inl ⟨rfl, hout, counterBehind_eq_zero_iff.2 hlevel, back, hrest.symm⟩
  | cons d later =>
    obtain ⟨rfl, hcs⟩ := List.cons.inj hrest
    rw [List.append_cons] at hout hlevel
    refine .inr ⟨later, rfl, ?_, hout, hlevel⟩
    rw [hcs]
    simp

/-- The reader stops at such a place, and **no other** is before it. -/
theorem first_of_cutOutside?
    (h : cutOutside? ":=".toList (counterBehind front) (!decide (Outside front)) cs
      = some (ahead, back)) :
    StopsAt (front ++ cs) (front ++ ahead) back
      ∧ ∀ ahead' back', StopsAt (front ++ cs) (front ++ ahead') back' →
        ahead.length ≤ ahead'.length := by
  induction cs generalizing front ahead with
  | nil =>
    rw [cutOutside?] at h
    cases h
  | cons c cs ih =>
    rw [cutOutside?_step] at h
    split at h
    next hstop =>
      obtain ⟨hout, hzero, rest, hrest⟩ := hstop
      obtain ⟨rfl, rfl⟩ := Prod.mk.inj (Option.some.inj h)
      rw [← hrest, List.append_nil]
      refine ⟨⟨?_, hout, counterBehind_eq_zero_iff.1 hzero⟩, fun _ _ _ => Nat.zero_le _⟩
      rw [List.append_assoc]
      rfl
    next hstop =>
      obtain ⟨⟨later, after⟩, hcut, heq⟩ := Option.map_eq_some_iff.1 h
      obtain ⟨rfl, rfl⟩ := Prod.mk.inj heq
      obtain ⟨hstops, hfirst⟩ := ih hcut
      refine ⟨by simpa using hstops, fun ahead' back' h' => ?_⟩
      -- The reader went on, so the place is not here, and further on the rest of the text decides.
      obtain ⟨-, hhere⟩ | ⟨later', rfl, hlater⟩ := h'.here_or_later
      · exact absurd hhere hstop
      · exact Nat.succ_le_succ (hfirst later' back' hlater)

/-- Where the reader finds nothing there is **no such place**. -/
theorem not_stopsAt_of_cutOutside?
    (h : cutOutside? ":=".toList (counterBehind front) (!decide (Outside front)) cs = none) :
    ¬ StopsAt (front ++ cs) (front ++ ahead) back := by
  induction cs generalizing front ahead with
  | nil => exact not_stopsAt_end
  | cons c cs ih =>
    rw [cutOutside?_step] at h
    split at h
    next => cases h
    next hstop =>
      intro hstops
      obtain ⟨-, hhere⟩ | ⟨later, rfl, hlater⟩ := hstops.here_or_later
      · exact hstop hhere
      · exact ih (Option.map_eq_none_iff.1 h) hlater

/-! ## Assignments -/

variable {t : Text}

/-- What is cut is an assignment of its two parts. -/
theorem ofText_of_cut (h : cutOutside? ":=".toList 0 false (Text.trim t) = some (front, back)) :
    ofText t = .assign (Text.trim front) (Text.trim back) := by
  rw [ofText]
  simp only [h]

theorem ofText_of_uncut (h : cutOutside? ":=".toList 0 false (Text.trim t) = none) :
    ofText t = if isCallShaped (Text.trim t) then
        .call (Text.trim (splitCall (Text.trim t)).1) (Text.trim (splitCall (Text.trim t)).2)
      else .other (Text.trim t) := by
  rw [ofText]
  simp only [h]

/-- The reader of a whole text stops at the **first** place in it. -/
theorem first_of_cut (h : cutOutside? ":=".toList 0 false (Text.trim t) = some (front, back)) :
    StopsAt (Text.trim t) front back
      ∧ ∀ front' back', StopsAt (Text.trim t) front' back' → front.length ≤ front'.length := by
  have hread : cutOutside? ":=".toList (counterBehind []) (!decide (Outside [])) (Text.trim t)
      = some (front, back) := h
  simpa using first_of_cutOutside? hread

/-- A text that is not cut has no place to cut it. -/
theorem not_stopsAt_of_uncut (h : cutOutside? ":=".toList 0 false (Text.trim t) = none) :
    ¬ StopsAt (Text.trim t) front back := by
  have hread : cutOutside? ":=".toList (counterBehind []) (!decide (Outside [])) (Text.trim t)
      = none := h
  simpa using not_stopsAt_of_cutOutside? hread

/-- The parts of a text are trimmed, and so was the text: **nothing but blanks** is lost. -/
theorem StopsAt.madeOf (h : StopsAt (Text.trim t) front back) :
    MadeOf [Text.trim front, ":=".toList, Text.trim back] t := by
  obtain ⟨a, b, ha, hb, heq⟩ := Text.exists_blanks_trim t
  have hvalue : MadeOf [Text.trim back] (back ++ b) := MadeOf.cons_trim (.nil hb) back
  have hsign : MadeOf [":=".toList, Text.trim back] (":=".toList ++ (back ++ b)) :=
    hvalue.cons_self _
  have hall := (hsign.cons_trim front).blanks_append ha
  rw [heq, h.here]
  simpa using hall

/-- A text is cut **at the first place of a kind** into an assignment: it is one exactly if there is
such a place, and then target and value are what stands before and behind the first of them,
trimmed, so that the text is made of these two with the `:=` between them. -/
structure CutAtFirst (Place : Text → Text → Text → Prop) (t : Text) : Prop where
  assign_iff : (∃ target value, ofText t = .assign target value)
    ↔ ∃ front back, Place (Text.trim t) front back
  parts : ∀ target value, ofText t = .assign target value →
    ∃ front back, Place (Text.trim t) front back
      ∧ (∀ front' back', Place (Text.trim t) front' back' → front.length ≤ front'.length)
      ∧ target = Text.trim front ∧ value = Text.trim back
      ∧ MadeOf [target, ":=".toList, value] t

/-- Every text is cut at the first place at which the counter stands at zero. -/
theorem cutAtFirst_stopsAt (t : Text) : CutAtFirst StopsAt t := by
  cases hcut : cutOutside? ":=".toList 0 false (Text.trim t) with
  | some parts =>
    obtain ⟨hstops, hfirst⟩ := first_of_cut hcut
    have hform := ofText_of_cut hcut
    refine ⟨iff_of_true ⟨_, _, hform⟩ ⟨_, _, hstops⟩, fun target value h => ?_⟩
    obtain ⟨rfl, rfl⟩ := SimpleForm.assign.inj (hform.symm.trans h)
    exact ⟨parts.1, parts.2, hstops, hfirst, rfl, rfl, hstops.madeOf⟩
  | none =>
    have hother (target value : Text) : ofText t ≠ .assign target value := by
      rw [ofText_of_uncut hcut]
      split
      · exact SimpleForm.noConfusion
      · exact SimpleForm.noConfusion
    refine ⟨iff_of_false ?_ ?_, fun target value h => absurd h (hother target value)⟩
    · rintro ⟨target, value, h⟩
      exact hother target value h
    · rintro ⟨front, back, h⟩
      exact not_stopsAt_of_uncut hcut h

/-- Places of two kinds that are the same in a text cut it alike. -/
theorem CutAtFirst.congr {Place Place' : Text → Text → Text → Prop} {t : Text}
    (h : CutAtFirst Place t)
    (hsame : ∀ {front back}, Place (Text.trim t) front back ↔ Place' (Text.trim t) front back) :
    CutAtFirst Place' t := by
  obtain ⟨hiff, hparts⟩ := h
  simp only [hsame] at hiff hparts
  exact ⟨hiff, hparts⟩

/-- A `:=` inside brackets, one inside a literal with a doubled quote, and one behind a bracket that
is closed before it is opened. -/
example : ofText " a['(' := 1]('it''s := ')) ( := x ".toList
    = .assign "a['(' := 1]('it''s := ')) (".toList "x".toList := by
  decide

/-! ## Where the counter is too small -/

theorem openBehind_replicate (n : Nat) : openBehind (List.replicate n '(') = n := by
  induction n with
  | zero => rfl
  | succ n ih =>
    have hout : Outside (List.replicate n '(') := Text.outside_of_notMem (by simp)
    rw [List.replicate_succ', openBehind_concat hout, ih]
    rfl

/-- Some opening brackets with a `:=` behind them. -/
def unclosed (n : Nat) : Text :=
  List.replicate n '(' ++ ":=".toList ++ ['x']

theorem trim_unclosed (n : Nat) : Text.trim (unclosed n) = unclosed n := by
  refine Text.trim_eq_of_not_blank fun c hc => ?_
  simp only [unclosed, List.mem_append, List.mem_replicate] at hc
  rcases hc with (⟨-, rfl⟩ | hc) | hc
  · decide
  · obtain rfl | rfl : c = ':' ∨ c = '=' := by simpa using hc
    · decide
    · decide
  · obtain rfl : c = 'x' := by simpa using hc
    decide

/-- **The counter begins again.** Behind `2 ^ 32` opening brackets, and behind each multiple of
them, a `:=` makes an assignment, as if none of the brackets were open. -/
theorem ofText_unclosed (k : Nat) :
    ∃ target value, ofText (unclosed (k * Int32.size)) = .assign target value := by
  refine (cutAtFirst_stopsAt _).assign_iff.2 ⟨List.replicate (k * Int32.size) '(', ['x'], ?_⟩
  rw [trim_unclosed]
  refine ⟨rfl, Text.outside_of_notMem (by simp), ?_⟩
  rw [openBehind_replicate]
  exact ⟨k, by rw [Int.mul_comm]; rfl⟩

/-- The `:=` stands in one place only. -/
theorem eq_replicate_of_unclosed {n : Nat} (h : unclosed n = front ++ ":=".toList ++ back) :
    front = List.replicate n '(' := by
  induction n generalizing front with
  | zero =>
    -- Behind the first character, or the second, the text has no `:=`.
    cases front with
    | nil => rfl
    | cons c front =>
      cases front with
      | nil => simp [unclosed] at h
      | cons d front =>
        have hlength := congrArg List.length h
        simp [unclosed] at hlength
        omega
  | succ n ih =>
    cases front with
    | nil => simp [unclosed, List.replicate_succ] at h
    | cons c front =>
      have hcons : unclosed (n + 1) = '(' :: unclosed n := rfl
      rw [hcons, List.cons_append, List.cons_append] at h
      obtain ⟨rfl, hrest⟩ := List.cons.inj h
      rw [ih hrest, List.replicate_succ]

/-- But all these brackets are open there, and the text has **no place of assignment**. -/
theorem not_assignsAt_unclosed {n : Nat} (hn : 0 < n) :
    ¬ AssignsAt (Text.trim (unclosed n)) front back := by
  intro h
  rw [trim_unclosed] at h
  have hzero := openBehind_eq_zero_iff.2 h.level
  rw [eq_replicate_of_unclosed h.here, openBehind_replicate] at hzero
  omega

/-- So the bound is needed: these texts are **not cut** where an assignment is to be cut. -/
theorem not_cutAtFirst_unclosed {k : Nat} (hk : 0 < k) :
    ¬ CutAtFirst AssignsAt (unclosed (k * Int32.size)) := by
  intro h
  obtain ⟨front, back, hassigns⟩ := h.assign_iff.1 (ofText_unclosed k)
  exact not_assignsAt_unclosed (Nat.mul_pos hk (by decide)) hassigns

end PascalAtlas.SimpleForm
