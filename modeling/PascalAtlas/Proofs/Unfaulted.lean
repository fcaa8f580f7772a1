import PascalAtlas.Proofs.BlockGrammar

/-!
# Cuts that never fail

The scanner cuts the masked text at offsets that it has computed: from matches, by skipping blanks,
at a bracket or a `;` it has found, one byte behind a sign. Each of its readers begins at a cut and
ends at a cut **further on** (`Text.Onward`), and this is what is shown here of every one of them,
for every text. So no cut is out of order, out of bounds or through a character, and in particular
classes are read without a fault (`Scanner.classes_ok`).

The stretches that classes cover follow one another in the text, because a header inside an earlier
stretch is passed over.
-/

namespace PascalAtlas

/-! ## Further on in a text -/

namespace Text

variable {t x rest : Text} {m n k : Nat}

/-- At a cut there is a rest of the text. -/
theorem IsCut.remains (h : IsCut t n) : ∃ rest, t.Remains n rest := by
  obtain ⟨front, back, ht, hsize⟩ := h
  exact ⟨back, front, ht, hsize⟩

/-- Where there is a rest there is a cut. -/
theorem Remains.isCut (h : t.Remains n rest) : IsCut t n := by
  obtain ⟨front, ht, hsize⟩ := h
  exact ⟨front, rest, ht, hsize⟩

/-- An offset tells what remains. -/
theorem Remains.eq {rest' : Text} (h : t.Remains n rest) (h' : t.Remains n rest') :
    rest = rest' := by
  have hdrop := h.drop?_eq
  rw [h'.drop?_eq] at hdrop
  exact (Option.some.inj hdrop).symm

/-- The end of a text is a cut. -/
theorem isCut_size (t : Text) : IsCut t (size t) :=
  ⟨t, [], (List.append_nil t).symm, rfl⟩

/-- An offset that is **further on** in a text, and at which it can be cut. -/
def Onward (t : Text) (n k : Nat) : Prop :=
  n ≤ k ∧ IsCut t k

/-- Onward from onward is onward. -/
theorem Onward.trans (h : t.Onward m n) (h' : t.Onward n k) : t.Onward m k :=
  ⟨Nat.le_trans h.1 h'.1, h'.2⟩

/-- The end of a part is onward from its beginning. -/
theorem Remains.onward (h : t.Remains n (x ++ rest)) : t.Onward n (n + size x) :=
  ⟨Nat.le_add_right _ _, h.right.isCut⟩

/-- No cut is behind the end. -/
theorem IsCut.le_size (h : IsCut t n) : n ≤ size t := by
  obtain ⟨front, back, rfl, rfl⟩ := h
  rw [size_append]
  omega

/-- What remains further on is shorter. -/
theorem Remains.length_lt {rest' : Text} (h : t.Remains n rest) (h' : t.Remains k rest')
    (hlt : n < k) :
    rest'.length < rest.length := by
  obtain ⟨front, rfl, rfl⟩ := h
  obtain ⟨front', htext, rfl⟩ := h'
  rcases List.append_eq_append_iff.1 htext with ⟨between, rfl, rfl⟩ | ⟨between, rfl, -⟩
  · have hne : between ≠ [] := by
      rintro rfl
      rw [List.append_nil] at hlt
      exact Nat.lt_irrefl _ hlt
    have := List.length_pos_iff.2 hne
    rw [List.length_append]
    omega
  · rw [size_append] at hlt
    omega

end Text

namespace Scanner

open Text (Remains size IsCut Onward)

variable {t : Text} {m n : Nat}

/-! ## Readers -/

/-- **A cut succeeds** between two places in their order. -/
theorem cut_ok (hm : IsCut t m) (hn : IsCut t n) (hle : m ≤ n) :
    ∃ x rest, cut t m n = .ok x ∧ t.Remains m (x ++ rest) ∧ n = m + size x := by
  obtain ⟨front, x, rest, rfl, rfl, rfl⟩ := hm.three_parts hn hle
  have hremains : Remains (front ++ x ++ rest) (size front) (x ++ rest) :=
    ⟨front, List.append_assoc _ _ _, rfl⟩
  exact ⟨x, rest, by rw [Text.size_append, cut_eq hremains], hremains, Text.size_append _ _⟩

/-- Skipping blanks passes over blanks, and over nothing else. -/
theorem skipBlanks_ok (h : IsCut t n) :
    ∃ x rest, skipBlanks t n = .ok (n + size x) ∧ t.Remains n (x ++ rest)
      ∧ ∀ c ∈ x, Text.isBlank c = true := by
  obtain ⟨rest, hrest⟩ := h.remains
  have hall : rest = rest.takeWhile Text.isBlank ++ rest.dropWhile Text.isBlank :=
    List.takeWhile_append_dropWhile.symm
  rw [hall] at hrest
  have hblank : ∀ c ∈ rest.takeWhile Text.isBlank, Text.isBlank c = true :=
    List.all_eq_true.1 List.all_takeWhile
  refine ⟨_, _, skipBlanks_eq hrest hblank ?_, hrest, hblank⟩
  cases hhead : (rest.dropWhile Text.isBlank).head? with
  | none => rfl
  | some c => exact Text.head_dropWhile (t := rest) (by rw [hhead]; rfl)

/-- Skipping blanks ends further on. -/
theorem onward_skipBlanks (h : IsCut t n) : ∃ k, skipBlanks t n = .ok k ∧ t.Onward n k := by
  obtain ⟨x, rest, hskip, hremains, -⟩ := skipBlanks_ok h
  exact ⟨_, hskip, hremains.onward⟩

/-- A character is looked at where something remains. -/
theorem charAt_ok (h : IsCut t n) (c : Char) :
    (charAt t n c = .ok true ∧ ∃ rest, t.Remains n (c :: rest)) ∨ charAt t n c = .ok false := by
  obtain ⟨rest, hrest⟩ := h.remains
  rw [charAt_eq hrest]
  cases hhead : rest.head? == some c with
  | false => exact .inr rfl
  | true =>
    obtain ⟨tail, rfl⟩ := List.head?_eq_some_iff.1 (beq_iff_eq.1 hhead)
    exact .inl ⟨rfl, tail, hrest⟩

/-- The end of a word is further on. -/
theorem onward_wordAt (h : IsCut t n) : t.Onward n (n + size (wordAt t n)) := by
  obtain ⟨rest, hrest⟩ := h.remains
  have hall : rest = leadingWord rest ++ rest.dropWhile Text.isIdentChar :=
    List.takeWhile_append_dropWhile.symm
  rw [wordAt, hrest.drop?_eq]
  rw [hall] at hrest
  exact hrest.onward

/-- The bracket that closes is one of the characters. -/
theorem exists_of_closingParen {depth offset close : Nat} {u : Text}
    (h : closingParen depth offset u = some close) :
    ∃ x rest, u = x ++ ')' :: rest ∧ close = offset + size x := by
  induction u generalizing depth offset with
  | nil => cases h
  | cons c cs ih =>
    have hlater : ∀ {depth : Nat}, closingParen depth (offset + c.utf8Size) cs = some close →
        ∃ x rest, c :: cs = x ++ ')' :: rest ∧ close = offset + size x := by
      intro depth h
      obtain ⟨x, rest, rfl, hclose⟩ := ih h
      exact ⟨c :: x, rest, rfl, by rw [hclose, size, Nat.add_assoc]⟩
    rw [closingParen] at h
    split at h
    · exact hlater h
    split at h
    next hc =>
      split at h
      · exact ⟨[], cs, by rw [hc]; rfl, (Option.some.inj h).symm⟩
      · exact hlater h
    next => exact hlater h

/-- Brackets that are closed: what is inside of them can be cut out, and it goes on behind them. -/
theorem matchingParen_ok {rest : Text} {close : Nat} (h : t.Remains n ('(' :: rest))
    (hclose : matchingParen t n = some close) :
    t.Onward (n + 1) close ∧ t.Onward close (close + 1) := by
  rw [matchingParen, h.drop?_eq] at hclose
  obtain ⟨x, back, htext, rfl⟩ := exists_of_closingParen hclose
  cases x with
  | nil => cases htext
  | cons c x =>
    obtain ⟨rfl, rfl⟩ := List.cons.inj htext
    have hinside := (h.next (by decide)).onward
    have hbehind : t.Remains (n + 1 + size x) (')' :: back) := (h.next (by decide)).right
    have hsize : n + size ('(' :: x) = n + 1 + size x := by
      show n + (1 + size x) = _
      omega
    rw [hsize]
    exact ⟨hinside, Nat.le_succ _, (hbehind.next (by decide)).isCut⟩

/-- A `;`, or the end of the text: it can be cut before and behind it. -/
theorem semiFrom_ok (h : IsCut t n) :
    ∃ semi, semiFrom t n = .ok semi ∧ t.Onward n semi ∧ t.Onward semi (min (semi + 1) (size t))
      ∧ (semi = size t ∨ ∃ rest, t.Remains semi (';' :: rest)) := by
  obtain ⟨rest, hrest⟩ := h.remains
  cases hcut : Text.cutAt? (· == ';') rest with
  | none =>
    refine ⟨size t, ?_, ⟨h.le_size, Text.isCut_size t⟩, ?_, .inl rfl⟩
    · simp only [semiFrom, tail_eq hrest, bind, Except.bind, hcut]
      rfl
    · rw [Nat.min_eq_right (Nat.le_succ _)]
      exact ⟨Nat.le_refl _, Text.isCut_size t⟩
  | some parts =>
    obtain ⟨c, rfl, hc, hfront⟩ := Text.cutAt?_eq_some (a := parts.1) (b := parts.2) hcut
    obtain rfl : c = ';' := beq_iff_eq.1 hc
    have hsemi : t.Remains (n + size parts.1) (';' :: parts.2) := hrest.right
    have hnext := (hsemi.next (by decide)).isCut
    refine ⟨n + size parts.1, semiFrom_eq hrest fun hmem => ?_, hrest.onward, ?_, .inr ⟨_, hsemi⟩⟩
    · exact absurd (hfront _ hmem) (by decide)
    · rw [Nat.min_eq_left hnext.le_size]
      exact ⟨Nat.le_succ _, hnext⟩

/-- What is passed with a `;` behind it has no word in it. -/
theorem afterSemi_ok (h : IsCut t n) :
    ∃ x rest, afterSemi t n = .ok (n + size x) ∧ t.Remains n (x ++ rest)
      ∧ ∀ c ∈ x, Text.isWordChar c = false := by
  obtain ⟨x, rest, hskip, hremains, hblank⟩ := skipBlanks_ok h
  simp only [afterSemi, hskip, bind, Except.bind]
  rcases charAt_ok hremains.right.isCut ';' with ⟨hchar, rest', hrest'⟩ | hchar
  · obtain rfl := hremains.right.eq hrest'
    refine ⟨x ++ [';'], rest', ?_, by rwa [List.append_assoc], ?_⟩
    · simp only [hchar, Text.size_append]
      rfl
    · intro c hc
      rcases List.mem_append.1 hc with hc | hc
      · exact Text.isWordChar_of_isBlank (hblank c hc)
      · rw [List.mem_singleton.1 hc]
        decide
  · refine ⟨[], x ++ rest, ?_, hremains, by simp⟩
    simp only [hchar]
    rfl

/-! ## Classes -/

/-- Block words are found from every cut on. -/
theorem blockWords_ok (h : IsCut t n) : ∃ ws, blockWords t n = .ok ws := by
  obtain ⟨rest, hrest⟩ := h.remains
  exact ⟨_, blockWords_eq hrest⟩

/-- A word that stands in the text begins and ends at cuts. -/
theorem BlockWord.StandsIn.isCut {w : BlockWord} (h : w.StandsIn t) :
    IsCut t w.start ∧ t.Onward w.start w.stop := by
  obtain ⟨front, x, rest, rfl, -, hstart, hstop⟩ := h
  have hremains : Remains (front ++ (x ++ rest)) w.start (x ++ rest) := ⟨front, rfl, hstart⟩
  rw [Text.size_append, hstart] at hstop
  exact ⟨hremains.isCut, hstop ▸ hremains.onward⟩

/-- The `end` that closes a block is one of the words. -/
theorem mem_of_closingEnd {depth : Nat} {ws : List BlockWord} {w : BlockWord}
    (h : closingEnd depth ws = some w) :
    w ∈ ws := by
  fun_induction closingEnd depth ws <;> simp_all

/-- The segments of a stretch lie in it, and can be cut out. -/
theorem segmentsFrom_ok {start depth offset : Nat} {x rest : Text}
    (h : t.Remains offset (x ++ rest)) (hstart : IsCut t start) (hle : start ≤ offset) :
    ∀ s ∈ segmentsFrom start depth offset x, IsCut t s.1 ∧ t.Onward s.1 s.2 := by
  induction x generalizing start depth offset with
  | nil =>
    intro s hs
    rw [segmentsFrom] at hs
    split at hs
    · rw [List.mem_singleton.1 hs]
      exact ⟨hstart, hle, h.isCut⟩
    · cases hs
  | cons c cs ih =>
    have hnext : t.Remains (offset + c.utf8Size) (cs ++ rest) := Remains.right (x := [c]) h
    have hle' : start ≤ offset + c.utf8Size := Nat.le_trans hle (Nat.le_add_right _ _)
    intro s hs
    rw [segmentsFrom] at hs
    -- Brackets leave the stretch open, and a `;` outside of them ends it.
    split at hs
    · exact ih hnext hstart hle' s hs
    split at hs
    · exact ih hnext hstart hle' s hs
    split at hs
    · rcases List.mem_cons.1 hs with rfl | hs
      · exact ⟨hstart, hle, h.isCut⟩
      · exact ih hnext hnext.isCut (Nat.le_refl _) s hs
    · exact ih hnext hstart hle' s hs

/-- **Members** are read without a fault from segments between cuts. -/
theorem addMembers_ok (lines : LineIndex) (c : ClassDecl) {segments : List (Nat × Nat)}
    (h : ∀ s ∈ segments, IsCut t s.1 ∧ t.Onward s.1 s.2) :
    ∃ c', addMembers t lines c segments = .ok c' := by
  induction segments generalizing c with
  | nil => exact ⟨c, rfl⟩
  | cons s segments ih =>
    obtain ⟨start, stop⟩ := s
    obtain ⟨hstart, hle, hstop⟩ := h _ (List.mem_cons_self ..)
    obtain ⟨x, rest, hcut, -⟩ := cut_ok hstart hstop hle
    have hothers := fun c => ih c fun s hs => h s (List.mem_cons_of_mem _ hs)
    simp only [addMembers, hcut, bind, Except.bind]
    split
    · exact hothers c
    split
    · exact ⟨c, rfl⟩
    · exact hothers _

/-- Modifiers are read without a fault, and what is behind them is further on. -/
theorem classModifiers_ok (isRecord : Bool) (h : IsCut t n) :
    ∃ r, classModifiers t isRecord n = .ok r ∧ ∀ k ∈ r, t.Onward n k := by
  have hhere : ∀ k ∈ some n, t.Onward n k := by
    rintro k ⟨⟩
    exact ⟨Nat.le_refl _, h⟩
  simp only [classModifiers]
  split
  · exact ⟨_, rfl, hhere⟩
  split
  · exact ⟨none, rfl, by simp⟩
  split
  · have hword := onward_wordAt h
    obtain ⟨k, hskip, hk⟩ := onward_skipBlanks hword.2
    refine ⟨some k, ?_, ?_⟩
    · simp only [hskip, bind, Except.bind]
      rfl
    · rintro _ ⟨⟩
      exact hword.trans hk
  · exact ⟨_, rfl, hhere⟩

/-- So is the ancestor. -/
theorem classHeritage_ok (h : IsCut t n) :
    ∃ r, classHeritage t n = .ok r ∧ ∀ e ∈ r, t.Onward n e.2 := by
  simp only [classHeritage]
  rcases charAt_ok h '(' with ⟨hchar, rest, hrest⟩ | hchar
  · simp only [hchar, bind, Except.bind]
    cases hclose : matchingParen t n with
    | none => exact ⟨none, rfl, by simp⟩
    | some close =>
      obtain ⟨hinside, hbehind⟩ := matchingParen_ok hrest hclose
      obtain ⟨x, rest', hcut, -⟩ := cut_ok (hrest.next (by decide)).isCut hinside.2 hinside.1
      obtain ⟨k, hskip, hk⟩ := onward_skipBlanks hbehind.2
      simp only [if_pos, hcut, hskip]
      refine ⟨_, rfl, ?_⟩
      rintro _ ⟨⟩
      exact ⟨Nat.le_trans (Nat.le_succ _) (Nat.le_trans hinside.1 (Nat.le_trans hbehind.1 hk.1)),
        hk.2⟩
  · simp only [hchar, bind, Except.bind]
    refine ⟨_, rfl, ?_⟩
    rintro _ ⟨⟩
    exact ⟨Nat.le_refl _, h⟩

/-- A class is read without a fault, and ends behind its header. -/
theorem class?_ok (lines : LineIndex) (name : Capture) (isRecord : Bool) (h : IsCut t n) :
    ∃ r, class? t lines name n isRecord = .ok r ∧ ∀ e ∈ r, t.Onward n e.2 := by
  obtain ⟨k, hskip, hk⟩ := onward_skipBlanks h
  obtain ⟨modifiers, hmodifiers, honward⟩ := classModifiers_ok isRecord hk.2
  simp only [class?, hskip, hmodifiers, bind, Except.bind]
  cases modifiers with
  | none => exact ⟨none, rfl, by simp⟩
  | some start =>
    have hstart := hk.trans (honward start rfl)
    obtain ⟨heritage, hheritage, honward'⟩ := classHeritage_ok hstart.2
    simp only [hheritage]
    cases heritage with
    | none => exact ⟨none, rfl, by simp⟩
    | some e =>
      obtain ⟨ancestor, start'⟩ := e
      have hstart' : t.Onward n start' := hstart.trans (honward' _ rfl)
      dsimp only
      -- A class without members may end with a `;` right away; else its `end` is looked for
      -- among the block words.
      rcases charAt_ok hstart'.2 ';' with ⟨hchar, rest, hrest⟩ | hchar
      · simp only [hchar, if_pos]
        split
        · exact ⟨none, rfl, by simp⟩
        · refine ⟨_, rfl, ?_⟩
          rintro _ ⟨⟩
          exact ⟨Nat.le_succ_of_le hstart'.1, (hrest.next (by decide)).isCut⟩
      · obtain ⟨ws, hws⟩ := blockWords_ok hstart'.2
        simp only [hchar, hws]
        cases hclosing : closingEnd 0 ws with
        | none => exact ⟨none, rfl, by simp⟩
        | some closing =>
          obtain ⟨hle, hstands⟩ := (standsIn_of_blockWords hws).1 closing
            (mem_of_closingEnd hclosing)
          obtain ⟨hfirst, hlast⟩ := hstands.isCut
          obtain ⟨x, rest, hcut, hremains, -⟩ := cut_ok hstart'.2 hfirst hle
          have hsegments := @segmentsFrom_ok t start' 0 start' x rest hremains
            hstart'.2 (Nat.le_refl _)
          obtain ⟨c, hmembers⟩ := addMembers_ok lines
            { name := name.text, ancestor, isRecord } hsegments
          obtain ⟨y, rest', hsemi, hremains', -⟩ := afterSemi_ok hlast.2
          simp only [segments, hcut, hmembers, hsemi, bind, Except.bind, pure, Except.pure]
          refine ⟨_, rfl, ?_⟩
          rintro _ ⟨⟩
          exact (hstart'.trans ⟨hle, hfirst⟩).trans (hlast.trans hremains'.onward)

/-- Stretches of a text, **one behind the other**. -/
def InRow {α : Type} (found : List (α × Nat × Nat)) : Prop :=
  (∀ f ∈ found, f.2.1 ≤ f.2.2) ∧ found.Pairwise fun f g => f.2.2 ≤ g.2.1

/-- What begins behind all the others is the next in the row. -/
theorem InRow.concat {α : Type} {found : List (α × Nat × Nat)} {f : α × Nat × Nat} (h : InRow found)
    (hf : f.2.1 ≤ f.2.2) (hbehind : ∀ g ∈ found, g.2.2 ≤ f.2.1) : InRow (found ++ [f]) := by
  refine ⟨fun g hg => ?_, List.pairwise_append.2
    ⟨h.2, List.pairwise_singleton _ _, fun g hg g' hg' => ?_⟩⟩
  · rcases List.mem_append.1 hg with hg | hg
    · exact h.1 g hg
    · exact List.mem_singleton.1 hg ▸ hf
  · exact List.mem_singleton.1 hg' ▸ hbehind g hg

/-- A match that can be read from: it ends at a cut, and its groups lie in it. -/
def IsRead (t : Text) (m : Match) : Prop :=
  t.Onward m.start m.stop ∧ Pattern.Captures.LieIn m.start m.stop m.captures

/-- A group begins inside its match. -/
theorem IsRead.group? {m : Match} (h : IsRead t m) {number : Nat} {c : Capture}
    (hc : m.group? number = some c) :
    m.start ≤ c.start ∧ c.start ≤ m.stop := by
  obtain ⟨e, he, rfl⟩ := Option.map_eq_some_iff.1 hc
  have hbounds := h.2 e (List.mem_of_find?_eq_some he)
  omega

/-- **Classes are read without a fault**, and the stretches they cover are one behind the other. -/
theorem classes_ok (lines : LineIndex) {ms : List Match} {found : List (ClassDecl × Nat × Nat)}
    (hms : ∀ m ∈ ms, IsRead t m) (hordered : ms.Pairwise fun m m' => m.stop ≤ m'.start)
    (hfound : InRow found) (hbefore : ∀ f ∈ found, ∀ m ∈ ms, f.2.1 ≤ m.start) :
    ∃ found', classes t lines ms found = .ok found' ∧ InRow found' := by
  induction ms generalizing found with
  | nil => exact ⟨found, rfl, hfound⟩
  | cons m ms ih =>
    obtain ⟨hlater, hordered'⟩ := List.pairwise_cons.1 hordered
    have hm := hms m (List.mem_cons_self ..)
    have hms' : ∀ m' ∈ ms, IsRead t m' := fun m' hm' => hms m' (List.mem_cons_of_mem _ hm')
    have hpassed : ∃ found', classes t lines ms found = .ok found' ∧ InRow found' :=
      ih hms' hordered' hfound fun f hf m' hm' => hbefore f hf m' (List.mem_cons_of_mem _ hm')
    rw [classes]
    split
    next name kind hname _ =>
      obtain ⟨hstart, hstop⟩ := hm.group? hname
      split
      next => exact hpassed
      next hnone =>
        obtain ⟨r, hclass, honward⟩ :=
          class?_ok lines name (Text.eqIgnoreCase kind.text "record".toList) hm.1.2
        simp only [hclass, bind, Except.bind]
        cases r with
        | none => exact hpassed
        | some e =>
          obtain ⟨c, stop⟩ := e
          have hstop' : m.stop ≤ stop := (honward _ rfl).1
          -- The header is in no earlier stretch, and does not begin before one, so it is
          -- behind all of them.
          have hbehind : ∀ f ∈ found, f.2.2 ≤ name.start := by
            intro f hf
            have hfirst := hbefore f hf m (List.mem_cons_self ..)
            have houtside : ¬ (f.2.1 ≤ m.start ∧ m.start < f.2.2) := by
              intro hinside
              exact hnone (List.any_eq_true.2 ⟨f, hf, by simpa using hinside⟩)
            omega
          refine ih hms' hordered' (hfound.concat (by show name.start ≤ stop; omega) hbehind) ?_
          intro f hf m' hm'
          rcases List.mem_append.1 hf with hf | hf
          · exact hbefore f hf m' (List.mem_cons_of_mem _ hm')
          · have hnext := hlater m' hm'
            rw [List.mem_singleton.1 hf]
            show name.start ≤ _
            omega
    next => exact hpassed

end Scanner

end PascalAtlas
