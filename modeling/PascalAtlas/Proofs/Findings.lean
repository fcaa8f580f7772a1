import PascalAtlas.Proofs.Aligned
import PascalAtlas.Proofs.Attached
import PascalAtlas.Proofs.Casing
import PascalAtlas.Proofs.ScannedRoutine
import PascalAtlas.Proofs.Unfaulted

/-!
# The scanner is total

The scanner searches for headings of routines, reads each with its directives and its body, and goes
on behind it. Its two loops are stated here without a bound: `Scanner.Directives` for the directives
behind a heading and `Scanner.Scope.Finds` for the routines of a text. Both have a derivation for
**every** text, because every round consumes a character, and what they derive is what the bounded
loops compute (`directives_ok`, `Scope.routines_ok`).

A body is found in the mask of the source and cut from the source itself. It stands between two
words of the mask, and next to a word the source can be cut where the mask can
(`BlockWord.StandsIn.isCut_source`). The next search begins where the body ends, before the `;` that
belongs to the routine; but no word begins in between, so routines follow one another without
overlap (`Scanner.Sequence.cons`).
-/

namespace PascalAtlas

namespace Scanner

open Text (Remains size IsCut Onward)

variable {t : Text} {m n : Nat}

/-! ## Directives -/

/-- One directive behind a heading, if there is one: whether it says that there is no body, and
the offset after it. -/
def directiveAt (masked : Text) (start : Nat) : Except ScanFault (Option (Bool × Nat)) := do
  let here ← skipBlanks masked start
  let word := wordAt masked here
  if word.isEmpty || !Text.isOneOf word Grammar.directives then
    return none
  let next ← tail masked (← skipBlanks masked (here + size word))
  if next.head? == some ':' || next.head? == some ',' then
    return none
  let semi ← semiFrom masked here
  return some (Text.isOneOf word (["forward", "external"].map String.toList),
    min (semi + 1) (size masked))

theorem directives_succ (k : Nat) (bodiless : Bool) (start : Nat) :
    directives t (k + 1) bodiless start = (do
      match ← directiveAt t start with
      | none => return (bodiless, start)
      | some d => directives t k (bodiless || d.1) d.2) := by
  -- Both sides look at the same places in the same order, so each fault is the same on both.
  simp only [directives, directiveAt, bind, Except.bind]
  cases skipBlanks t start with
  | error e => rfl
  | ok here =>
    dsimp only
    split
    · rfl
    cases skipBlanks t (here + size (wordAt t here)) with
    | error e => rfl
    | ok next =>
      dsimp only
      cases tail t next with
      | error e => rfl
      | ok rest =>
        dsimp only
        split
        · rfl
        cases semiFrom t here with
        | error e => rfl
        | ok semi => rfl

/-- A directive is passed, and with it at least a character. -/
theorem directiveAt_ok (h : IsCut t n) :
    directiveAt t n = .ok none ∨ ∃ d, directiveAt t n = .ok (some d) ∧ n < d.2 ∧ IsCut t d.2 := by
  obtain ⟨here, hskip, hhere⟩ := onward_skipBlanks h
  simp only [directiveAt, hskip, bind, Except.bind]
  split
  · exact .inl rfl
  next hword =>
    have honward := onward_wordAt hhere.2
    -- There is a word, so the text goes on here.
    have hroom : here < size t := by
      have hne : wordAt t here ≠ [] := by
        intro hempty
        rw [hempty] at hword
        exact hword rfl
      have hpos := Text.size_pos hne
      have hle := honward.2.le_size
      omega
    obtain ⟨next, hskip', hnext⟩ := onward_skipBlanks honward.2
    obtain ⟨rest, hrest⟩ := hnext.2.remains
    obtain ⟨semi, hsemi, hfirst, hlast, -⟩ := semiFrom_ok hhere.2
    simp only [hskip', tail_eq hrest, hsemi]
    split
    · exact .inl rfl
    · refine .inr ⟨_, rfl, ?_, hlast.2⟩
      -- The directive ends behind its `;`, or with the text if it has none.
      have hle := hhere.1
      have hle' := hfirst.1
      show n < min (semi + 1) (size t)
      omega

/-- **The directives behind a heading**, one after the other, without a bound on their number. -/
inductive Directives (masked : Text) : Bool → Nat → Bool → Nat → Prop
  | done {bodiless : Bool} {start : Nat} (h : directiveAt masked start = .ok none) :
    Directives masked bodiless start bodiless start
  | next {bodiless bodiless' : Bool} {start stop : Nat} {d : Bool × Nat}
      (h : directiveAt masked start = .ok (some d))
      (others : Directives masked (bodiless || d.1) d.2 bodiless' stop) :
    Directives masked bodiless start bodiless' stop

/-- The directives come to an end, and a bound that is not below the number of
characters is never met. -/
theorem directives_ok {rest : Text} (h : t.Remains n rest) {k : Nat} (hk : rest.length ≤ k)
    (bodiless : Bool) :
    ∃ bodiless' stop, directives t k bodiless n = .ok (bodiless', stop)
      ∧ Directives t bodiless n bodiless' stop
      ∧ t.Onward n stop := by
  induction k generalizing n rest bodiless with
  | zero =>
    refine ⟨bodiless, n, rfl, .done ?_, Nat.le_refl _, h.isCut⟩
    rcases directiveAt_ok h.isCut with hnone | ⟨d, -, hlt, hcut⟩
    · exact hnone
    · obtain ⟨rest', hrest'⟩ := hcut.remains
      have hshorter := h.length_lt hrest' hlt
      omega
  | succ k ih =>
    rw [directives_succ]
    rcases directiveAt_ok h.isCut with hnone | ⟨d, hsome, hlt, hcut⟩
    · refine ⟨bodiless, n, ?_, .done hnone, Nat.le_refl _, h.isCut⟩
      rw [hnone]
      rfl
    · obtain ⟨rest', hrest'⟩ := hcut.remains
      have hshorter := h.length_lt hrest' hlt
      obtain ⟨bodiless', stop, hothers, hdirectives, honward⟩ :=
        ih hrest' (by omega) (bodiless || d.1)
      refine ⟨bodiless', stop, ?_, .next hsome hdirectives,
        Nat.le_trans (Nat.le_of_lt hlt) honward.1, honward.2⟩
      rw [hsome]
      exact hothers

/-! ## Headings -/

/-- Reading the parameters has no fault, and goes onward. -/
theorem paramsAt_ok (h : IsCut t n) :
    ∃ params k, paramsAt t n = .ok (params, k) ∧ t.Onward n k := by
  simp only [paramsAt]
  rcases charAt_ok h '(' with ⟨hchar, rest, hrest⟩ | hchar
  · simp only [hchar, bind, Except.bind]
    cases hclose : matchingParen t n with
    | none => exact ⟨[], n, rfl, Nat.le_refl _, h⟩
    | some close =>
      obtain ⟨hinside, hbehind⟩ := matchingParen_ok hrest hclose
      obtain ⟨x, rest', hcut, -⟩ := cut_ok (hrest.next (by decide)).isCut hinside.2 hinside.1
      obtain ⟨k, hskip, hk⟩ := onward_skipBlanks hbehind.2
      simp only [if_pos, hcut, hskip]
      exact ⟨x, k, rfl, Nat.le_trans (Nat.le_succ _)
        (Nat.le_trans hinside.1 (Nat.le_trans hbehind.1 hk.1)), hk.2⟩
  · simp only [hchar, bind, Except.bind]
    exact ⟨[], n, rfl, Nat.le_refl _, h⟩

/-- **What follows the name of a routine** is read without a fault. -/
theorem headingRest_ok (h : IsCut t n) :
    ∃ r k, headingRest t n = .ok r ∧ t.Onward n k ∧ Directives t false k r.bodiless r.stop
      ∧ t.Onward k r.stop := by
  obtain ⟨start, hskip, hstart⟩ := onward_skipBlanks h
  obtain ⟨params, start', hparams, hstart'⟩ := paramsAt_ok hstart.2
  obtain ⟨semi, hsemi, hfirst, hlast, hsign⟩ := semiFrom_ok hstart'.2
  obtain ⟨rest, hrest⟩ := hlast.2.remains
  have hlength : rest.length ≤ t.length := by
    obtain ⟨front, rfl, -⟩ := hrest
    rw [List.length_append]
    omega
  obtain ⟨bodiless, stop, hdirectives, hrounds, honward⟩ := directives_ok hrest hlength false
  have hk : t.Onward n (min (semi + 1) (size t)) :=
    ((hstart.trans hstart').trans hfirst).trans hlast
  simp only [headingRest, hskip, hparams, hsemi, bind, Except.bind]
  rcases charAt_ok hstart'.2 ':' with ⟨hchar, rest', hrest'⟩ | hchar
  · -- The colon is no `;`, so the type begins before the `;`.
    have hle : start' + 1 ≤ semi := by
      have hne : semi ≠ start' := by
        rintro rfl
        rcases hsign with hend | ⟨rest'', hrest''⟩
        · have hsize := hrest'.size_eq
          have hpos := Text.size_pos (List.cons_ne_nil ':' rest')
          omega
        · cases hrest'.eq hrest''
      have hle := hfirst.1
      omega
    obtain ⟨x, rest'', hcut, -⟩ := cut_ok (hrest'.next (by decide)).isCut hfirst.2 hle
    simp only [hchar, if_pos, hcut, hdirectives]
    exact ⟨_, _, rfl, hk, hrounds, honward⟩
  · simp only [hchar, hdirectives]
    exact ⟨_, _, rfl, hk, hrounds, honward⟩

/-! ## Bodies -/

/-- The body **closes** at an `end` among some words, and began before them or at one of them. -/
def Closes (begun : Option Nat) (ws : List BlockWord) (b : Body) : Prop :=
  ∃ closing ∈ ws, closing.isEnd = true ∧ b.stop = closing.start ∧ b.after = closing.stop ∧
    (begun = some b.start ∨ ∃ opening, opening.opensBody = true ∧ b.start = opening.stop
      ∧ List.Sublist [opening, closing] ws)

/-- What closes a body among some words closes it among more. -/
theorem Closes.cons {begun : Option Nat} {ws : List BlockWord} {b : Body} (h : Closes begun ws b)
    (w : BlockWord) :
    Closes begun (w :: ws) b := by
  obtain ⟨closing, hmem, hend, hstop, hafter, hbegun⟩ := h
  refine ⟨closing, List.mem_cons_of_mem _ hmem, hend, hstop, hafter, hbegun.imp_right ?_⟩
  rintro ⟨opening, hopens, hstart, hsublist⟩
  exact ⟨opening, hopens, hstart, hsublist.cons w⟩

/-- The body may begin with the first of the words. -/
theorem Closes.cons_opening {begun : Option Nat} {ws : List BlockWord} {b : Body} {w : BlockWord}
    (hw : w.opensBody = true) (h : Closes (some w.stop) ws b) : Closes begun (w :: ws) b := by
  obtain ⟨closing, hmem, hend, hstop, hafter, hbegun⟩ := h
  refine ⟨closing, List.mem_cons_of_mem _ hmem, hend, hstop, hafter, .inr ?_⟩
  rcases hbegun with hstart | ⟨opening, hopens, hstart, hsublist⟩
  · exact ⟨w, hw, (Option.some.inj hstart).symm,
      List.Sublist.cons_cons _ (List.singleton_sublist.2 hmem)⟩
  · exact ⟨opening, hopens, hstart, hsublist.cons w⟩

/-- **The search for a body** has no fault, and what it finds stands between two of the words. -/
theorem bodyAmong_ok {ws : List BlockWord} (h : ∀ w ∈ ws, w.StandsIn t) (opened : List Open)
    (nested : Nat) (begun : Option Nat) :
    ∃ r, bodyAmong t opened nested begun ws = .ok r ∧ ∀ b ∈ r, Closes begun ws b := by
  induction ws generalizing opened nested begun with
  | nil => exact ⟨none, rfl, by simp⟩
  | cons w ws ih =>
    have hothers := ih fun v hv => h v (List.mem_cons_of_mem _ hv)
    -- What is found behind this word is found among all of them. Most words change only what is
    -- open, and this is enough.
    have hnext : ∀ opened nested, ∃ r, bodyAmong t opened nested begun ws = .ok r
        ∧ ∀ b ∈ r, Closes begun (w :: ws) b := by
      intro opened nested
      obtain ⟨r, hr, hcloses⟩ := hothers opened nested begun
      exact ⟨r, hr, fun b hb => (hcloses b hb).cons w⟩
    obtain ⟨rest, hrest⟩ := (h w (List.mem_cons_self ..)).remains
    obtain ⟨position, hposition⟩ := inTypePosition_ok hrest
    unfold bodyAmong
    split
    · split
      · simp only [hposition, bind, Except.bind]
        split
        · exact hnext _ _
        · exact hnext _ _
      · exact hnext _ _
    split
    · exact hnext _ _
    split
    next hopens =>
      dsimp only
      split
      · -- The body begins with this word.
        obtain ⟨r, hr, hcloses⟩ := hothers (.block :: opened) nested (some w.stop)
        exact ⟨r, hr, fun b hb => (hcloses b hb).cons_opening hopens⟩
      · exact hnext _ _
    split
    · split
      · exact hnext _ _
      · exact hnext _ _
    split
    · exact hnext _ _
    split
    next hend =>
      split
      · exact ⟨none, rfl, by simp⟩
      · split
        · -- The body ends with this word.
          refine ⟨_, rfl, ?_⟩
          rintro _ ⟨⟩
          exact ⟨w, List.mem_cons_self .., hend, rfl, rfl, .inl rfl⟩
        · exact hnext _ _
      · exact hnext _ _
    · exact hnext _ _

/-- A word of the mask that has no blank in it stands **between two cuts of the source**. -/
theorem BlockWord.StandsIn.isCut_source {src : Text} {w : BlockWord}
    (h : w.StandsIn (Mask.mask src)) (hne : w.word ≠ []) (hblank : ' ' ∉ w.word) :
    IsCut src w.start ∧ IsCut src w.stop ∧ w.start < w.stop := by
  obtain ⟨front, x, rest, hmask, hx, hstart, hstop⟩ := h
  have haligned := Mask.aligned_mask src
  have hxblank : ∀ c ∈ x, (c != ' ') = true := by
    intro c hc
    rw [bne_iff_ne]
    rintro rfl
    exact hblank (hx ▸ List.mem_map_of_mem hc)
  have hxne : x ≠ [] := by
    rintro rfl
    exact hne hx.symm
  obtain ⟨c, cs, hhead⟩ := List.exists_cons_of_ne_nil hxne
  obtain ⟨ds, d, hlast⟩ := (List.eq_nil_or_concat x).resolve_left hxne
  have hpos := Text.size_pos hxne
  rw [hmask] at haligned
  refine ⟨hstart ▸ haligned.isCut (.inr ?_),
    hstop ▸ Mask.Aligned.isCut (by rwa [List.append_assoc]) (.inl ?_), ?_⟩
  · rw [hhead, List.cons_append, List.head?_cons]
    exact hxblank c (by simp [hhead])
  · rw [hlast, List.concat_eq_append, ← List.append_assoc, List.getLast?_concat]
    exact hxblank d (by simp [hlast])
  · rw [Text.size_append] at hstop
    omega

/-- The body of a routine in the mask of a source: behind the heading, and **where the
source can be cut** too. -/
structure Body.Sound (src : Text) (n : Nat) (b : Body) : Prop where
  le_start : n ≤ b.start
  start_le : b.start ≤ b.stop
  stop_lt : b.stop < b.after
  isCut_start : IsCut src b.start
  isCut_stop : IsCut src b.stop
  isCut_after : IsCut (Mask.mask src) b.after

/-- **The body of a routine** is found without a fault, and can be cut from the source. -/
theorem body?_ok {src : Text} (h : IsCut (Mask.mask src) n) :
    ∃ r, body? (Mask.mask src) n = .ok r ∧ ∀ b ∈ r, b.Sound src n := by
  obtain ⟨ws, hws⟩ := blockWords_ok h
  obtain ⟨hstands, hordered⟩ := standsIn_of_blockWords hws
  obtain ⟨r, hr, hcloses⟩ := bodyAmong_ok (fun w hw => (hstands w hw).2) [] 0 none
  refine ⟨r, ?_, fun b hb => ?_⟩
  · rw [body?, hws]
    exact hr
  obtain ⟨closing, hclosing, hend, hstop, hafter, hbegun⟩ := hcloses b hb
  -- Nothing was begun before the words, so the word that opens the body is one of them.
  rcases hbegun with hbegun | ⟨opening, hopens, hstart, hsublist⟩
  · cases hbegun
  obtain ⟨hle, hopening⟩ := hstands opening (hsublist.subset (by simp))
  obtain ⟨-, hclosingStands⟩ := hstands closing hclosing
  have hbehind : opening.stop ≤ closing.start := by
    have hpair := hordered.sublist hsublist
    exact (List.pairwise_cons.1 hpair).1 closing (by simp)
  have hword : opening.word = "begin".toList ∨ opening.word = "asm".toList := by
    simpa [BlockWord.opensBody] using hopens
  have hendWord : closing.word = "end".toList := by simpa [BlockWord.isEnd] using hend
  obtain ⟨-, hcut, hlt⟩ := hopening.isCut_source (by rcases hword with h | h <;> rw [h] <;> decide)
    (by rcases hword with h | h <;> rw [h] <;> decide)
  obtain ⟨hcut', -, hlt'⟩ := hclosingStands.isCut_source (by rw [hendWord]; decide)
    (by rw [hendWord]; decide)
  constructor
  · omega
  · omega
  · omega
  · rwa [hstart]
  · rwa [hstop]
  · rw [hafter]
    exact hclosingStands.isCut.2.2

/-! ## Routines -/

/-- A routine as it is found: where its heading begins and ends, its body, where it ends, and
what is told of it. -/
structure Finding where
  start : Nat
  headingStop : Nat
  body : Option Body
  stop : Nat
  owner : Option Text
  routine : Routine

/-- The offset at which to go on. -/
def Finding.next (f : Finding) : Nat :=
  (f.body.map Body.after).getD f.headingStop

/-- **What is told of a routine** comes from where it was found: the directives of its heading
come to an end, its extent goes from its heading to its end, and its body is the part of the
source that was found. -/
structure Scope.Reads (s : Scope) (m : Match) (f : Finding) : Prop where
  routine_eq : s.routine m = .ok (f.owner, f.routine, f.next)
  start_eq : f.start = m.start
  stop_le : m.stop ≤ f.headingStop
  heading : ∃ rest k, headingRest s.masked m.stop = .ok rest
    ∧ Directives s.masked false k rest.bodiless rest.stop
    ∧ f.headingStop = rest.stop
  extent : f.routine.extent = s.lines.extent f.start f.stop
  hasBody : f.routine.hasBody = f.body.isSome
  body : ∀ b ∈ f.body, ∃ text, Text.slice? s.source b.start b.stop = some text
    ∧ f.routine.body = Text.trim text

/-- A finding **in its place**: heading, body and end follow one another. -/
structure Finding.Sound (src : Text) (f : Finding) : Prop where
  start_lt : f.start < f.headingStop
  headingStop_le : f.headingStop ≤ f.stop
  body : ∀ b ∈ f.body, b.Sound src f.headingStop ∧ b.after ≤ f.stop
  /-- The scanner goes on at the end of the routine, or before a `;` that belongs to it. -/
  next : ∃ x rest, (Mask.mask src).Remains f.next (x ++ rest) ∧ f.stop = f.next + size x
    ∧ ∀ c ∈ x, Text.isWordChar c = false

/-- The search goes on behind the heading. -/
theorem Finding.Sound.headingStop_le_next {src : Text} {f : Finding} (h : f.Sound src) :
    f.headingStop ≤ f.next := by
  rw [Finding.next]
  cases hbody : f.body with
  | none => exact Nat.le_refl _
  | some b =>
    have hb := (h.body b hbody).1
    have hle := hb.le_start
    have hle' := hb.start_le
    have hlt := hb.stop_lt
    show f.headingStop ≤ b.after
    omega

section Reading

variable {s : Scope} {found : Match} {rest : HeadingRest}

/-- What the heading of a routine tells of it. -/
def headingOf (found : Match) (rest : HeadingRest) : Routine :=
  Routine.heading (splitOwner (found.groupText 2)).2
    ((RoutineKind.ofWord? (found.groupText 1)).getD .procedure)
    rest.params rest.returnType

/-- A heading without a body gives a routine without one. -/
theorem Scope.routine_of_none (hrest : headingRest s.masked found.stop = .ok rest)
    (hbody : (rest.bodiless || decide (found.start < s.split)) = true
      ∨ body? s.masked rest.stop = .ok none) :
    s.routine found = .ok ((splitOwner (found.groupText 2)).1,
      (headingOf found rest).withExtent (s.lines.extent found.start rest.stop),
        max found.stop rest.stop) := by
  simp only [routine, hrest, bind, Except.bind]
  split
  · rfl
  · next hskip => rw [hbody.resolve_left hskip]; rfl

/-- A heading with a body gives a routine with **the text of the source**. -/
theorem Scope.routine_of_body {b : Body} {stop : Nat} {text : Text}
    (hrest : headingRest s.masked found.stop = .ok rest)
    (hskip : ¬ (rest.bodiless || decide (found.start < s.split)) = true)
    (hbody : body? s.masked rest.stop = .ok (some b))
    (hstop : afterSemi s.masked b.after = .ok stop)
    (htext : cut s.source b.start b.stop = .ok text) :
    s.routine found = .ok ((splitOwner (found.groupText 2)).1,
      ((headingOf found rest).withBody text []).withExtent (s.lines.extent found.start stop),
        b.after) := by
  simp only [routine, hrest, bind, Except.bind, if_neg hskip, hbody, hstop, htext]
  rfl

/-- **A routine is read without a fault.** -/
theorem Scope.exists_reads (hs : s.masked = Mask.mask s.source)
    (h : s.masked.Onward found.start found.stop) (hlt : found.start < found.stop) :
    ∃ f, s.Reads found f ∧ f.Sound s.source := by
  obtain ⟨rest, k, hrest, hk, hdirectives, honward⟩ := headingRest_ok h.2
  have hheading : found.stop ≤ rest.stop := Nat.le_trans hk.1 honward.1
  have hcut := honward.2
  rw [hs] at hcut
  obtain ⟨r, hr, hsound⟩ := body?_ok hcut
  -- Without a body the routine ends with its heading, whether none is looked for or none is found.
  have hbodiless
      (hbody : (rest.bodiless || decide (found.start < s.split)) = true
        ∨ body? s.masked rest.stop = .ok none) :
      ∃ f, s.Reads found f ∧ f.Sound s.source := by
    have hroutine := routine_of_none hrest hbody
    rw [Nat.max_eq_right hheading] at hroutine
    obtain ⟨behind, hbehind⟩ := hcut.remains
    exact ⟨⟨found.start, rest.stop, none, rest.stop, _, _⟩,
      ⟨hroutine, rfl, hheading, ⟨rest, k, hrest, hdirectives, rfl⟩, rfl, rfl, by simp⟩,
      ⟨Nat.lt_of_lt_of_le hlt hheading, Nat.le_refl _, by simp, [], behind, hbehind, rfl, by simp⟩⟩
  by_cases hskip : (rest.bodiless || decide (found.start < s.split)) = true
  · exact hbodiless (.inl hskip)
  cases r with
  | none => exact hbodiless (.inr (hs ▸ hr))
  | some b =>
    have hb := hsound b rfl
    obtain ⟨x, behind, hsemi, hremains, hquiet⟩ := afterSemi_ok hb.isCut_after
    obtain ⟨text, behind', htext, hremains', hsize⟩ :=
      cut_ok hb.isCut_start hb.isCut_stop hb.start_le
    have hroutine := routine_of_body hrest hskip (hs ▸ hr) (hs ▸ hsemi) htext
    refine ⟨⟨found.start, rest.stop, some b, b.after + size x, _, _⟩,
      ⟨hroutine, rfl, hheading, ⟨rest, k, hrest, hdirectives, rfl⟩, rfl, rfl, ?_⟩,
      ⟨Nat.lt_of_lt_of_le hlt hheading, ?_, ?_, ?_⟩⟩
    · rintro _ ⟨⟩
      refine ⟨text, ?_, rfl⟩
      rw [hsize]
      exact hremains'.slice?_eq
    · have hle := hb.le_start
      have hle' := hb.start_le
      have hlt' := hb.stop_lt
      show rest.stop ≤ b.after + size x
      omega
    · rintro _ ⟨⟩
      exact ⟨hb, Nat.le_add_right _ _⟩
    · exact ⟨x, behind, hremains, rfl, hquiet⟩

end Reading

/-! ## The search for routines -/

/-- **The search for routines** from an offset on, without a bound on their number. -/
inductive Scope.Finds (s : Scope) : Nat → List Finding → Prop
  | done {start : Nat} {cursor : Cursor} (hcursor : Cursor.at? s.masked start = some cursor)
      (hnone : headingStart.search? cursor = none) : s.Finds start []
  | passed {start : Nat} {cursor : Cursor} {m : Match} {found : List Finding}
      (hcursor : Cursor.at? s.masked start = some cursor)
      (hsome : headingStart.search? cursor = some m)
      (hpasses : s.passesOver m = .ok true) (others : s.Finds m.stop found) : s.Finds start found
  | found {start : Nat} {cursor : Cursor} {m : Match} {f : Finding} {found : List Finding}
      (hcursor : Cursor.at? s.masked start = some cursor)
      (hsome : headingStart.search? cursor = some m)
      (hpasses : s.passesOver m = .ok false) (hreads : s.Reads m f)
      (others : s.Finds f.next found) :
    s.Finds start (f :: found)

/-- A heading that is found: it can be read from, it is not empty, and it begins with a word. -/
theorem heading_of_search? {front rest : Text} {m : Match}
    (h : headingStart.search? (Cursor.between 0 front rest) = some m) :
    size front ≤ m.start ∧ (front ++ rest).Onward m.start m.stop ∧ m.start < m.stop
      ∧ ∃ c cs, (front ++ rest).Remains m.start (c :: cs) ∧ Text.isWordChar c = true := by
  have hle := (Pattern.occurs_of_search? h).le_start
  obtain ⟨s, x, back, caps, rfl, hfits, rfl, -⟩ := Pattern.occurs_of_search? h
  have hx : x ≠ [] := hfits.ne_nil rfl
  have hpos := Text.size_pos hx
  have hremains : (front ++ (s ++ (x ++ back))).Remains (size (front ++ s)) (x ++ back) :=
    ⟨front ++ s, (List.append_assoc _ _ _).symm, rfl⟩
  have hstart : (Pattern.matchOf 0 (front ++ s) x back caps).start
      = size (front ++ s) := Nat.zero_add _
  have hstop : (Pattern.matchOf 0 (front ++ s) x back caps).stop = size (front ++ s) + size x := by
    show 0 + size (front ++ s ++ x) = _
    rw [Nat.zero_add, Text.size_append (front ++ s)]
  rw [Nat.zero_add] at hle
  refine ⟨hle, ?_, ?_, ?_⟩
  · rw [hstart, hstop]
    exact hremains.onward
  · omega
  · -- A heading opens with one of a few words, and these have only characters of words.
    obtain ⟨-, w, hw, y, z, hyz, hspells, -⟩ := Blueprint.opensWith_headingStart _ _ _ hfits
    have hwords := Blueprint.areWords_headingStart
    obtain ⟨c, cs, rfl⟩ := List.exists_cons_of_ne_nil
      (hspells.ne_nil (Pattern.areWords.ne_nil hwords hw))
    refine ⟨c, cs ++ z, ?_, hspells.isWordChar (Pattern.areWords.isLower hwords hw) c (by simp)⟩
    rw [hstart, hyz]
    rw [hyz] at hremains
    exact hremains

/-- Whether a heading is passed over is decided without a fault. -/
theorem Scope.passesOver_ok (s : Scope) {m : Match} {rest : Text}
    (h : s.masked.Remains m.start rest) :
    ∃ b, s.passesOver m = .ok b := by
  rw [passesOver]
  split
  · exact ⟨true, rfl⟩
  · exact inTypePosition_ok h

/-- What has no word in it ends before a word begins. -/
theorem le_of_quiet {x rest cs : Text} {c : Char} {k : Nat} (h : t.Remains n (x ++ rest))
    (hquiet : ∀ d ∈ x, Text.isWordChar d = false) (hword : t.Remains k (c :: cs))
    (hc : Text.isWordChar c = true) (hle : n ≤ k) : n + size x ≤ k := by
  obtain ⟨front, rfl, rfl⟩ := h
  obtain ⟨front', htext, rfl⟩ := hword
  rw [← List.append_assoc] at htext
  rcases List.append_eq_append_iff.1 htext with ⟨y, rfl, -⟩ | ⟨y, hfront, hy⟩
  · rw [Text.size_append (front ++ x), Text.size_append]
    omega
  · cases y with
    | nil =>
      rw [List.append_nil] at hfront
      have hsize := congrArg Text.size hfront
      rw [Text.size_append] at hsize
      omega
    | cons d y =>
      obtain ⟨rfl, -⟩ := List.cons.inj hy
      -- The word would begin inside of `x`.
      rcases List.append_eq_append_iff.1 hfront with ⟨z, rfl, hx⟩ | ⟨z, rfl, hz⟩
      · have hquiet' := hquiet c (by simp [hx])
        rw [hc] at hquiet'
        cases hquiet'
      · cases z with
        | nil =>
          rw [List.nil_append] at hz
          have hquiet' := hquiet c (by simp [← hz])
          rw [hc] at hquiet'
          cases hquiet'
        | cons e z =>
          rw [Text.size_append] at hle
          have hpos := Text.size_pos (List.cons_ne_nil e z)
          omega

/-- The findings of a search: in their places, one behind the other, and behind an offset. -/
structure Sequence (src : Text) (start : Nat) (found : List Finding) : Prop where
  sound : ∀ f ∈ found, f.Sound src
  behind : ∀ f ∈ found, start ≤ f.start
  opens : ∀ f ∈ found, ∃ c cs, (Mask.mask src).Remains f.start (c :: cs) ∧ Text.isWordChar c = true
  ordered : found.Pairwise fun f g => f.stop ≤ g.start

theorem Sequence.nil (src : Text) (start : Nat) : Sequence src start [] :=
  ⟨by simp, by simp, by simp, .nil⟩

/-- What lies behind an offset lies behind an earlier one. -/
theorem Sequence.mono {src : Text} {found : List Finding} (h : Sequence src n found) (hle : m ≤ n) :
    Sequence src m found :=
  ⟨h.sound, fun f hf => Nat.le_trans hle (h.behind f hf), h.opens, h.ordered⟩

/-- A routine in front of others does **not overlap** them: no word begins before its `;`. -/
theorem Sequence.cons {src : Text} {found : List Finding} {f : Finding}
    (h : Sequence src f.next found) (hf : f.Sound src)
    (hopens : ∃ c cs, (Mask.mask src).Remains f.start (c :: cs) ∧ Text.isWordChar c = true) :
    Sequence src f.start (f :: found) := by
  have hnext := hf.headingStop_le_next
  have hlt := hf.start_lt
  constructor
  · intro g hg
    rcases List.mem_cons.1 hg with rfl | hg
    · exact hf
    · exact h.sound g hg
  · intro g hg
    rcases List.mem_cons.1 hg with rfl | hg
    · exact Nat.le_refl _
    · have hbehind := h.behind g hg
      omega
  · intro g hg
    rcases List.mem_cons.1 hg with rfl | hg
    · exact hopens
    · exact h.opens g hg
  · refine List.pairwise_cons.2 ⟨fun g hg => ?_, h.ordered⟩
    -- From `next` to the end of the routine there is no word, so the next heading begins behind it.
    obtain ⟨x, rest, hremains, hstop, hquiet⟩ := hf.next
    obtain ⟨c, cs, hword, hc⟩ := h.opens g hg
    rw [hstop]
    exact le_of_quiet hremains hquiet hword hc (h.behind g hg)

/-- **The search for routines comes to an end without a fault.** Every round consumes a character,
so a bound above the number of characters is never met. -/
theorem Scope.routines_ok {s : Scope} (hs : s.masked = Mask.mask s.source) {start : Nat}
    {rest : Text} (h : s.masked.Remains start rest) {k : Nat} (hk : rest.length < k)
    (u : SourceUnit) :
    ∃ found, s.Finds start found ∧ Sequence s.source start found
      ∧ s.routines k start u = .ok (u.attachAll (found.map fun f => (f.owner, f.routine))) := by
  induction k generalizing start rest u with
  | zero => exact absurd hk (Nat.not_lt_zero _)
  | succ k ih =>
    obtain ⟨front, hfront, rfl⟩ := h
    have hcursor : Cursor.at? s.masked (size front) = some (.between 0 front rest) := by
      rw [hfront]
      exact Cursor.at?_append front rest
    simp only [routines, hcursor, bind, Except.bind]
    cases hsearch : headingStart.search? (.between 0 front rest) with
    | none => exact ⟨[], .done hcursor hsearch, .nil _ _, rfl⟩
    | some m =>
      obtain ⟨hle, honward, hlt, c, cs, hopens, hc⟩ := heading_of_search? hsearch
      rw [← hfront] at honward hopens
      -- Behind the heading less is left than before it, so the bound still suffices.
      have hshorter {n : Nat} (hn : m.stop ≤ n) (hcut : IsCut s.masked n) :
          ∃ rest', s.masked.Remains n rest' ∧ rest'.length < k := by
        obtain ⟨rest', hrest'⟩ := hcut.remains
        have hlength := Remains.length_lt ⟨front, hfront, rfl⟩ hrest' (by omega)
        exact ⟨rest', hrest', by omega⟩
      obtain ⟨passes, hpasses⟩ := s.passesOver_ok hopens
      simp only [hpasses]
      cases passes with
      | true =>
        obtain ⟨rest', hrest', hlength⟩ := hshorter (Nat.le_refl _) honward.2
        obtain ⟨found, hfinds, hsequence, hroutines⟩ := ih hrest' hlength u
        exact ⟨found, .passed hcursor hsearch hpasses hfinds, hsequence.mono (by omega), hroutines⟩
      | false =>
        obtain ⟨f, hreads, hsound⟩ := exists_reads hs honward hlt
        obtain ⟨x, behind, hnext, -⟩ := hsound.next
        have hstop : m.stop ≤ f.next := Nat.le_trans hreads.stop_le hsound.headingStop_le_next
        rw [← hs] at hnext
        obtain ⟨rest', hrest', hlength⟩ := hshorter hstop hnext.isCut
        obtain ⟨found, hfinds, hsequence, hroutines⟩ :=
          ih hrest' hlength (u.attach f.owner f.routine)
        rw [hs, ← hreads.start_eq] at hopens
        refine ⟨f :: found, .found hcursor hsearch hpasses hreads hfinds,
          (hsequence.cons hsound ⟨c, cs, hopens, hc⟩).mono (by rw [hreads.start_eq]; exact hle), ?_⟩
        simp only [hreads.routine_eq]
        exact hroutines

/-- Every routine that is found has been read at a heading. -/
theorem Scope.Finds.reads {s : Scope} {start : Nat} {found : List Finding}
    (h : s.Finds start found) :
    ∀ f ∈ found, ∃ m, s.Reads m f := by
  induction h with
  | done => simp
  | passed _ _ _ _ ih => exact ih
  | @found _ _ m _ _ _ _ _ hreads _ ih =>
    intro f hf
    rcases List.mem_cons.1 hf with rfl | hf
    · exact ⟨m, hreads⟩
    · exact ih f hf

/-! ## The unit of a text -/

/-- What the search for the routines of a source needs to know. -/
def Scope.ofSource (src : Text) (classes : List (ClassDecl × Nat × Nat)) : Scope where
  source := src
  masked := Mask.mask src
  lines := .ofText src
  covered := classes.map (·.2)
  split := ((implementationWord.find? (Mask.mask src)).map Match.start).getD 0

/-- The unit of a source before its routines have come to it. -/
def unitOf (src fallback : Text) (classes : List (ClassDecl × Nat × Nat)) : SourceUnit where
  name := ((unitHeader.find? (Mask.mask src)).map (·.groupText 1)).getD fallback
  uses := (usesClause.matchesIn 0 (Mask.mask src)).flatMap fun m => usedUnits (m.groupText 1)
  classes := classes.map (·.1)

/-- The matches of a pattern in a whole text can be read from, and are one behind the other. -/
theorem isRead_of_matchesIn (p : Pattern) (t : Text) :
    (∀ m ∈ p.matchesIn 0 t, IsRead t m) ∧ (p.matchesIn 0 t).Pairwise fun m m' =>
      m.stop ≤ m'.start := by
  obtain ⟨hoccurs, hordered⟩ := @Pattern.matchesFrom_occurs p 0 [] t t.length
  refine ⟨fun m hm => ?_, hordered⟩
  obtain ⟨s, x, rest, caps, rfl, -, rfl, hcaps⟩ := hoccurs m hm
  refine ⟨?_, hcaps⟩
  have hremains : Remains (s ++ (x ++ rest)) (0 + size s) (x ++ rest) :=
    ⟨s, rfl, (Nat.zero_add _).symm⟩
  have hstop : 0 + size (s ++ x) = 0 + size s + size x := by rw [Text.size_append, Nat.add_assoc]
  show Onward _ (0 + size s) (0 + size (s ++ x))
  rw [hstop]
  exact hremains.onward

/-- A pattern that needs a character has as many matches in a text as any larger bound allows. -/
theorem matchesIn_eq {p : Pattern} (hp : p.needsChar = true) (o : Nat) {t : Text} {n : Nat}
    (hn : t.length ≤ n) :
    p.matchesFrom n ⟨none, o, t⟩ = p.matchesIn o t :=
  @Pattern.matchesFrom_eq o [] p (Pattern.advances_of_needsChar hp) t n hn

/-! ## Cuts of parts of a text -/

/-- The name in front of `in` is cut from the entry where it ends in the entry in small letters. -/
theorem slice?_usedUnit {entry front back : Text}
    (h : Text.cut? " in ".toList (Text.lower entry) = some (front, back)) :
    Text.slice? entry 0 (size front) = some (entry.take front.length) := by
  have hfront : Text.lower (entry.take front.length) = front := by
    rw [Text.lower, List.map_take, ← Text.lower, ← Token.cut?_eq_some h,
      List.append_assoc, List.take_left]
  have hsize : size front = size (entry.take front.length) := by
    rw [← Text.size_lower (entry.take front.length), hfront]
  have hremains : entry.Remains 0 (entry.take front.length ++ entry.drop front.length) :=
    ⟨[], (List.take_append_drop _ _).symm, rfl⟩
  have hslice := hremains.slice?_eq
  rwa [Nat.zero_add, ← hsize] at hslice

/-- Behind a match the rest of the text begins. -/
theorem drop?_match {p : Pattern} {u : Text} {found : Match} (h : p.find? u = some found) :
    Text.drop? found.stop u = some found.after.rest := by
  obtain ⟨s, x, rest, caps, rfl, -, rfl, -⟩ := @Pattern.occurs_of_search? p 0 [] u found h
  have hstop : 0 + size ([] ++ s ++ x) = size (s ++ x) := Nat.zero_add _
  show Text.drop? (0 + size ([] ++ s ++ x)) _ = some rest
  rw [hstop, ← List.append_assoc]
  exact Text.drop?_append _ _

theorem drop?_leadingWord (u : Text) :
    Text.drop? (size (leadingWord u)) u = some (u.drop (leadingWord u).length) := by
  have hall : u = leadingWord u ++ u.dropWhile Text.isIdentChar :=
    List.takeWhile_append_dropWhile.symm
  have hdrop : u.drop (leadingWord u).length = u.dropWhile Text.isIdentChar := by
    have hparts := congrArg (List.drop (leadingWord u).length) hall
    rwa [List.drop_left] at hparts
  have hremains : u.Remains (size (leadingWord u)) (u.dropWhile Text.isIdentChar) :=
    ⟨leadingWord u, hall, rfl⟩
  rw [hdrop, hremains.drop?_eq]

end Scanner

namespace SourceUnit

open Scanner

/-- **The scanner is total.** Every text has a unit, whatever is unbalanced, unclosed or cut off in
it: no cut of the source or of its mask is out of order, out of bounds or through a character, and
neither is a cut of an entry of a `uses` clause or of a member of a class. All its loops end of
themselves: the search for routines and the directives of their headings by going on in the text,
and the matches of a pattern before a bound on their number is met.

The routines come to the unit in the order of the source. Each has its heading, then its body, which
is a part of the source, and ends before the next one begins; the stretches that classes cover are
one behind the other too. -/
theorem ofText_total (src fallback : Text) :
    ∃ classes found,
      Scanner.classes (Mask.mask src) (.ofText src) (classHeader.matchesIn 0 (Mask.mask src)) []
        = .ok classes
      ∧ (Scope.ofSource src classes).Finds 0 found
      ∧ ofText src fallback = .ok ((unitOf src fallback classes).attachAll
        (found.map fun f => (f.owner, f.routine)))
      ∧ InRow classes
      ∧ (∀ f ∈ found, f.Sound src ∧ ∃ m, (Scope.ofSource src classes).Reads m f)
      ∧ found.Pairwise (fun f g => f.stop ≤ g.start)
      ∧ (∀ p ∈ [usesClause, classHeader, blockWord], ∀ o t n, t.length ≤ n →
          p.matchesFrom n ⟨none, o, t⟩ = p.matchesIn o t)
      ∧ (∀ entry front back, Text.cut? " in ".toList (Text.lower entry) = some (front, back) →
          Text.slice? entry 0 (Text.size front) = some (entry.take front.length))
      ∧ (∀ t m, visibility.find? t = some m → Text.drop? m.stop t = some m.after.rest)
      ∧ (∀ t, Text.drop? (Text.size (leadingWord t)) t = some (t.drop (leadingWord t).length)) := by
  obtain ⟨hread, hordered⟩ := isRead_of_matchesIn classHeader (Mask.mask src)
  obtain ⟨classes, hclasses, hstretches⟩ :=
    classes_ok (.ofText src) hread hordered ⟨by simp, .nil⟩ (by simp)
  have hstart : (Mask.mask src).Remains 0 (Mask.mask src) := ⟨[], rfl, rfl⟩
  obtain ⟨found, hfinds, hsequence, hroutines⟩ :=
    Scope.routines_ok (s := .ofSource src classes) rfl hstart
    (Nat.lt_succ_self _) (unitOf src fallback classes)
  refine ⟨classes, found, hclasses, hfinds, ?_, hstretches,
    fun f hf => ⟨hsequence.sound f hf, hfinds.reads f hf⟩, hsequence.ordered, ?_,
    fun _ _ _ h => slice?_usedUnit h, fun _ _ h => drop?_match h, drop?_leadingWord⟩
  · simp only [ofText, hclasses, bind, Except.bind]
    exact hroutines
  · intro p hp o t n hn
    refine matchesIn_eq ?_ o hn
    simp only [List.mem_cons, List.not_mem_nil, or_false] at hp
    obtain rfl | rfl | rfl := hp <;> rfl

end SourceUnit

end PascalAtlas
