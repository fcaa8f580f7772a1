import PascalAtlas.Proofs.BlockWords
import PascalAtlas.Proofs.ScannedMember

/-!
# Routines in the masked text

A routine is found by its heading. The scanner reads what belongs to the heading
(`Blueprint.Routine.headingRest_eq`); in the implementation part it then looks for the body and cuts
it from the source text, not from the masked one (`Blueprint.Routine.FoundAt.implemented`).

The search for routines goes from heading to heading, so what it finds is put together from the
back: `Blueprint.Finds` says what is found from a place on. Text in which no heading begins is
skipped (`Finds.skip`), the headings inside a class are passed over (`Finds.covered`), and a heading
elsewhere adds its routine (`Finds.cons`).
-/

namespace PascalAtlas

open Cursor (between)

namespace Text

/-- Squeezing takes a space away from before a text without blanks. -/
theorem squeeze_space {t : Text} (h : ∀ c ∈ t, isBlank c = false) : squeeze (' ' :: t) = t := by
  rw [squeeze, words, splitBy, if_pos (by decide), splitBy_eq_self h]
  cases t <;> rfl

end Text

namespace Blueprint

open Pattern
open Text (size)

variable {masked rest rest' : Text} {n : Nat}

/-! ## Headings -/

theorem areWords_headingStart : areWords ("class" :: Scanner.routineWords) = true := by decide

/-- A heading opens with a word of routines, or with `class`. -/
theorem opensWith_headingStart : Scanner.headingStart.OpensWith ("class" :: Scanner.routineWords) :=
  (leadsWith_classGap.optional
      ((spelled_words.group 1).leadsWith breaks_gap.seq (by decide))).opens_boundary
    areWords_headingStart

/-- The beginning of a heading: the word that opens it and the name. -/
def Routine.headingFront (owner : Option PlainName) (r : Routine) : Text :=
  r.form.kind.word.toList ++ ' ' :: (r.fullName owner).text

/-- The rest of a heading: parameters, result and semicolon. -/
def Routine.headingBack (r : Routine) : Text :=
  '(' :: (r.renderParams ++ ')' :: (r.form.renderResult ++ [';']))

/-- A heading is what the pattern takes, and what is read behind it. -/
theorem Routine.renderHeading_parts (owner : Option PlainName) (r : Routine) :
    r.renderHeading owner = r.headingFront owner ++ r.headingBack := by
  rw [r.renderHeading_eq, headingText, headingFront, headingBack]
  simp

/-- **The heading of a routine** is found with its word and its name. -/
theorem Routine.takes_heading (owner : Option PlainName) (r : Routine) {o : Nat} {front : Text}
    (hfront : front.getLast?.any Text.isWordChar = false)
    (hrest : rest.head?.any isDotted = false) :
    ∃ name word, name.text = (r.fullName owner).text ∧ word.text = r.form.kind.word.toList
      ∧ Scanner.headingStart.Takes o front (r.headingFront owner) rest []
        [(2, name), (1, word)] := by
  have hhead : (r.headingFront owner ++ rest).head?.any Text.isWordChar = true := by
    rw [headingFront]
    generalize r.form.kind = kind
    cases kind <;> rfl
  have hstart : Pattern.boundary.Takes o front [] (r.headingFront owner ++ rest) [] [] :=
    takes_boundary (by rw [hfront, hhead]; simp)
  exact ⟨_, _, rfl, rfl, hstart.after_nil (r.form.takes_word ((takes_dottedName _ hrest).group 2)
    ((r.fullName owner).head_not_blank _))⟩

/-- The class is what stands before the last dot of the name. -/
theorem splitOwner_fullName (owner : Option PlainName) (r : Routine) :
    Scanner.splitOwner (r.fullName owner).text = (owner.map PlainName.text, r.name.text) := by
  have hplain : ∀ c ∈ r.name.text.reverse, (c == '.') = false := fun c hc => by
    simpa using r.name.ne_of_mem (List.mem_reverse.1 hc) (by decide)
  rw [r.text_fullName, Scanner.splitOwner, Text.cutAtLast?]
  cases owner with
  | none =>
    rw [Option.map_none, Option.getD_none, List.nil_append, Text.cutAt?_eq_none hplain]
    rfl
  | some c =>
    rw [Option.map_some, Option.getD_some, List.reverse_append, List.reverse_append,
      List.reverse_singleton, List.singleton_append, Text.cutAt?_append hplain rfl]
    simp

/-- A text that goes on with a word, which is not a directive. -/
def Undirected (t : Text) : Prop :=
  ∃ w r, t = ' ' :: (w ++ r) ∧ w ≠ [] ∧ (∀ c ∈ w, Text.isIdentChar c = true)
    ∧ r.head?.any Text.isIdentChar = false
    ∧ Text.isOneOf w Grammar.directives = false

/-- Where no directive follows, none is read. -/
theorem directives_eq (hrest : Undirected rest) (h : masked.Remains n rest) (k : Nat)
    (bodiless : Bool) :
    Scanner.directives masked k bodiless n = .ok (bodiless, n) := by
  obtain ⟨w, r, rfl, hne, hw, hr, hnot⟩ := hrest
  cases k with
  | zero => rfl
  | succ k =>
    have hblank : (w ++ r).head?.any Text.isBlank = false := by
      obtain ⟨c, cs, rfl⟩ := List.exists_cons_of_ne_nil hne
      exact Text.isBlank_of_isIdentChar (hw c (by simp))
    have hskip := Scanner.skipBlanks_eq (x := [' ']) h (by decide) hblank
    have hword := Scanner.wordAt_eq (h.next rfl) hw hr
    rw [Scanner.directives, hskip]
    show (if (Scanner.wordAt masked (n + 1)).isEmpty
        || !Text.isOneOf (Scanner.wordAt masked (n + 1)) Grammar.directives then
      _ else _) = _
    rw [hword, hnot, if_pos (by simp)]
    rfl

/-- The parameters are what is between the brackets. -/
theorem Routine.paramsAt_eq (r : Routine) {t : Text}
    (h : masked.Remains n ('(' :: (r.renderParams ++ ')' :: t)))
    (ht : t.head?.any Text.isBlank = false) :
    Scanner.paramsAt masked n = .ok (r.renderParams, n + 1 + size r.renderParams + 1) := by
  have hmatching := Scanner.matchingParen_eq h fun c hc =>
    ⟨fun hopen => r.of_renderParams.not_mem (by decide) (by decide) (hopen ▸ hc),
      fun hclose => r.of_renderParams.not_mem (by decide) (by decide) (hclose ▸ hc)⟩
  have hcut := Scanner.cut_eq (h.next rfl)
  have hskip := Scanner.skipBlanks_here ((h.next rfl).right.next rfl) ht
  simp only [Scanner.paramsAt, Scanner.charAt_eq h, List.head?_cons, beq_self_eq_true, if_true,
    hmatching, hcut, hskip, bind, Except.bind]
  rfl

/-- The result type behind the parameters, if a colon says that there is one. -/
theorem Routine.resultAt_eq (r : Routine) {p : Nat}
    (h : masked.Remains p (r.form.renderResult ++ ';' :: rest)) :
    (if (r.form.renderResult ++ ';' :: rest).head? == some ':' then
        (Text.squeeze <$> Scanner.cut masked (p + 1) (p + size r.form.renderResult))
      else pure []) = (.ok ((r.form.result?.map PlainName.text).getD []) : Except
          ScanFault Text) := by
  rw [RoutineForm.renderResult] at h ⊢
  cases hform : r.form.result? with
  | none => rfl
  | some result =>
    rw [hform] at h
    have hcolon : masked.Remains (p + 1) (' ' :: result.text ++ ';' :: rest) := h.next rfl
    have hcut := Scanner.cut_eq hcolon
    have hsize : p + size (": ".toList ++ result.text) = p + 1 + size (' ' :: result.text) := by
      show p + (1 + (1 + size result.text)) = p + 1 + (1 + size result.text)
      omega
    show (Text.squeeze <$> Scanner.cut masked (p + 1) (p + size (": ".toList ++ result.text))) = _
    rw [hsize, hcut]
    exact congrArg Except.ok (Text.squeeze_space result.not_blank)

/-- **What belongs to a heading** is read back. -/
theorem Routine.headingRest_eq (r : Routine) (h : masked.Remains n (r.headingBack ++ rest))
    (hrest : Undirected rest) :
    Scanner.headingRest masked n
      = .ok ⟨r.renderParams, (r.form.result?.map PlainName.text).getD [], false,
          n + size r.headingBack⟩ := by
  have htext : r.headingBack ++ rest
      = '(' :: (r.renderParams ++ ')' :: (r.form.renderResult ++ ';' :: rest)) := by
    rw [headingBack]
    simp
  have hhead : (r.form.renderResult ++ ';' :: rest).head?.any Text.isBlank = false := by
    rw [RoutineForm.renderResult]
    cases r.form.result? <;> rfl
  have hsemi : ';' ∉ r.form.renderResult := r.form.of_renderResult.not_mem (by decide) (by decide)
  rw [htext] at h
  have hresult := (h.next rfl).right.next rfl
  generalize hp : n + 1 + size r.renderParams + 1 = p at hresult
  have hparams := r.paramsAt_eq h hhead
  rw [hp] at hparams
  have hskip := Scanner.skipBlanks_here h rfl
  have hsemiFrom := Scanner.semiFrom_eq hresult hsemi
  have hdirected := directives_eq hrest (hresult.right.next rfl) masked.length false
  have hmin : min (p + size r.form.renderResult + 1) (size masked)
      = p + size r.form.renderResult + 1 := by
    have hsize := (hresult.right.next rfl).size_eq
    omega
  have hstop : n + size r.headingBack = p + size r.form.renderResult + 1 := by
    have hback : size r.headingBack
        = 1 + (size r.renderParams + (1 + (size r.form.renderResult + 1))) := by
      rw [headingBack, size, Text.size_append, size, Text.size_append]
      rfl
    omega
  have hreturn := r.resultAt_eq hresult
  rw [Scanner.headingRest, hskip]
  simp only [hparams, hsemiFrom, Scanner.charAt_eq hresult, hmin, hdirected, bind,
    Except.bind, hstop]
  -- What follows stands in both branches of the question for a colon, so the
  -- question is answered first.
  split at hreturn
  next hcolon =>
    rw [if_pos hcolon]
    cases hcut : Scanner.cut masked (p + 1) (p + size r.form.renderResult) with
    | error fault =>
      rw [hcut] at hreturn
      cases hreturn
    | ok type =>
      rw [hcut] at hreturn
      rw [← Except.ok.inj hreturn]
      rfl
  next hcolon =>
    rw [if_neg hcolon, ← Except.ok.inj hreturn]
    rfl

/-! ## Routines -/

/-- A match that found the heading of a routine behind some text. -/
structure Routine.FoundAt (r : Routine) (owner : Option PlainName) (front : Text) (m : Match) :
    Prop where
  word : m.groupText 1 = r.form.kind.word.toList
  name : m.groupText 2 = (r.fullName owner).text
  start : m.start = size front
  stop : m.stop = size (front ++ r.headingFront owner)

variable {s : Scanner.Scope} {front : Text} {r : Routine} {owner : Option PlainName} {m : Match}

/-- **A heading in the interface part** declares a routine. -/
theorem Routine.FoundAt.declared (hm : r.FoundAt owner front m)
    (hmasked : s.masked = front ++ (r.renderHeading owner ++ rest)) (hrest : Undirected rest)
    (hsplit : size front < s.split) :
    ∃ d, s.routine m = .ok (owner.map PlainName.text, d, size (front ++ r.renderHeading owner))
      ∧ d.bare = r.declared := by
  have hremains : s.masked.Remains m.stop (r.headingBack ++ rest) := by
    refine ⟨front ++ r.headingFront owner, ?_, hm.stop.symm⟩
    rw [hmasked, r.renderHeading_parts]
    simp only [List.append_assoc]
  have hheading := r.headingRest_eq hremains hrest
  have hbody : ((false || decide (m.start < s.split)) = true) := by
    rw [hm.start]
    simpa using hsplit
  have hnext : max m.stop (m.stop + size r.headingBack)
      = size (front ++ r.renderHeading owner) := by
    rw [r.renderHeading_parts, ← List.append_assoc, Text.size_append, ← hm.stop]
    omega
  refine ⟨r.declared.withExtent (s.lines.extent m.start (m.stop + size r.headingBack)), ?_, rfl⟩
  have hdeclared : PascalAtlas.Routine.heading r.name.text r.form.kind r.renderParams
      ((r.form.result?.map PlainName.text).getD []) = r.declared := r.heading_declared
  simp only [Scanner.Scope.routine, hheading, hm.word, hm.name, splitOwner_fullName,
    r.form.ofWord?_word, Option.getD_some, bind, Except.bind, hbody, if_true, pure, Except.pure,
    hnext, hdeclared]

/-- The text around a body, between the words of its block. -/
theorem cut_body {source : Text} (body : Text)
    (h : source.Remains n (' ' :: (Text.inBlock body ++ rest))) :
    Scanner.cut source (n + 6) (n + 8 + size body) = .ok ('\n' :: (body ++ ['\n'])) := by
  have htext : ' ' :: (Text.inBlock body ++ rest)
      = " begin".toList ++ (('\n' :: (body ++ ['\n'])) ++ ("end".toList ++ rest)) := by
    show ' ' :: ("begin\n".toList ++ body ++ "\nend".toList ++ rest) = _
    simp
  rw [htext] at h
  have hsize : n + 8 + size body = n + 6 + size ('\n' :: (body ++ ['\n'])) := by
    show _ = n + 6 + (1 + size (body ++ ['\n']))
    rw [Text.size_append]
    show _ = n + 6 + (1 + (size body + 1))
    omega
  rw [hsize]
  exact Scanner.cut_eq h.right

/-- A body stands on lines of its own. -/
theorem trim_body (body : Text) : Text.trim ('\n' :: (body ++ ['\n'])) = Text.trim body := by
  rw [Text.trim_cons_blank (by decide), Text.trim_concat_blank (by decide)]

/-- A routine without the semicolon at its end, its body in a view. -/
def Routine.block (view : Text → Text) (owner : Option PlainName) (r : Routine) : Text :=
  r.renderHeading owner ++ ' ' :: Text.inBlock (view r.body)

/-- How long a routine with its body is. -/
theorem Routine.size_block (view : Text → Text) (owner : Option PlainName) (r : Routine) :
    size (r.block view owner) = size (r.renderHeading owner) + 11 + size (view r.body) := by
  show size (_ ++ ' ' :: ("begin\n".toList ++ view r.body ++ "\nend".toList)) = _
  rw [Text.size_append, size, Text.size_append, Text.size_append]
  show _ + (1 + (6 + _ + 4)) = _
  omega

theorem Routine.rendered_block (view : Text → Text) (owner : Option PlainName) (r : Routine) :
    r.rendered view owner = r.block view owner ++ [';'] := by
  rw [rendered, block]
  simp

/-- Masking leaves the size of a routine as it is. -/
theorem Routine.size_rendered (owner : Option PlainName) (r : Routine) :
    size (r.rendered Mask.mask owner) = size (r.rendered id owner) := by
  rw [rendered_block, rendered_block, Text.size_append, Text.size_append, size_block, size_block,
    Mask.mask_eq, Mask.size_maskText]
  rfl

/-- **A routine in the implementation part** is read back with its body. -/
theorem Routine.FoundAt.implemented (hm : r.FoundAt owner front m)
    (hmasked : s.masked = front ++ (r.block Mask.mask owner ++ ';' :: rest))
    (hsource : s.source.Remains (size front) (r.block id owner ++ ';' :: rest'))
    (hlevel : r.body.IsLevel) (hsplit : s.split ≤ size front) :
    ∃ d, s.routine m = .ok (owner.map PlainName.text, d, size (front ++ r.block Mask.mask owner))
      ∧ d.bare = r.routine := by
  have hmask : size (Mask.mask r.body) = size r.body := by rw [Mask.mask_eq, Mask.size_maskText]
  have hremains : s.masked.Remains m.stop
      (r.headingBack ++ ' ' :: (Text.inBlock (Mask.mask r.body) ++ ';' :: rest)) := by
    refine ⟨front ++ r.headingFront owner, ?_, hm.stop.symm⟩
    rw [hmasked, block, r.renderHeading_parts]
    simp only [List.append_assoc, List.cons_append]
  have hundirected : Undirected (' ' :: (Text.inBlock (Mask.mask r.body) ++ ';' :: rest)) := by
    refine ⟨"begin".toList, '\n' :: (Mask.mask r.body ++ "\nend".toList ++ ';' :: rest), ?_,
      by decide, by decide, rfl, by decide⟩
    show ' ' :: ("begin\n".toList ++ Mask.mask r.body ++ "\nend".toList ++ ';' :: rest) = _
    simp
  have hheading := r.headingRest_eq hremains hundirected
  have hbegin := hremains.right
  have hbody := Scanner.body?_eq hlevel.closed (hlevel.silent.mono (by simp)) hbegin rfl
  have hstop : m.stop + size r.headingBack = size front + size (r.renderHeading owner) := by
    rw [r.renderHeading_parts, Text.size_append, hm.stop, Text.size_append, Nat.add_assoc]
  -- Both texts have the same heading, and the masked body has the size of the body: the
  -- offsets fit the source.
  have hcut : Scanner.cut s.source (m.stop + size r.headingBack + 6)
      (m.stop + size r.headingBack + 8 + size (Mask.mask r.body))
      = .ok ('\n' :: (r.body ++ ['\n'])) := by
    rw [hmask]
    refine @cut_body (';' :: rest') _ s.source r.body ?_
    rw [block, List.append_assoc] at hsource
    rw [hstop]
    exact hsource.right
  have hafter : m.stop + size r.headingBack + 11 + size (Mask.mask r.body)
      = size (front ++ r.block Mask.mask owner) := by
    rw [hstop, Text.size_append, r.size_block]
    omega
  have hsemi : Scanner.afterSemi s.masked (size (front ++ r.block Mask.mask owner)) = .ok _ :=
    Scanner.afterSemi_eq ⟨front ++ r.block Mask.mask owner, by rw [hmasked, List.append_assoc], rfl⟩
  have hwithin : ¬ (false || decide (m.start < s.split)) = true := by
    rw [hm.start]
    simpa using hsplit
  have hdeclared : PascalAtlas.Routine.heading r.name.text r.form.kind r.renderParams
      ((r.form.result?.map PlainName.text).getD []) = r.declared := r.heading_declared
  refine ⟨(r.declared.withBody ('\n' :: (r.body ++ ['\n'])) []).withExtent (s.lines.extent m.start
    (size (front ++ r.block Mask.mask owner) + 1)), ?_, ?_⟩
  · simp only [Scanner.Scope.routine, hheading, hm.word, hm.name, splitOwner_fullName,
      r.form.ofWord?_word, Option.getD_some, bind, Except.bind, hwithin, pure, Except.pure, hbody,
      hafter, hsemi, hcut, hdeclared]
    rfl
  · show { r.declared with hasBody := true, body := Text.trim ('\n' :: (r.body ++ ['\n'])) }
      = r.routine
    rw [trim_body]
    rfl

/-! ## All routines -/

/-- From a place on, the search for routines **finds** some routines, up to statements and extents,
and attaches them in their order. -/
def Finds (s : Scanner.Scope) (front rest : Text) (rs : List (Option Text × PascalAtlas.Routine)) :
    Prop :=
  s.masked = front ++ rest → ∀ n, rest.length < n →
    ∃ found : List (Option Text × PascalAtlas.Routine),
    found.map (fun x => (x.1, x.2.bare)) = rs
      ∧ ∀ u, s.routines n (size front) u = .ok (found.foldl (fun u x => u.attach x.1 x.2) u)

variable {rs : List (Option Text × PascalAtlas.Routine)} {t : Text}

/-- One step of the search, from a place between two texts. -/
theorem routines_succ (hmasked : s.masked = front ++ rest) (n : Nat) (u : SourceUnit) :
    s.routines (n + 1) (size front) u
      = (match Scanner.headingStart.search? (between 0 front rest) with
        | none => .ok u
        | some m => do
          if ← s.passesOver m then
            s.routines n m.stop u
          else
            let (owner, r, next) ← s.routine m
            s.routines n next (u.attach owner r)) := by
  have hcursor : Cursor.at? s.masked (size front) = some (between 0 front rest) := by
    rw [hmasked, Cursor.at?_append]
  rw [Scanner.Scope.routines, hcursor]
  rfl

/-- Where no routine begins, none is found. -/
theorem finds_nil (hrest : rest.Silent ("class" :: Scanner.routineWords)) :
    Finds s front rest [] := by
  intro hmasked n hn
  refine ⟨[], rfl, fun u => ?_⟩
  obtain ⟨n, rfl⟩ : ∃ k, n = k + 1 := ⟨n - 1, by omega⟩
  rw [routines_succ hmasked, opensWith_headingStart.search?_eq_none areWords_headingStart hrest]
  rfl

/-- The search goes on behind a text in which nothing begins. -/
theorem Finds.skip (h : Finds s (front ++ t) rest rs)
    (habsent : Scanner.headingStart.Absent front t rest) :
    Finds s front (t ++ rest) rs := by
  intro hmasked n hn
  have hmasked' : s.masked = (front ++ t) ++ rest := by rw [hmasked, List.append_assoc]
  obtain ⟨found, hfound, hroutines⟩ := h hmasked' n (by rw [List.length_append] at hn; omega)
  refine ⟨found, hfound, fun u => ?_⟩
  obtain ⟨n, rfl⟩ : ∃ k, n = k + 1 := ⟨n - 1, by omega⟩
  rw [← hroutines u, routines_succ hmasked, routines_succ hmasked', habsent.search?_eq]

/-- A heading that a class covers is passed over. -/
theorem routines_covered (hmasked : s.masked = front ++ rest)
    (hsearch : Scanner.headingStart.search? (between 0 front rest) = some m)
    (hcovered : (s.covered.any fun (start, stop) => decide (start ≤ m.start)
      && decide (m.start < stop)) = true) (n : Nat) (u : SourceUnit) :
    s.routines (n + 1) (size front) u = s.routines n m.stop u := by
  have hpasses : s.passesOver m = .ok true := by
    rw [Scanner.Scope.passesOver, if_pos hcovered]
    rfl
  rw [routines_succ hmasked, hsearch]
  simp only [hpasses]
  rfl

/-- No heading goes beyond a semicolon. -/
theorem headingStart_before_semi {front x r t rest : Text}
    (hfits : Scanner.headingStart.Fits front x r) (htext : t ++ [';'] ++ rest = x ++ r) :
    ∃ t', t = x ++ t' := by
  have hadmits : Scanner.headingStart.admits ';' = false := by decide
  have hsemi : ';' ∉ x := fun hmem => Bool.false_ne_true
    (hadmits.symm.trans (hfits.admits ';' hmem))
  obtain ⟨a, rfl, -⟩ | ⟨a, ha, -⟩ := List.append_eq_append_iff.1 htext
  · simp at hsemi
  · obtain rfl | ⟨a, c, rfl⟩ := List.eq_nil_or_concat a
    · rw [List.append_nil] at ha
      exact absurd (ha ▸ List.mem_append_right t (List.mem_singleton_self ';')) hsemi
    · rw [List.concat_eq_append, ← List.append_assoc] at ha
      exact ⟨a, (List.append_inj' ha rfl).1⟩

/-- The next heading is **before the semicolon** or behind it. -/
theorem search?_before_semi (front t rest : Text) :
    (∃ a x t' m, t = a ++ (x ++ t') ∧ x ≠ [] ∧ m.start = size (front ++ a)
      ∧ m.stop = size (front ++ a ++ x)
      ∧ Scanner.headingStart.search? (between 0 front (t ++ [';'] ++ rest)) = some m)
    ∨ Scanner.headingStart.search? (between 0 front (t ++ [';'] ++ rest))
      = Scanner.headingStart.search? (between 0 (front ++ (t ++ [';'])) rest) := by
  obtain ⟨a, b, hsplit, hne, m, hat, hsearch⟩ | hsearch :=
    search?_append Scanner.headingStart 0 front (t ++ [';']) rest
  · left
    obtain ⟨x, r, caps, htext, hfits, rfl⟩ := fits_of_matchAt? hat
    obtain ⟨b, c, rfl⟩ := (List.eq_nil_or_concat b).resolve_left hne
    rw [List.concat_eq_append, ← List.append_assoc] at hsplit
    obtain ⟨rfl, hc⟩ := List.append_inj' hsplit rfl
    rw [List.concat_eq_append, ← hc] at htext
    obtain ⟨t', rfl⟩ := headingStart_before_semi hfits htext
    exact ⟨a, x, t', _, rfl, hfits.ne_nil rfl, Nat.zero_add _, Nat.zero_add _, hsearch⟩
  · exact .inr hsearch

/-- **What begins inside a class is passed over.** -/
theorem Finds.covered (h : Finds s (front ++ (t ++ [';'])) rest rs)
    (hcovered : ∀ k, size front ≤ k → k < size (front ++ (t ++ [';'])) →
      (s.covered.any fun (start, stop) => decide (start ≤ k) && decide (k < stop)) = true) :
    Finds s front (t ++ [';'] ++ rest) rs := by
  intro hmasked n hn
  -- The search goes on behind the heading that is passed over, where less is left of the class.
  induction hlen : t.length using Nat.strongRecOn generalizing front t n with
  | _ k ih =>
    subst hlen
    obtain ⟨n, rfl⟩ : ∃ k, n = k + 1 := ⟨n - 1, by omega⟩
    obtain ⟨a, x, t', m, rfl, hne, hstart, hstop, hsearch⟩ | hsearch :=
      search?_before_semi front t rest
    · have hwhole : front ++ (a ++ (x ++ t') ++ [';']) = front ++ a ++ x ++ (t' ++ [';']) := by
        simp only [List.append_assoc]
      have hpos : 0 < size (t' ++ [';']) := by
        rw [Text.size_append]
        exact Nat.lt_add_left _ (by decide)
      have hsize : size (front ++ a) = size front + size a := Text.size_append _ _
      have hsize' : size (front ++ a ++ x) = size (front ++ a) + size x := Text.size_append _ _
      have hlength := List.length_pos_iff.2 hne
      have hinside := hcovered m.start (by omega) (by rw [hwhole, Text.size_append]; omega)
      rw [hwhole] at h
      simp only [List.length_append, List.length_singleton] at hn
      obtain ⟨found, hfound, hroutines⟩ := @ih t'.length (by simp only [List.length_append]; omega)
        (front ++ a ++ x) t' h
        (fun k hk hk' => hcovered k (by omega) (by rwa [hwhole]))
        (by rw [hmasked, ← List.append_assoc, hwhole, List.append_assoc]) n
        (by simp only [List.length_append, List.length_singleton]; omega) rfl
      refine ⟨found, hfound, fun u => ?_⟩
      rw [routines_covered hmasked hsearch hinside, hstop, hroutines u]
    · have hmasked' : s.masked = (front ++ (t ++ [';'])) ++ rest := by
        rw [hmasked, List.append_assoc front]
      obtain ⟨found, hfound, hroutines⟩ :=
        h hmasked' (n + 1) (by rw [List.length_append] at hn; omega)
      refine ⟨found, hfound, fun u => ?_⟩
      rw [← hroutines u, routines_succ hmasked, routines_succ hmasked', hsearch]

/-- A place where no procedural type can stand: the last sign before it is neither an
equals sign nor a colon. -/
def Untyped (front : Text) : Prop :=
  ∃ t c, front = t ++ [c] ∧ Text.isBlank c = false ∧ c ≠ '=' ∧ c ≠ ':'

/-- **A routine behind a space** is found, if no class covers it. -/
theorem exists_foundAt (owner : Option PlainName) (r : Routine) (huntyped : Untyped front)
    (hcovered : ∀ x ∈ s.covered, x.2 ≤ size front) (hrest : rest.head?.any isDotted = false)
    (hmasked : s.masked = front ++ ' ' :: (r.headingFront owner ++ rest)) :
    ∃ m, Scanner.headingStart.search? (between 0 front (' ' :: (r.headingFront owner ++ rest)))
      = some m
      ∧ r.FoundAt owner (front ++ [' ']) m ∧ s.passesOver m = .ok false := by
  have hbefore : (front ++ [' ']).getLast?.any Text.isWordChar = false := by
    rw [List.getLast?_concat]
    rfl
  obtain ⟨name, word, hname, hword, htakes⟩ := r.takes_heading owner (o := 0) hbefore hrest
  have hsearch := htakes.search?_eq
    (opensWith_headingStart.absent_nonword areWords_headingStart (by decide) front _)
  refine ⟨_, hsearch, ⟨hword, hname, Nat.zero_add _, Nat.zero_add _⟩, ?_⟩
  have huncovered : ¬ (s.covered.any fun (start, stop) => decide (start ≤ 0 + size (front ++ [' ']))
      && decide (0 + size (front ++ [' ']) < stop)) = true := by
    rw [List.any_eq_true]
    rintro ⟨⟨start, stop⟩, hx, hcovers⟩
    have hle : stop ≤ size front := hcovered _ hx
    rw [Text.size_append] at hcovers
    simp only [Bool.and_eq_true, decide_eq_true_eq] at hcovers
    omega
  rw [Scanner.Scope.passesOver]
  show (if (s.covered.any fun (start, stop) => decide (start ≤ 0 + size (front ++ [' ']))
    && decide (0 + size (front ++ [' ']) < stop)) = true then _
    else Scanner.inTypePosition s.masked (0 + size (front ++ [' ']))) = _
  -- No class covers the place, so it is passed over only in the position of a type.
  obtain ⟨t, c, rfl, hblank, heq, hcolon⟩ := huntyped
  rw [if_neg huncovered, Nat.zero_add, hmasked]
  have htype := @Scanner.inTypePosition_eq_false [' '] t c hblank heq hcolon (by decide)
    (r.headingFront owner ++ rest)
  simpa using htype

theorem Finds.cons {front' rest' : Text} {r : PascalAtlas.Routine} {owner : Option Text}
    (hsearch : Scanner.headingStart.search? (between 0 front rest) = some m)
    (hpasses : s.passesOver m = .ok false) (hroutine : s.routine m = .ok (owner, r, size front'))
    (htext : front ++ rest = front' ++ rest') (hlt : rest'.length < rest.length)
    (h : Finds s front' rest' rs) : Finds s front rest ((owner, r.bare) :: rs) := by
  intro hmasked n hn
  obtain ⟨n, rfl⟩ : ∃ k, n = k + 1 := ⟨n - 1, by omega⟩
  obtain ⟨found, hfound, hroutines⟩ := h (hmasked.trans htext) n (by omega)
  refine ⟨(owner, r) :: found, by rw [List.map_cons, hfound], fun u => ?_⟩
  rw [routines_succ hmasked, hsearch]
  simp only [hpasses, hroutine]
  exact hroutines (u.attach owner r)

theorem untyped_semi (t : Text) : Untyped (t ++ [';']) :=
  ⟨t, ';', rfl, by decide, by decide, by decide⟩

/-- The heading of the next routine is no directive of this one. -/
theorem Routine.undirected_heading (r : Routine) (owner : Option PlainName) (t : Text) :
    Undirected (' ' :: r.renderHeading owner ++ t) := by
  refine ⟨r.form.kind.word.toList, ' ' :: ((r.fullName owner).text ++ r.headingBack ++ t), ?_,
    ?_, ?_, rfl, ?_⟩
  · rw [r.renderHeading_parts, headingFront]
    simp only [List.append_assoc, List.cons_append]
  · generalize r.form.kind = kind
    cases kind <;> decide
  · exact fun c hc => (@RoutineForm.of_word [] r.form c hc).resolve_right List.not_mem_nil
  · generalize r.form.kind = kind
    cases kind <;> decide

/-- **A heading in the interface part** is found, and the search goes on behind it. -/
theorem Finds.heading (r : Routine) (huntyped : Untyped front)
    (hcovered : ∀ x ∈ s.covered, x.2 ≤ size front) (hsplit : size front + 1 < s.split)
    (hrest : Undirected rest) (h : Finds s (front ++ ' ' :: r.renderHeading none) rest rs) :
    Finds s front (' ' :: r.renderHeading none ++ rest) ((none, r.declared) :: rs) := by
  intro hmasked
  have htext : ' ' :: r.renderHeading none ++ rest
      = ' ' :: (r.headingFront none ++ (r.headingBack ++ rest)) := by
    rw [r.renderHeading_parts]
    simp only [List.append_assoc, List.cons_append]
  obtain ⟨m, hsearch, hm, hpasses⟩ := exists_foundAt none r huntyped hcovered rfl (htext ▸ hmasked)
  have hfront : s.masked = (front ++ [' ']) ++ (r.renderHeading none ++ rest) := by
    rw [hmasked]
    simp
  obtain ⟨d, hroutine, hbare⟩ := hm.declared hfront hrest (by rw [Text.size_append]; exact hsplit)
  rw [← htext] at hsearch
  rw [← hbare]
  have hwhole : front ++ (' ' :: r.renderHeading none ++ rest)
    = front ++ [' '] ++ r.renderHeading none ++ rest := by simp
  refine Finds.cons hsearch hpasses hroutine hwhole ?_ ?_ hmasked
  · simp only [List.cons_append, List.length_cons, List.length_append]
    omega
  · rwa [List.append_assoc]

/-- **The headings of the procedures** are found one after the other. -/
theorem finds_headings (ps : List Routine) (huntyped : Untyped front)
    (hcovered : ∀ x ∈ s.covered, x.2 ≤ size front)
    (hsplit : size (front ++ headings ps) < s.split) (hrest : Undirected rest)
    (h : Finds s (front ++ headings ps) rest rs) :
    Finds s front (headings ps ++ rest) ((ps.map fun r => (none, r.declared)) ++ rs) := by
  induction ps generalizing front with
  | nil =>
    rw [headings, List.flatMap_nil, List.append_nil] at h
    exact h
  | cons r ps ih =>
    have hcons : headings (r :: ps) = ' ' :: r.renderHeading none ++ headings ps :=
      List.flatMap_cons
    have hnext : Undirected (headings ps ++ rest) := by
      cases ps with
      | nil => exact hrest
      | cons q ps =>
        have hq : headings (q :: ps) = ' ' :: q.renderHeading none ++ headings ps :=
          List.flatMap_cons
        rw [hq, List.append_assoc]
        exact q.undirected_heading none _
    rw [hcons, ← List.append_assoc] at h hsplit
    have hsize : size (front ++ ' ' :: r.renderHeading none)
        = size front + 1 + size (r.renderHeading none) := by
      rw [Text.size_append, Nat.add_assoc]
      rfl
    -- A heading ends with a semicolon, so the one behind it is no procedural type.
    have huntyped' : Untyped (front ++ ' ' :: r.renderHeading none) := by
      rw [r.renderHeading_eq, ← List.cons_append, ← List.append_assoc]
      exact untyped_semi _
    rw [Text.size_append, hsize] at hsplit
    have hothers := ih huntyped' (fun x hx => Nat.le_trans (hcovered x hx) (by omega))
      (by rw [Text.size_append]; omega) h
    rw [hcons, List.append_assoc]
    exact Finds.heading r huntyped hcovered (by omega) hnext hothers

/-- **A routine with its body** is found, and the search goes on behind it. -/
theorem Finds.implementation (owner : Option PlainName) (r : Routine) (huntyped : Untyped front)
    (hcovered : ∀ x ∈ s.covered, x.2 ≤ size front) (hsplit : s.split ≤ size front)
    (hlevel : r.body.IsLevel)
    (hsource : s.source.Remains (size front) (' ' :: r.rendered id owner ++ rest'))
    (h : Finds s (front ++ ' ' :: r.rendered Mask.mask owner) rest rs) :
    Finds s front (' ' :: r.rendered Mask.mask owner ++ rest)
      ((owner.map PlainName.text, r.routine) :: rs) := by
  intro hmasked
  have htext : ' ' :: r.rendered Mask.mask owner ++ rest
      = ' ' :: (r.headingFront owner
        ++ (r.headingBack ++ (' ' :: (Text.inBlock (Mask.mask r.body) ++ ';' :: rest)))) := by
    rw [Routine.rendered, r.renderHeading_parts]
    simp only [List.append_assoc, List.cons_append, List.nil_append]
  obtain ⟨m, hsearch, hm, hpasses⟩ := exists_foundAt owner r huntyped hcovered rfl (htext ▸ hmasked)
  have hfront : s.masked = (front ++ [' ']) ++ (r.block Mask.mask owner ++ ';' :: rest) := by
    rw [hmasked, r.rendered_block]
    simp
  have hsource' : s.source.Remains (size (front ++ [' '])) (r.block id owner ++ ';' :: rest') := by
    rw [r.rendered_block, List.cons_append, List.append_assoc] at hsource
    rw [Text.size_append]
    exact hsource.next rfl
  obtain ⟨d, hroutine, hbare⟩ :=
    hm.implemented hfront hsource' hlevel (by rw [Text.size_append]; omega)
  rw [← htext] at hsearch
  rw [← hbare]
  have hwhole : front ++ (' ' :: r.rendered Mask.mask owner ++ rest)
      = front ++ [' '] ++ r.block Mask.mask owner ++ ([';'] ++ rest) := by
    rw [r.rendered_block]
    simp
  refine Finds.cons hsearch hpasses hroutine hwhole ?_ ?_ hmasked
  · rw [r.rendered_block]
    simp only [List.cons_append, List.length_cons, List.length_append, List.length_nil]
    omega
  · -- The search goes on at the semicolon, in which no heading begins.
    refine Finds.skip ?_ (opensWith_headingStart.absent_nonword areWords_headingStart
      (by decide) _ rest)
    rw [r.rendered_block] at h
    simpa using h

/-- **The routines with bodies** are found one after the other. -/
theorem finds_bodies (is : List (Option PlainName × Routine)) (huntyped : Untyped front)
    (hcovered : ∀ x ∈ s.covered, x.2 ≤ size front) (hsplit : s.split ≤ size front)
    (hlevel : ∀ i ∈ is, i.2.body.IsLevel)
    (hsource : s.source.Remains (size front) (bodies id is ++ rest'))
    (h : Finds s (front ++ bodies Mask.mask is) rest rs) :
    Finds s front (bodies Mask.mask is ++ rest)
      ((is.map fun i => (i.1.map PlainName.text, i.2.routine)) ++ rs) := by
  induction is generalizing front with
  | nil =>
    rw [bodies, List.flatMap_nil, List.append_nil] at h
    exact h
  | cons i is ih =>
    have hcons (f : Text → Text) : bodies f (i :: is) = ' ' :: i.2.rendered f i.1 ++ bodies f is :=
      List.flatMap_cons
    have hsize : size (front ++ ' ' :: i.2.rendered Mask.mask i.1)
        = size front + size (' ' :: i.2.rendered id i.1) := by
      rw [Text.size_append, size, size, i.2.size_rendered]
    rw [hcons, ← List.append_assoc] at h
    rw [hcons, List.append_assoc] at hsource
    have huntyped' : Untyped (front ++ ' ' :: i.2.rendered Mask.mask i.1) := by
      rw [i.2.rendered_block, ← List.cons_append, ← List.append_assoc]
      exact untyped_semi _
    have hothers := ih huntyped' (fun x hx => Nat.le_trans (hcovered x hx) (by omega)) (by omega)
      (fun j hj => hlevel j (List.mem_cons_of_mem _ hj)) (by rw [hsize]; exact hsource.right) h
    rw [hcons, List.append_assoc]
    exact Finds.implementation i.1 i.2 huntyped hcovered hsplit
      (hlevel i List.mem_cons_self) hsource hothers

end Blueprint

end PascalAtlas
