import PascalAtlas.Proofs.Casing
import PascalAtlas.Proofs.RoundTrip
import PascalAtlas.Proofs.ScannedClass
import PascalAtlas.Proofs.ScannedRoutine

/-!
# Two ways to the same unit

A unit can be built from the tree of its text or from what patterns find in the masked text. The two
ways do not agree on every text that has a tree without errors: the patterns know classes and
records but not interface types, and take the routines of such a type for procedures of the unit
(`BuiltUnit.strategies_differ`).

They agree on the texts of blueprints (`Blueprint.strategies_agree`), where the tree gives back what
was written. So it is enough that the patterns give it back too, and that is shown part by part, in
the order of the text: the name (`find?_unitHeader`), the used units (`uses_rendered`), the classes
(`classes_rendered`), the place where the implementation begins (`find?_implementationWord`) and the
routines (`finds_routines`). Of the bodies one has to know that they are level: `&end` in a body
would end it too early, and `uses := 1` would use a unit.
-/

namespace PascalAtlas

open Cursor (between)

/-! ## Used units -/

/-- There are no blanks in a name. -/
theorem DottedName.not_blank (d : DottedName) : ∀ c ∈ d.text, Text.isBlank c = false := by
  intro c hc
  obtain hc | hc := List.mem_append.1 hc
  · exact d.first.not_blank c hc
  · obtain ⟨x, -, hc⟩ := List.mem_flatMap.1 hc
    obtain rfl | hc := List.mem_cons.1 hc
    · decide
    · exact x.not_blank c hc

/-- No path is given for a unit that is named only. -/
theorem DottedName.cut?_path (d : DottedName) :
    Text.cut? " in ".toList (Text.lower d.text) = none := by
  refine Option.eq_none_iff_forall_ne_some.2 ?_
  rintro ⟨front, back⟩ hcut
  have hmem : ' ' ∈ Text.lower d.text := by
    rw [← Token.cut?_eq_some hcut]
    simp
  obtain ⟨c, hc, hlower⟩ := List.mem_map.1 hmem
  obtain rfl := (toLower_eq_iff (by decide) c).1 hlower
  exact absurd (d.not_blank ' ' hc) (by decide)

/-- Cutting at commas gives the used units back. -/
theorem splitBy_uses (d : DottedName) (ds : List DottedName) :
    Text.splitBy (· == ',') (' ' :: (d.text ++ ds.flatMap fun d => ", ".toList ++ d.text))
      = (d :: ds).map fun d => ' ' :: d.text := by
  have hcomma (d : DottedName) : ∀ c ∈ ' ' :: d.text, (c == ',') = false := by
    intro c hc
    have hof : Text.Of [' ', '.'] (' ' :: d.text) :=
      .cons (by decide) (Text.of_dottedName d (by decide))
    exact beq_eq_false_iff_ne.2 fun h => hof.not_mem (c := ',') (by decide) (by decide) (h ▸ hc)
  induction ds generalizing d with
  | nil =>
    rw [List.flatMap_nil, List.append_nil, Text.splitBy_eq_self (hcomma d), List.map_singleton]
  | cons e es ih =>
    rw [List.flatMap_cons, ← List.cons_append]
    show Text.splitBy _ (' ' :: d.text
      ++ ',' :: (' ' :: (e.text ++ es.flatMap fun d => ", ".toList ++ d.text))) = _
    rw [Text.splitBy_append (hcomma d) rfl, ih e]
    rfl

/-- **The names of the used units** are read back. -/
theorem usedUnits_eq (d : DottedName) (ds : List DottedName) :
    Scanner.usedUnits (' ' :: (d.text ++ ds.flatMap fun d => ", ".toList ++ d.text))
      = (d :: ds).map DottedName.text := by
  have hnonempty (d : DottedName) : (!d.text.isEmpty) = true := by
    obtain ⟨c, cs, htext, -⟩ := d.first.exists_cons
    rw [DottedName.text, htext]
    rfl
  have hwords (d : DottedName) : (Text.words d.text).flatten = d.text := by
    rw [Text.words, Text.splitBy_eq_self d.not_blank]
    simp [hnonempty d]
  have htrim (d : DottedName) : Text.trim (' ' :: d.text) = d.text := by
    rw [Text.trim_cons_blank (by decide), Text.trim_eq_of_not_blank d.not_blank]
  rw [Scanner.usedUnits, splitBy_uses, List.map_map]
  refine (congrArg (List.filter _) (List.map_congr_left fun d _ => ?_)).trans
    (List.filter_eq_self.2 ?_)
  · simp only [Function.comp, htrim, d.cut?_path, hwords]
  · intro t ht
    obtain ⟨d, -, rfl⟩ := List.mem_map.1 ht
    exact hnonempty d

namespace Blueprint

open Pattern
open Text (size)

variable {s : Scanner.Scope} {front rest : Text} {rs : List (Option Text × PascalAtlas.Routine)}

/-! ## The text before, in and behind the classes -/

/-- What stands before the first class. -/
def lead (u : Blueprint) : Text :=
  u.prologue ++ if u.classes.isEmpty then [] else " type".toList

/-- A unit is its lead, its classes and what comes behind them. -/
theorem rendered_lead (view : Text → Text) (u : Blueprint) :
    u.rendered view = u.lead ++ (classesText u.classes ++ u.epilogue view) := by
  rw [rendered, lead, renderTypes, classesText]
  cases u.classes with
  | nil => simp
  | cons c cs => simp only [List.isEmpty_cons, Bool.false_eq_true, if_false, List.append_assoc]

/-- The lead has plain names and four words of its own. -/
theorem says_lead (u : Blueprint) : u.lead.Says ["unit", "uses", "interface", "type"] := by
  have hprologue : u.prologue.Says ["unit", "uses", "interface", "type"] :=
    u.says_prologue.mono (by simp)
  have htype : Text.Says ["unit", "uses", "interface", "type"] " type".toList :=
    .cons rfl (Text.says_word (w := "type") (by decide) (by decide))
  rw [lead]
  split
  · rwa [List.append_nil]
  · exact hprologue.append htype rfl

/-- Besides words the lead has blanks, commas, dots and semicolons. -/
theorem of_lead (u : Blueprint) : u.lead.Of [' ', ',', '.', ';'] := by
  refine u.of_prologue.append ?_
  split
  · exact Text.of_nil
  · exact Text.of_literal (by decide)

/-- The words of a class that are no names. -/
def classWords : List String :=
  "class" :: (Scanner.routineWords ++ ["end"])

/-- The classes have plain names and the words of classes. -/
theorem says_classesText (cs : List Class) : (classesText cs).Says classWords := by
  induction cs with
  | nil => exact Text.says_nil
  | cons c cs ih =>
    have hinside : c.inside.Says classWords :=
      c.says_inside.mono fun w hw => List.mem_cons_of_mem _ hw
    have hhead := c.head_inside []
    rw [List.append_nil] at hhead
    have hclass : Text.Says classWords ("class".toList ++ c.inside) :=
      (Text.says_word (w := "class") (by decide) (by decide)).append hinside hhead
    have hrender : Text.Says classWords (' ' :: c.render) := by
      rw [c.render_eq]
      exact .cons rfl ((Text.says_name c.name).append_cons rfl (.cons rfl (.cons rfl hclass)))
    refine hrender.append ih ?_
    cases cs <;> rfl

/-- What comes behind the classes ends the last word before it. -/
theorem spaced_epilogue (view : Text → Text) (u : Blueprint) : Spaced (u.epilogue view) := by
  rw [epilogue, headings]
  cases u.procedures with
  | nil => exact ⟨'i', _, rfl, by decide⟩
  | cons r rs =>
    rw [List.flatMap_cons, r.renderHeading_parts, Routine.headingFront]
    generalize r.form.kind = kind
    cases kind <;> exact ⟨_, _, rfl, by decide⟩

/-! ## Name and used units -/

/-- **The header** is found with the name of the unit. -/
theorem takes_unitHeader (name : DottedName) (rest : Text) :
    ∃ group, group.text = name.text
      ∧ Scanner.unitHeader.Takes 0 [] ("unit ".toList ++ (name.text ++ [';'])) rest []
        [(1, group)] := by
  have hstart : Pattern.boundary.Takes 0 [] []
      ("unit".toList ++ ([' '] ++ (name.text ++ [';'])) ++ rest) [] [] :=
    takes_boundary Bool.false_ne_true
  have hword : (Pattern.words ["unit", "program", "library"]).Takes 0 [] "unit".toList
      ([' '] ++ (name.text ++ [';']) ++ rest) [] [] :=
    takes_words (w := "unit") (by decide) (by decide) (by decide) (spells_self (by decide))
  have hgap : Pattern.gap.Takes 0 "unit".toList [' '] (name.text ++ [';'] ++ rest) [] [] := by
    refine takes_atLeastOne (by decide) ?_
    rw [List.append_assoc]
    exact name.head_not_blank _
  have hname := (@takes_dottedName 0 ("unit".toList ++ [' ']) ([';'] ++ rest) [] name rfl).group 1
  have hblanks (caps : Captures) : Pattern.blanks.Takes 0 ("unit".toList ++ [' '] ++ name.text)
      [] ([';'] ++ rest)
      caps caps := takes_many (by simp) rfl
  have hsemi (caps : Captures) : (Pattern.char fun c => c == ';' || c == '(').Takes 0
      ("unit".toList ++ [' '] ++ name.text) [';'] rest caps caps := takes_char rfl
  exact ⟨_, rfl, hstart.after_nil
    (hword.seq (hgap.seq (hname.seq ((hblanks _).after_nil (hsemi _)))))⟩

/-- The pattern of the header finds **the name of the unit**. -/
theorem find?_unitHeader (u : Blueprint) (rest : Text) :
    (Scanner.unitHeader.find? (u.prologue ++ rest)).map (·.groupText 1) = some u.name.text := by
  obtain ⟨group, hgroup, htakes⟩ :=
    takes_unitHeader u.name (renderUses u.uses ++ " interface".toList ++ rest)
  have hfind := search?_of_matchAt? htakes.matchAt?
  have htext : u.prologue ++ rest
      = "unit ".toList ++ (u.name.text ++ [';'])
      ++ (renderUses u.uses ++ " interface".toList ++ rest) := by
    rw [prologue]
    simp only [List.append_assoc]
  rw [htext]
  refine (congrArg _ hfind).trans ?_
  rw [Option.map_some, ← hgroup]
  rfl

theorem areWords_usesClause : areWords ["uses"] = true := by decide

theorem opensWith_usesClause : Scanner.usesClause.OpensWith ["uses"] :=
  (spelled_word.leadsWith breaks_boundary.seq (by decide)).opens_boundary areWords_usesClause

/-- **A `uses` clause** is found with its list of units. -/
theorem takes_usesClause {names : Text} (hfront : front.getLast?.any Text.isWordChar = false)
    (hnames : ';' ∉ names) (rest : Text) : ∃ group, group.text = ' ' :: names
      ∧ Scanner.usesClause.Takes 0 front ("uses".toList ++ (' ' :: names ++ [';'])) rest []
        [(1, group)] := by
  have hstart : Pattern.boundary.Takes 0 front []
      ("uses".toList ++ (' ' :: names ++ [';']) ++ rest) [] [] :=
    takes_boundary (hfront.trans_ne Bool.false_ne_true)
  have hword : (Pattern.word "uses").Takes 0 front "uses".toList
      (' ' :: names ++ [';'] ++ rest) [] [] :=
    takes_word (spells_self (by decide))
  have hend : Pattern.boundary.Takes 0 (front ++ "uses".toList) []
      (' ' :: names ++ [';'] ++ rest) [] [] := by
    refine takes_boundary ?_
    rw [List.getLast?_append]
    exact Bool.false_ne_true.symm
  have hothers : ∀ c ∈ ' ' :: names, (c != ';') = true := by
    intro c hc
    obtain rfl | hc := List.mem_cons.1 hc
    · decide
    · exact bne_iff_ne.2 fun h => hnames (h ▸ hc)
  have hlist : (Pattern.many (.char (· != ';'))).Takes 0 (front ++ "uses".toList) (' ' :: names)
      ([';'] ++ rest) [] [] :=
    takes_many hothers rfl
  have hsemi (caps : Captures) :
      (Pattern.sign ';').Takes 0 (front ++ "uses".toList ++ (' ' :: names)) [';'] rest
      caps caps := takes_char rfl
  exact ⟨_, rfl, hstart.after_nil (hword.seq (hend.after_nil ((hlist.group 1).seq (hsemi _))))⟩

/-- The used units are read back from a text that does not say `uses` elsewhere. -/
theorem flatMap_usesClause (used : List DottedName) (hfront : front.Silent ["uses"])
    (hrest : rest.Silent ["uses"]) (hhead : rest.head?.any Text.isWordChar = false) :
    ((Scanner.usesClause.matchesIn 0 (front ++ (renderUses used ++ rest))).flatMap fun m =>
      Scanner.usedUnits (m.groupText 1)) = used.map DottedName.text := by
  have hadvances : Scanner.usesClause.Advances := advances_of_needsChar rfl
  -- There is no match behind the clause, nor one before it.
  have hnone {front' : Text} : Scanner.usesClause.matchesAfter 0 front' rest = [] :=
    (opensWith_usesClause.absent areWords_usesClause hrest rfl).matchesAfter_eq_nil hadvances 0
  have hafter : Scanner.usesClause.matchesIn 0 (front ++ (renderUses used ++ rest))
      = Scanner.usesClause.matchesAfter 0 front (renderUses used ++ rest) := by
    have hnext : (renderUses used ++ rest).head?.any Text.isWordChar = false := by
      cases used with
      | nil => exact hhead
      | cons d ds => rfl
    have habsent : Scanner.usesClause.Absent [] front (renderUses used ++ rest) :=
      opensWith_usesClause.absent areWords_usesClause hfront hnext
    exact habsent.matchesAfter_eq hadvances 0
  rw [hafter]
  cases used with
  | nil =>
    have hnothing : Scanner.usesClause.matchesAfter 0 front (renderUses [] ++ rest) = [] := hnone
    rw [hnothing]
    rfl
  | cons d ds =>
    have hnames : ';' ∉ d.text ++ ds.flatMap fun d => ", ".toList ++ d.text := by
      have hof : Text.Of [' ', ',', '.'] (d.text ++ ds.flatMap fun d => ", ".toList ++ d.text) :=
        (Text.of_dottedName d (by decide)).append (Text.of_flatMap fun e _ =>
          (Text.of_literal (by decide)).append (Text.of_dottedName e (by decide)))
      exact hof.not_mem (by decide) (by decide)
    obtain ⟨group, hgroup, htakes⟩ :=
      @takes_usesClause (front ++ [' ']) _ (by rw [List.getLast?_concat]; rfl) hnames rest
    have htext : renderUses (d :: ds) ++ rest
        = [' '] ++ ("uses".toList
          ++ (' ' :: (d.text ++ ds.flatMap fun d => ", ".toList ++ d.text) ++ [';']) ++ rest) := by
      show " uses ".toList ++ d.text ++ (ds.flatMap fun d => ", ".toList ++ d.text) ++ [';'] ++ rest
        = _
      simp
    have hspace := opensWith_usesClause.absent_nonword areWords_usesClause (c := ' ') (by decide)
      front
      ("uses".toList ++ (' ' :: (d.text ++ ds.flatMap fun d => ", ".toList ++ d.text) ++ [';'])
        ++ rest)
    rw [htext, hspace.matchesAfter_eq hadvances, htakes.matchesAfter_eq hadvances (by simp), hnone,
      List.flatMap_singleton, ← usedUnits_eq, ← hgroup]
    rfl

/-! ## Routines -/

/-- A class ends with its semicolon. -/
theorem Class.exists_semi (c : Class) : ∃ t, c.render = t ++ [';'] := by
  refine ⟨c.name.text ++ (" = class".toList
    ++ (renderHeritage c.ancestor ++ (c.renderMembers ++ " end".toList))), ?_⟩
  rw [c.render_eq, Class.inside]
  simp

/-- No class reaches further than the classes do. -/
theorem spans_le (cs : List Class) (n : Nat) :
    ∀ x ∈ spans n cs, x.2 ≤ n + size (classesText cs) := by
  induction cs generalizing n with
  | nil => simp [spans]
  | cons c cs ih =>
    have hsize : size (classesText (c :: cs)) = 1 + size c.render + size (classesText cs) := by
      rw [classesText_cons, Text.size_append]
      rfl
    intro x hx
    obtain rfl | hx := List.mem_cons.1 hx
    · show n + 1 + size c.render ≤ _
      omega
    · have hle := ih _ x hx
      omega

/-- **The headings in classes are passed over.** -/
theorem finds_classes (cs : List Class) (hcovered : ∀ x ∈ spans (size front) cs, x ∈ s.covered)
    (h : Finds s (front ++ classesText cs) rest rs) :
    Finds s front (classesText cs ++ rest) rs := by
  induction cs generalizing front with
  | nil =>
    rw [classesText, List.flatMap_nil, List.append_nil] at h
    exact h
  | cons c cs ih =>
    have hsize : size (front ++ [' '] ++ c.render) = size front + 1 + size c.render := by
      rw [Text.size_append, Text.size_append]
      rfl
    obtain ⟨t, ht⟩ := c.exists_semi
    have hothers : Finds s (front ++ [' '] ++ c.render) (classesText cs ++ rest) rs := by
      refine ih (fun x hx => hcovered x (List.mem_cons_of_mem _ (hsize ▸ hx))) ?_
      rw [classesText_cons, ← List.append_assoc] at h
      rwa [List.append_assoc front]
    have hclass : Finds s (front ++ [' ']) (c.render ++ (classesText cs ++ rest)) rs := by
      rw [ht] at hothers ⊢
      -- What begins inside of the class begins in a stretch that is covered.
      refine hothers.covered fun k hk hk' => List.any_eq_true.2
        ⟨_, hcovered _ (List.mem_cons_self ..), ?_⟩
      rw [← ht, hsize] at hk'
      rw [Text.size_append] at hk
      have hstart : size front + 1 ≤ k := hk
      simp only [Bool.and_eq_true, decide_eq_true_eq]
      exact ⟨hstart, hk'⟩
    rw [classesText_cons, List.append_assoc]
    exact hclass.skip (opensWith_headingStart.absent_nonword areWords_headingStart (by decide) _ _)

/-! ## The two parts -/

/-- The headings of procedures have plain names and words of routines. -/
theorem says_headings (ps : List Routine) : (headings ps).Says Scanner.routineWords := by
  induction ps with
  | nil => exact Text.says_nil
  | cons r ps ih =>
    have hheading : Text.Says Scanner.routineWords (' ' :: r.renderHeading none) := by
      rw [r.renderHeading_eq]
      exact .cons rfl ((r.says_headingText none).append_cons rfl Text.says_nil)
    refine hheading.append ih ?_
    cases ps <;> rfl

/-- What stands before the implementation part. -/
def before (u : Blueprint) : Text :=
  u.lead ++ classesText u.classes ++ headings u.procedures

/-- A unit is what is before its implementation, and the implementation. -/
theorem rendered_before (view : Text → Text) (u : Blueprint) : u.rendered view
    = u.before ++ (" implementation".toList
        ++ (bodies view u.implementations ++ " end.".toList)) := by
  rw [rendered_lead, before, epilogue]
  simp only [List.append_assoc]

/-- Before the implementation there is no other `implementation`. -/
theorem silent_before (u : Blueprint) : u.before.Silent ["implementation"] := by
  have hlead : u.lead.Silent ["implementation"] := u.says_lead.silent (by decide +kernel)
  have hclasses : (classesText u.classes).Silent ["implementation"] :=
    (says_classesText _).silent (by decide +kernel)
  have hheadings : (headings u.procedures).Silent ["implementation"] :=
    (says_headings _).silent (by decide +kernel)
  refine (hlead.append hclasses ?_).append hheadings ?_
  · cases u.classes <;> rfl
  · cases u.procedures <;> rfl

/-- **The implementation part** begins where it is written. -/
theorem find?_implementationWord (view : Text → Text) (u : Blueprint) :
    (Scanner.implementationWord.find? (u.rendered view)).map Match.start
      = some (size u.before + 1) := by
  have hopens : Scanner.implementationWord.OpensWith ["implementation"] :=
    opensWith_standing (by decide)
  have hbefore : Scanner.implementationWord.Absent [] u.before
      ([' '] ++ ("implementation".toList ++ (bodies view u.implementations ++ " end.".toList))) :=
    hopens.absent (by decide) u.silent_before rfl
  have hspace := hopens.absent_nonword (by decide) (c := ' ') (by decide) u.before
    ("implementation".toList ++ (bodies view u.implementations ++ " end.".toList))
  have htakes : Scanner.implementationWord.Takes 0 (u.before ++ [' ']) "implementation".toList
      (bodies view u.implementations ++ " end.".toList) [] [] := by
    refine takes_standing (by decide) ?_ (List.mem_singleton_self _) (spells_self (by decide)) ?_
    · rw [List.getLast?_concat]
      rfl
    · cases u.implementations <;> rfl
  have hfind := (hbefore.search?_eq 0).trans (htakes.search?_eq hspace)
  rw [rendered_before]
  refine (congrArg (Option.map Match.start) hfind).trans ?_
  show some (0 + size (u.before ++ [' '])) = _
  rw [Text.size_append, Nat.zero_add]
  rfl

section

variable (u : Blueprint) (hlevel : ∀ i ∈ u.implementations, i.2.body.IsLevel)

/-- What is covered ends where the classes end. -/
theorem spans_before (hcovered : s.covered = spans (size u.lead) u.classes) :
    ∀ x ∈ s.covered, x.2 ≤ size (u.lead ++ classesText u.classes) := by
  rw [hcovered, Text.size_append]
  exact spans_le _ _

theorem size_before :
    size u.before = size (u.lead ++ classesText u.classes) + size (headings u.procedures) :=
  Text.size_append _ _

include hlevel in
/-- **The bodies** are found in the implementation part. -/
theorem finds_implementation (hsource : s.source = u.render)
    (hcovered : s.covered = spans (size u.lead) u.classes) (hsplit : s.split = size u.before + 1) :
    Finds s u.before (" implementation".toList
        ++ (bodies Mask.mask u.implementations ++ " end.".toList))
      (u.implementations.map fun i => (i.1.map PlainName.text, i.2.routine)) := by
  have hpart : size (u.before ++ " implementation".toList) = size u.before + 15 :=
    Text.size_append _ _
  -- Behind the bodies there is only the `end.`, and before them only the word of the part.
  have hend : Finds s (u.before ++ " implementation".toList ++ bodies Mask.mask u.implementations)
      " end.".toList [] := by
    have hspoken : Text.Says ["end"] " end.".toList :=
      .cons rfl ((Text.says_word (w := "end") (by decide) (by decide)).append_cons
        rfl Text.says_nil)
    exact finds_nil (hspoken.silent (by decide +kernel))
  have hremains : s.source.Remains (size (u.before ++ " implementation".toList))
      (bodies id u.implementations ++ " end.".toList) := by
    refine ⟨u.before ++ " implementation".toList, ?_, rfl⟩
    rw [hsource, ← u.rendered_id, rendered_before, List.append_assoc]
  have huntyped : Untyped (u.before ++ " implementation".toList) :=
    ⟨u.before ++ " implementatio".toList, 'n', by simp, by decide, by decide, by decide⟩
  have hbefore := u.size_before
  have hbodies := finds_bodies u.implementations huntyped
    (fun x hx => Nat.le_trans (u.spans_before hcovered x hx) (by omega))
    (by omega) hlevel hremains hend
  rw [List.append_nil] at hbodies
  refine hbodies.skip (opensWith_headingStart.absent areWords_headingStart ?_ ?_)
  · have hspoken : Text.Says ["implementation"] " implementation".toList :=
      .cons rfl (Text.says_word (w := "implementation") (by decide) (by decide))
    exact hspoken.silent (by decide +kernel)
  · cases u.implementations <;> rfl

/-- Behind the classes no type is open. -/
theorem untyped_classes : Untyped (u.lead ++ classesText u.classes) := by
  -- The last character is that of the word `interface`, or the `;` of the last class.
  obtain hnil | ⟨cs, c, hcs⟩ := List.eq_nil_or_concat u.classes
  · refine ⟨"unit ".toList ++ (u.name.text ++ ([';'] ++ (renderUses u.uses ++ " interfac".toList))),
      'e', ?_, by decide, by decide, by decide⟩
    rw [lead, prologue, hnil]
    simp [classesText]
  · obtain ⟨t, ht⟩ := c.exists_semi
    rw [hcs, classesText, List.concat_eq_append, List.flatMap_append, List.flatMap_singleton, ht,
      ← List.cons_append, ← List.append_assoc, ← List.append_assoc]
    exact untyped_semi _

include hlevel in
/-- **All routines of a blueprint** are found, the headings before the bodies. -/
theorem finds_routines (hsource : s.source = u.render)
    (hcovered : s.covered = spans (size u.lead) u.classes) (hsplit : s.split = size u.before + 1) :
    Finds s [] (u.rendered Mask.mask) ((u.procedures.map fun r => (none, r.declared))
      ++ u.implementations.map fun i => (i.1.map PlainName.text, i.2.routine)) := by
  -- From the back to the front: the bodies, the headings, the classes, and what comes before them.
  have hword := u.finds_implementation hlevel hsource hcovered hsplit
  have hundirected : Undirected
      (" implementation".toList ++ (bodies Mask.mask u.implementations ++ " end.".toList)) := by
    refine ⟨"implementation".toList, bodies Mask.mask u.implementations ++ " end.".toList, rfl,
      by decide, by decide, ?_, by decide⟩
    cases u.implementations <;> rfl
  have hheadings := finds_headings u.procedures u.untyped_classes (u.spans_before hcovered)
    (by rw [Text.size_append, ← u.size_before]; omega) hundirected hword
  have hclasses := finds_classes u.classes (fun x hx => hcovered ▸ hx) hheadings
  have hlead : u.lead.Silent ("class" :: Scanner.routineWords) :=
    u.says_lead.silent (by decide +kernel)
  have habsent : Scanner.headingStart.Absent [] u.lead
      (classesText u.classes ++ u.epilogue Mask.mask) :=
    opensWith_headingStart.absent areWords_headingStart hlead
      (spaced_classesText u.classes (u.spaced_epilogue Mask.mask)).head
  rw [rendered_lead]
  exact Finds.skip hclasses habsent

/-! ## The unit -/

include hlevel in
/-- No units are used behind the clause that says so. -/
theorem silent_behind_uses :
    Text.Silent ["uses"] (" interface".toList
        ++ (renderTypes u.classes ++ u.epilogue Mask.mask)) := by
  have hinterface : Text.Says ["interface", "type"] " interface".toList :=
    .cons rfl (Text.says_word (w := "interface") (by decide) (by decide))
  have htype : Text.Says ["interface", "type"] " type".toList :=
    .cons rfl (Text.says_word (w := "type") (by decide) (by decide))
  have hclasses : (classesText u.classes).Silent ["uses"] :=
    (says_classesText _).silent (by decide +kernel)
  have hepilogue : (u.epilogue Mask.mask).Silent ["uses"] :=
    silent_epilogue (by decide +kernel) u fun i hi => (hlevel i hi).silent.mono (by simp)
  have hspaced := (u.spaced_epilogue Mask.mask).head
  have htypes : Text.Silent ["uses"] (renderTypes u.classes ++ u.epilogue Mask.mask) := by
    rw [renderTypes]
    split
    · exact hepilogue
    · refine Text.Silent.append (Text.Silent.append (htype.silent (by decide +kernel)) hclasses ?_)
        hepilogue hspaced
      cases u.classes <;> rfl
  refine (hinterface.silent (by decide +kernel)).append htypes ?_
  rw [renderTypes]
  split
  · exact hspaced
  · rfl

include hlevel in
/-- **The used units** of a blueprint are read back. -/
theorem uses_rendered :
    ((Scanner.usesClause.matchesIn 0 (u.rendered Mask.mask)).flatMap fun m => Scanner.usedUnits
        (m.groupText 1))
      = u.uses.map DottedName.text := by
  have htext : u.rendered Mask.mask
      = ("unit ".toList ++ (u.name.text ++ [';']))
      ++ (renderUses u.uses ++ (" interface".toList
        ++ (renderTypes u.classes ++ u.epilogue Mask.mask))) := by
    rw [rendered, prologue]
    simp only [List.append_assoc]
  have hheader : Text.Says ["unit"] ("unit ".toList ++ (u.name.text ++ [';'])) :=
    (Text.says_word (w := "unit") (by decide) (by decide)).append_cons rfl
      ((Text.says_dottedName u.name).append_cons rfl Text.says_nil)
  rw [htext]
  exact flatMap_usesClause u.uses (hheader.silent (by decide +kernel))
    (u.silent_behind_uses hlevel) rfl

include hlevel in
/-- **The classes** of a blueprint are read back. -/
theorem classes_rendered (lines : LineIndex) :
    ∃ found, Scanner.classes (u.rendered Mask.mask) lines
        (Scanner.classHeader.matchesIn 0 (u.rendered Mask.mask)) []
        = .ok found
      ∧ found.map (fun x => x.1.bare) = u.classes.map Class.declared
      ∧ found.map (fun x => x.2) = spans (size u.lead) u.classes := by
  have hspaced := u.spaced_epilogue Mask.mask
  have hnext := spaced_classesText u.classes hspaced
  have hepilogue : (u.epilogue Mask.mask).Silent ["class", "record"] :=
    silent_epilogue (by decide +kernel) u fun i hi => (hlevel i hi).silent.mono (by simp)
  have habsent : Scanner.classHeader.Absent [] u.lead
      (classesText u.classes ++ u.epilogue Mask.mask) :=
    absent_classHeader (u.of_lead.not_mem (by decide) (by decide)) hnext.head
      fun b z hb => hnext.ne hb
  have hmatches : Scanner.classHeader.matchesIn 0 (u.rendered Mask.mask)
      = Scanner.classHeader.matchesAfter 0 u.lead
      (classesText u.classes ++ u.epilogue Mask.mask) := by
    rw [rendered_lead]
    exact habsent.matchesAfter_eq advances_classHeader 0
  rw [hmatches]
  exact scanClasses_eq lines u.classes (u.rendered_lead Mask.mask) hepilogue hspaced (by simp)

include hlevel in
/-- The unit that is found by patterns. -/
theorem bare_ofText (fallback : Text) :
    ∃ unit, SourceUnit.ofText u.render fallback = .ok unit ∧ unit.bare = u.unit := by
  obtain ⟨classes, hclasses, hdeclared, hspans⟩ :=
    u.classes_rendered hlevel (LineIndex.ofText u.render)
  have hname := u.find?_unitHeader (renderTypes u.classes ++ u.epilogue Mask.mask)
  have hsplit := u.find?_implementationWord Mask.mask
  obtain ⟨found, hfound, hroutines⟩ := u.finds_routines hlevel
    (s := ⟨u.render, u.rendered Mask.mask, LineIndex.ofText u.render, classes.map fun x => x.2,
      size u.before + 1⟩)
    rfl hspans rfl rfl _ (Nat.lt_succ_self _)
  -- The routines are attached in the order in which they are found, to the classes or to the unit.
  refine ⟨found.foldl (fun u x => u.attach x.1 x.2)
    { name := u.name.text
      uses := u.uses.map DottedName.text
      classes := classes.map fun x => x.1 }, ?_, ?_⟩
  · have hname' : ((Scanner.unitHeader.find? (u.rendered Mask.mask)).map (·.groupText 1)).getD
        fallback = u.name.text := by
      rw [rendered, hname, Option.getD_some]
    simp only [SourceUnit.ofText, u.mask_render, hname', u.uses_rendered hlevel, hclasses, hsplit,
      bind, Except.bind, Option.getD_some]
    exact hroutines _
  · rw [SourceUnit.bare_foldl_attach, hfound, ← u.foldl_attach_eq, SourceUnit.bare]
    simp only [List.map_map, Function.comp_def, hdeclared]
    rfl

end

/-- **The two ways agree.** If the bodies of a blueprint are level, then its text is read without
errors by its tree and by patterns, and up to statements and extents the two units are the same: the
unit that the blueprint describes. -/
theorem strategies_agree (u : Blueprint) (hlevel : ∀ i ∈ u.implementations, i.2.body.IsLevel)
    (fallback : Text) :
    ∃ parsed scanned, BuiltUnit.ofSource u.render fallback .tree = .ok ⟨parsed, .tree, []⟩
      ∧ BuiltUnit.ofSource u.render fallback .scan = .ok ⟨scanned, .scan, []⟩
      ∧ scanned.bare = parsed.bare ∧ parsed.bare = u.unit := by
  obtain ⟨root, htree, hroot⟩ := u.ofText_render
  obtain ⟨scanned, hscan, hscanned⟩ := u.bare_ofText hlevel fallback
  have hparsed : (SourceUnit.ofTree u.render ⟨root, []⟩ fallback).bare = u.unit :=
    u.bare_ofTree hroot fallback
  refine ⟨_, scanned, ?_, ?_, hscanned.trans hparsed.symm, hparsed⟩
  · simp only [BuiltUnit.ofSource, htree]
    rfl
  · simp only [BuiltUnit.ofSource, BuiltUnit.byPatterns, hscan]
    rfl

/-- The body of the sample has an `end` in a comment, which opens or closes nothing. -/
theorem strategies_agree_sample :
    (∀ i ∈ sample.implementations, i.2.body.IsLevel)
    ∧ ∃ parsed scanned, BuiltUnit.ofSource sample.render [] .tree = .ok ⟨parsed, .tree, []⟩
      ∧ BuiltUnit.ofSource sample.render [] .scan = .ok ⟨scanned, .scan, []⟩
      ∧ scanned.bare = parsed.bare ∧ parsed.bare = sample.unit :=
  ⟨by decide +kernel, strategies_agree sample (by decide +kernel) []⟩

end Blueprint

/-- The routines of an **interface type** belong to the type in the tree, and are procedures of
the unit for patterns. -/
theorem BuiltUnit.strategies_differ :
    (BuiltUnit.ofSource
          "unit U; interface type IFoo = interface procedure Bar; end; implementation end.".toList
          [] .tree
        ).toOption.map (fun built => (built.errors, built.unit.procedures.map Routine.name))
          = some ([], [])
    ∧ (BuiltUnit.ofSource
          "unit U; interface type IFoo = interface procedure Bar; end; implementation end.".toList
          [] .scan
        ).toOption.map (fun built => (built.errors, built.unit.procedures.map Routine.name))
          = some ([], ["Bar".toList]) := by
  decide +kernel

end PascalAtlas
