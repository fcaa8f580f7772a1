import PascalAtlas.Proofs.BlockWords
import PascalAtlas.Proofs.ScannedMember

/-!
# Classes in the masked text

The scanner finds the header of a class by a pattern (`Blueprint.Class.exists_foundAt`), the end of
the class by counting block words, and the members by cutting what is between at its semicolons;
those inside brackets do not count. Each piece is a member of the blueprint with blanks before it
(`Blueprint.addMembers_eq`), so the class is read back as it was declared
(`Blueprint.Class.class?_eq`). The stretch from its name to its semicolon is covered: no header is
looked for there, and later no routine. `Blueprint.scanClasses_eq` says this of all classes at once.
-/

namespace PascalAtlas

open Cursor (between)

namespace Blueprint

open Pattern

/-! ## Segments -/

/-- A member begins with a letter, not with a blank. -/
theorem Member.head_not_blank (m : Member) (rest : Text) :
    (m.text ++ rest).head?.any Text.isBlank = false := by
  cases m with
  | inl f =>
    show (f.name.text ++ ": ".toList ++ f.type.text ++ rest).head?.any Text.isBlank = false
    rw [List.append_assoc, List.append_assoc]
    exact f.name.head_not_blank _
  | inr r =>
    show (r.headingText none ++ rest).head?.any Text.isBlank = false
    rw [Routine.headingText]
    generalize r.form.kind = kind
    cases kind <;> rfl

theorem Member.text_ne_nil (m : Member) : m.text ≠ [] := by
  cases m with
  | inl f => simp [Member.text, f.name.ne_nil]
  | inr r => simp [Member.text, Routine.headingText]

/-- A member does not end with a blank. -/
theorem Member.last_not_blank (m : Member) : m.text.getLast?.any Text.isBlank = false := by
  have hname (front : Text) (x : PlainName) :
      (front ++ x.text).getLast?.any Text.isBlank = false := by
    obtain ⟨cs, c, htext⟩ := (List.eq_nil_or_concat x.text).resolve_left x.ne_nil
    rw [List.concat_eq_append] at htext
    rw [htext, ← List.append_assoc, List.getLast?_concat]
    exact x.not_blank c (by simp [htext])
  cases m with
  | inl f => exact hname _ f.type
  | inr r =>
    have htext : r.headingText none
        = r.form.kind.word.toList ++ ' ' :: ((r.fullName none).text ++ '(' :: r.renderParams)
        ++ ')' :: r.form.renderResult := by
      rw [Routine.headingText]
      simp
    show (r.headingText none).getLast?.any Text.isBlank = false
    rw [htext, RoutineForm.renderResult]
    cases r.form.result? with
    | none =>
      rw [Option.map_none, Option.getD_none, List.getLast?_concat]
      rfl
    | some result =>
      rw [Option.map_some, Option.getD_some, List.append_cons, ← List.append_assoc]
      exact hname _ result

/-- Whether a character **counts** when a text is cut into segments: brackets always do, a
semicolon outside of them. -/
def divides (depth : Nat) (c : Char) : Bool :=
  c == '(' || c == '[' || c == ')' || c == ']' || (c == ';' && depth == 0)

/-- A character of a kind that has no brackets and no semicolon divides nothing. -/
theorem not_divides {depth : Nat} {c : Char} (p : Char → Bool)
    (hp : ∀ d ∈ ['(', '[', ')', ']', ';'], p d = false) (hc : p c = true) :
    divides depth c = false := by
  by_contra h
  have hmem : c ∈ ['(', '[', ')', ']', ';'] := by
    simp only [divides, Bool.not_eq_false, Bool.or_eq_true, Bool.and_eq_true, beq_iff_eq] at h
    obtain (((h | h) | h) | h) | ⟨h, -⟩ := h <;> simp [h]
  rw [hp c hmem] at hc
  cases hc

/-- A text that divides nothing becomes part of the segment that is open. -/
theorem segmentsFrom_pass {x : Text} {depth : Nat} (hx : ∀ c ∈ x, divides depth c = false)
    (start n : Nat) (rest : Text) :
    Scanner.segmentsFrom start depth n (x ++ rest)
      = Scanner.segmentsFrom start depth (n + Text.size x) rest := by
  induction x generalizing n with
  | nil => rfl
  | cons c cs ih =>
    have hc := hx c (by simp)
    simp only [divides, Bool.or_eq_false_iff, beq_eq_false_iff_ne] at hc
    obtain ⟨⟨⟨⟨hparen, hbracket⟩, hparen'⟩, hbracket'⟩, hsemi⟩ := hc
    have hnot : ¬ (decide (c = ';') && depth == 0) = true := by
      rw [← Bool.beq_eq_decide_eq, hsemi]
      exact Bool.false_ne_true
    rw [List.cons_append, Scanner.segmentsFrom, if_neg (by simp [hparen, hbracket]),
      if_neg (by simp [hparen', hbracket']), if_neg hnot, ih fun d hd => hx d (by simp [hd]),
      Text.size, Nat.add_assoc]

/-- A member is inside one segment. -/
theorem Member.segmentsFrom_text (m : Member) (start n : Nat) (rest : Text) :
    Scanner.segmentsFrom start 0 n (m.text ++ rest)
      = Scanner.segmentsFrom start 0 (n + Text.size m.text) rest := by
  have hpass {signs : List Char} {x : Text} (hx : x.Of signs) {depth : Nat}
      (hsigns : ∀ c ∈ signs, divides depth c = false)
      (n : Nat) (rest : Text) :
      Scanner.segmentsFrom start depth n (x ++ rest)
      = Scanner.segmentsFrom start depth (n + Text.size x) rest := by
    refine segmentsFrom_pass (fun c hc => ?_) start n rest
    obtain hident | hsign := hx c hc
    · exact not_divides Text.isIdentChar (by decide) hident
    · exact hsigns c hsign
  cases m with
  | inl f =>
    have hof : Text.Of [':', ' '] (Member.text (.inl f)) :=
      ((Text.of_name _).append (Text.of_literal (by decide))).append (Text.of_name _)
    exact hpass hof (by decide) n rest
  | inr r =>
    have htext : Member.text (.inr r) ++ rest
        = (r.form.kind.word.toList ++ ' ' :: (r.fullName none).text)
        ++ ('(' :: (r.renderParams ++ (')' :: (r.form.renderResult ++ rest)))) := by
      show r.headingText none ++ rest = _
      rw [Routine.headingText]
      simp only [List.append_assoc, List.cons_append]
    have hname : Text.Of [' ', '.'] (r.form.kind.word.toList ++ ' ' :: (r.fullName none).text) :=
      r.form.of_word.append (.cons (by decide) (Text.of_dottedName _ (by decide)))
    -- The semicolons between the parameters are inside the brackets.
    have hopen (n : Nat) (t : Text) :
        Scanner.segmentsFrom start 0 n ('(' :: t) = Scanner.segmentsFrom start 1 (n + 1) t := rfl
    have hclose (n : Nat) (t : Text) :
        Scanner.segmentsFrom start 1 n (')' :: t) = Scanner.segmentsFrom start 0 (n + 1) t := rfl
    have hsize : Text.size (Member.text (.inr r))
        = Text.size (r.form.kind.word.toList ++ ' ' :: (r.fullName none).text)
        + (1 + Text.size r.renderParams + (1 + Text.size r.form.renderResult)) := by
      show Text.size (r.headingText none) = _
      rw [Routine.headingText]
      simp only [Text.size_append, Text.size]
      have hparen : '('.utf8Size = 1 := rfl
      have hparen' : ')'.utf8Size = 1 := rfl
      omega
    rw [htext, hpass hname (by decide), hopen, hpass r.of_renderParams (by decide), hclose,
      hpass r.form.of_renderResult (by decide), hsize]
    congr 1
    omega

/-- Some members, each with a semicolon, and blanks between them; `lead` stands before the first. -/
def membersFrom (lead : Text) : List Member → Text
  | [] => lead
  | m :: ms => lead ++ (m.text ++ ';' :: membersFrom [' '] ms)

/-- The members with their blanks, in the order in which they are cut. -/
theorem Class.renderMembers_eq (c : Class) :
    c.renderMembers ++ [' '] = ' ' :: membersFrom [] c.members := by
  have hlead (ms : List Member) : membersFrom [' '] ms = ' ' :: membersFrom [] ms := by
    cases ms <;> rfl
  rw [← hlead, renderMembers]
  induction c.members with
  | nil => rfl
  | cons m ms ih =>
    rw [List.flatMap_cons, List.append_assoc, ih, membersFrom]
    simp

/-- A member has no lead to drop. -/
theorem dropLead_member (m : Member) : Scanner.dropLead m.text = m.text := by
  have hvisibility : Scanner.visibility.find? m.text = none :=
    opensWith_visibility.find?_eq_none (by decide) (m.says_text.silent (by decide +kernel))
  have hword := m.leadingWord_text []
  rw [List.append_nil] at hword
  have hother : Text.isOneOf m.firstWord (["class", "var", "const"].map String.toList) = false :=
    m.isOneOf_firstWord (by decide +kernel)
  simp only [Scanner.dropLead, hvisibility, hword, hother]
  rfl

theorem dropLead_nil : Scanner.dropLead [] = [] := by
  have hvisibility : Scanner.visibility.find? [] = none :=
    opensWith_visibility.find?_eq_none (by decide) (by decide +kernel)
  simp only [Scanner.dropLead, hvisibility]
  rfl

/-- Extents do not decide where a member goes. -/
theorem bare_addMember (c : ClassDecl) (m : Member) (extent : Extent) :
    (Scanner.addMember c (m.declared extent)).bare = Scanner.addMember c.bare (m.declared {}) := by
  cases m with
  | inl f =>
    show ClassDecl.bare { c with fields := c.fields ++ [⟨f.name.text, f.type.text, extent⟩] } = _
    rw [ClassDecl.bare, List.map_append]
    rfl
  | inr r =>
    show ClassDecl.bare { c with methods := c.methods ++ [r.declared.withExtent extent] } = _
    rw [ClassDecl.bare, List.map_append]
    rfl

/-- A blank segment is no member. -/
theorem addMembers_blank {masked lead : Text} (hlead : ∀ c ∈ lead, Text.isBlank c = true)
    {start stop : Nat} (hcut : Scanner.cut masked start stop = .ok lead) (lines : LineIndex)
    (c : ClassDecl) (rest : List (Nat × Nat)) :
    Scanner.addMembers masked lines c ((start, stop) :: rest)
      = Scanner.addMembers masked lines c rest := by
  have htrim : Text.trimEnd lead = [] := by
    have hdrop : (lead.reverse ++ []).dropWhile Text.isBlank = [] :=
      List.dropWhile_append_of_pos fun d hd => hlead d (List.mem_reverse.1 hd)
    rw [List.append_nil] at hdrop
    rw [Text.trimEnd, hdrop]
    rfl
  rw [Scanner.addMembers, hcut]
  show (if (Scanner.dropLead (Text.trimStart (Text.trimEnd lead))).isEmpty then _ else _) = _
  rw [htrim]
  show (if (Scanner.dropLead []).isEmpty then _ else _) = _
  rw [dropLead_nil]
  rfl

/-- **A member is what is left** when the blanks in front of it are taken away. -/
theorem Member.trim_text {lead : Text} (hlead : ∀ c ∈ lead, Text.isBlank c = true) (m : Member) :
    Text.trimEnd (lead ++ m.text) = lead ++ m.text ∧ Text.trimStart (lead ++ m.text) = m.text := by
  constructor
  · refine Text.trimEnd_eq_self fun c hc => ?_
    obtain ⟨cs, d, htext⟩ := (List.eq_nil_or_concat m.text).resolve_left m.text_ne_nil
    have hlast := m.last_not_blank
    rw [htext, List.concat_eq_append, List.getLast?_concat, Option.any_some] at hlast
    rw [htext, List.concat_eq_append, ← List.append_assoc, List.getLast?_concat] at hc
    rwa [Option.some.inj hc] at hlast
  · have hhead := m.head_not_blank []
    rw [List.append_nil] at hhead
    rw [Text.trimStart, List.dropWhile_append_of_pos hlead]
    refine Text.trimStart_eq_self fun c hc => ?_
    rwa [Option.mem_def.1 hc, Option.any_some] at hhead

/-- A segment with a member in it **adds that member**. -/
theorem addMembers_member {masked lead : Text} (hlead : ∀ c ∈ lead, Text.isBlank c = true)
    (m : Member) {start stop : Nat} (hcut : Scanner.cut masked start stop = .ok (lead ++ m.text))
    (lines : LineIndex) (c : ClassDecl) (rest : List (Nat × Nat)) :
    ∃ extent, Scanner.addMembers masked lines c ((start, stop) :: rest)
      = Scanner.addMembers masked lines (Scanner.addMember c (m.declared extent)) rest := by
  obtain ⟨hend, hstart⟩ := m.trim_text hlead
  have hword := m.leadingWord_text []
  rw [List.append_nil] at hword
  have hcase : Text.eqIgnoreCase m.firstWord "case".toList = false := by
    have h := @Member.isOneOf_firstWord m ["case".toList] (by decide +kernel)
    simpa [Text.isOneOf] using h
  refine ⟨lines.extent (start + Text.size (lead ++ m.text) - Text.size m.text)
    (start + Text.size (lead ++ m.text)), ?_⟩
  rw [Scanner.addMembers, hcut]
  show (if (Scanner.dropLead (Text.trimStart (Text.trimEnd (lead ++ m.text)))).isEmpty
    then _ else _) = _
  rw [hend, hstart, dropLead_member, if_neg (by simpa using m.text_ne_nil), hword, hcase,
    if_neg Bool.false_ne_true]
  dsimp only
  rw [m.memberOf_text]

/-- **The members of a class** are read back one after the other. -/
theorem addMembers_eq {masked rest lead : Text} (lines : LineIndex) (ms : List Member)
    (hlead : ∀ c ∈ lead, Text.isBlank c = true) {n : Nat}
    (h : masked.Remains n (membersFrom lead ms ++ rest)) (c : ClassDecl) :
    ∃ c', Scanner.addMembers masked lines c (Scanner.segmentsFrom n 0 n (membersFrom lead ms))
      = .ok c'
      ∧ c'.bare = ms.foldl (fun c m => Scanner.addMember c (m.declared {})) c.bare := by
  -- Blanks divide nothing, so they go with the member behind them.
  have hpass (lead : Text) (hlead : ∀ c ∈ lead, Text.isBlank c = true) (n : Nat) (rest : Text) :
      Scanner.segmentsFrom n 0 n (lead ++ rest)
      = Scanner.segmentsFrom n 0 (n + Text.size lead) rest :=
    segmentsFrom_pass (fun d hd => not_divides Text.isBlank (by decide) (hlead d hd)) n n rest
  induction ms generalizing lead n c with
  | nil =>
    have hsegments : Scanner.segmentsFrom n 0 n lead
        = if n < n + Text.size lead then [(n, n + Text.size lead)] else [] := by
      have hlast := hpass lead hlead n []
      rwa [List.append_nil] at hlast
    refine ⟨c, ?_, rfl⟩
    rw [membersFrom, hsegments]
    split
    · exact addMembers_blank hlead (Scanner.cut_eq h) lines c []
    · rfl
  | cons m ms ih =>
    rw [membersFrom, List.append_assoc, List.append_assoc, ← List.append_assoc lead] at h
    have hsegments : Scanner.segmentsFrom n 0 n (membersFrom lead (m :: ms))
        = (n, n + Text.size (lead ++ m.text))
          :: Scanner.segmentsFrom (n + Text.size (lead ++ m.text) + 1) 0
          (n + Text.size (lead ++ m.text) + 1) (membersFrom [' '] ms) := by
      rw [membersFrom, hpass lead hlead, m.segmentsFrom_text, Text.size_append, Nat.add_assoc]
      rfl
    obtain ⟨extent, hadd⟩ := addMembers_member hlead m (Scanner.cut_eq h) lines c
      (Scanner.segmentsFrom (n + Text.size (lead ++ m.text) + 1) 0
        (n + Text.size (lead ++ m.text) + 1) (membersFrom [' '] ms))
    obtain ⟨c', hc', hbare⟩ :=
      @ih [' '] (by decide) _ (h.right.next rfl) (Scanner.addMember c (m.declared extent))
    refine ⟨c', ?_, ?_⟩
    · rw [hsegments, hadd, hc']
    · rw [hbare, bare_addMember]
      rfl

/-- Fields are added to the fields. -/
theorem foldl_addFields (fs : List Field) (d : ClassDecl) :
    (fs.map Sum.inl).foldl (fun d (m : Member) => Scanner.addMember d (m.declared {})) d
      = { d with fields := d.fields
          ++ fs.map fun f => { name := f.name.text, typeName := f.type.text } } := by
  induction fs generalizing d with
  | nil => rw [List.map_nil, List.map_nil, List.append_nil, List.foldl_nil]
  | cons f fs ih =>
    rw [List.map_cons, List.foldl_cons, ih, List.map_cons, List.append_cons]
    rfl

/-- Methods are added to the methods. -/
theorem foldl_addMethods (rs : List Routine) (d : ClassDecl) :
    (rs.map Sum.inr).foldl (fun d (m : Member) => Scanner.addMember d (m.declared {})) d
      = { d with methods := d.methods ++ rs.map Routine.declared } := by
  induction rs generalizing d with
  | nil => rw [List.map_nil, List.map_nil, List.append_nil, List.foldl_nil]
  | cons r rs ih =>
    rw [List.map_cons, List.foldl_cons, ih, List.map_cons, List.append_cons]
    rfl

/-- The members of a class, added one by one, are all that it declares. -/
theorem Class.foldl_members (c : Class) :
    c.members.foldl (fun d (m : Member) => Scanner.addMember d (m.declared {}))
        { name := c.name.text, ancestor := c.ancestor.map PlainName.text }
      = c.declared := by
  rw [members, List.foldl_append, foldl_addFields, foldl_addMethods]
  rfl

/-! ## A class -/

/-- The members have plain names and words of routines, and no other words. -/
theorem says_membersFrom (ms : List Member) : (membersFrom [] ms).Says Scanner.routineWords := by
  have hspaced : ∀ ms : List Member, (membersFrom [' '] ms).Says Scanner.routineWords := by
    intro ms
    induction ms with
    | nil => exact .cons rfl Text.says_nil
    | cons m ms ih => exact .cons rfl (m.says_text.append_cons rfl ih)
  cases ms with
  | nil => exact Text.says_nil
  | cons m ms => exact m.says_text.append_cons rfl (hspaced ms)

/-- Behind the members a word can begin. -/
theorem last_membersFrom (ms : List Member) :
    (membersFrom [] ms).getLast?.any Text.isWordChar = false := by
  have hspaced : ∀ ms : List Member, ∃ t, membersFrom [' '] ms = t ++ [' '] := by
    intro ms
    induction ms with
    | nil => exact ⟨[], rfl⟩
    | cons m ms ih =>
      obtain ⟨t, ht⟩ := ih
      refine ⟨' ' :: (m.text ++ ';' :: t), ?_⟩
      rw [membersFrom, ht]
      simp
  cases ms with
  | nil => rfl
  | cons m ms =>
    obtain ⟨t, ht⟩ := hspaced ms
    rw [membersFrom, ht, List.nil_append, ← List.cons_append, ← List.append_assoc,
      List.getLast?_concat]
    rfl

/-- The members of a class begin with a member, or with the `end`. -/
theorem membersFrom_cases (ms : List Member) (rest : Text) :
    (∃ (m : Member) (t : Text), membersFrom [] ms ++ ("end;".toList ++ rest) = m.text ++ t)
      ∨ membersFrom [] ms ++ ("end;".toList ++ rest) = "end;".toList ++ rest := by
  cases ms with
  | nil => exact .inr rfl
  | cons m ms => exact .inl ⟨m, _, by rw [membersFrom, List.nil_append, List.append_assoc]⟩

variable {masked t : Text} {n : Nat}

/-- Before the members of a class there are no modifiers. -/
theorem classModifiers_eq (h : masked.Remains n t)
    (ht : Text.isOneOf (Scanner.leadingWord t) (["of", "abstract", "sealed"].map String.toList)
      = false) :
    Scanner.classModifiers masked false n = .ok (some n) := by
  have hword : Scanner.wordAt masked n = Scanner.leadingWord t := by
    rw [Scanner.wordAt, h.drop?_eq]; rfl
  have hof : Text.eqIgnoreCase (Scanner.leadingWord t) "of".toList = false
      ∧ Text.isOneOf (Scanner.leadingWord t) (["abstract", "sealed"].map String.toList)
        = false := by
    simpa [Text.isOneOf] using ht
  rw [Scanner.classModifiers, if_neg Bool.false_ne_true]
  show (if Text.eqIgnoreCase (Scanner.wordAt masked n) _ then _ else _) = _
  rw [hword, hof.1, if_neg Bool.false_ne_true, hof.2, if_neg Bool.false_ne_true]
  rfl

/-- What stands between the heritage and the end of a class. -/
theorem Class.inside_eq (c : Class) (rest : Text) :
    c.inside ++ rest = renderHeritage c.ancestor ++ ' ' :: (membersFrom [] c.members
        ++ ("end;".toList ++ rest)) := by
  have hspace : " end;".toList = [' '] ++ "end;".toList := rfl
  rw [inside, hspace, ← List.append_assoc c.renderMembers, c.renderMembers_eq, List.append_assoc,
    List.cons_append, List.cons_append, List.append_assoc]

/-- No first word of a member makes the class another kind of type. -/
theorem leadingWord_membersFrom (ms : List Member) (rest : Text) :
    Text.isOneOf (Scanner.leadingWord (membersFrom [] ms ++ ("end;".toList ++ rest)))
      (["of", "abstract", "sealed"].map String.toList) = false := by
  obtain ⟨m, t, htext⟩ | htext := membersFrom_cases ms rest
  · rw [htext, m.leadingWord_text]
    exact m.isOneOf_firstWord (by decide +kernel)
  · have hend : Scanner.leadingWord ("end".toList ++ ';' :: rest) = "end".toList :=
      Text.takeWhile_eq (by decide) rfl
    rw [htext]
    show Text.isOneOf (Scanner.leadingWord ("end".toList ++ ';' :: rest)) _ = false
    rw [hend]
    decide

/-- The first character behind the heritage of a class. -/
theorem head_membersFrom (ms : List Member) (rest : Text) :
    (membersFrom [] ms ++ ("end;".toList ++ rest)).head?.any Text.isIdentChar = true := by
  obtain ⟨m, t, htext⟩ | htext := membersFrom_cases ms rest
  · rw [htext]
    cases m with
    | inl f =>
      obtain ⟨c, cs, hname, -⟩ := f.name.exists_cons
      show (f.name.text ++ ": ".toList ++ f.type.text ++ t).head?.any Text.isIdentChar = true
      rw [hname]
      exact f.name.isIdentChar_of_mem (by simp [hname])
    | inr r =>
      show (r.headingText none ++ t).head?.any Text.isIdentChar = true
      rw [Routine.headingText]
      generalize r.form.kind = kind
      cases kind <;> rfl
  · rw [htext]
    rfl

theorem head_ne_of_ident (ht : t.head?.any Text.isIdentChar = true) {c : Char}
    (hc : Text.isIdentChar c = false) :
    (t.head? == some c) = false := by
  refine beq_eq_false_iff_ne.2 fun hhead => ?_
  rw [hhead] at ht
  exact Bool.false_ne_true (hc.symm.trans ht)

/-- A name in brackets is the ancestor. -/
theorem ancestorIn_text (a : PlainName) : Scanner.ancestorIn a.text = some a.text := by
  have hfirst : a.text.takeWhile (· != ',') = a.text := by
    have h := @Text.takeWhile_eq a.text [] (· != ',')
      (fun d hd => by simpa using a.ne_of_mem hd (by decide)) rfl
    rwa [List.append_nil] at h
  rw [Scanner.ancestorIn, hfirst, Text.squeeze_eq_of_not_blank a.not_blank]
  exact if_neg (by simpa using a.ne_nil)

/-- **The heritage of a class** and the place behind it. -/
theorem Class.heritage_eq (c : Class) {rest : Text} (h : masked.Remains n (c.inside ++ rest)) :
    ∃ start, Scanner.skipBlanks masked n = .ok start
      ∧ Scanner.classModifiers masked false start = .ok (some start)
      ∧ Scanner.classHeritage masked start
        = .ok (some (c.ancestor.map PlainName.text,
            n + Text.size (renderHeritage c.ancestor) + 1)) := by
  have hident := head_membersFrom c.members rest
  have hwords := leadingWord_membersFrom c.members rest
  rw [c.inside_eq, renderHeritage] at h
  rw [renderHeritage]
  generalize membersFrom [] c.members ++ ("end;".toList ++ rest) = t at h hident hwords
  -- The members begin with a word, or the `end` does, so the blanks before them are all passed.
  have hblank : t.head?.any Text.isBlank = false := by
    cases hhead : t.head? with
    | none => rfl
    | some d =>
      rw [hhead] at hident
      exact Text.isBlank_of_isIdentChar hident
  cases hancestor : c.ancestor with
  | none =>
    rw [hancestor] at h
    have hnext : masked.Remains (n + 1) t := h.next rfl
    refine ⟨n + 1, Scanner.skipBlanks_eq (x := [' ']) h (by decide) hblank,
      classModifiers_eq hnext hwords, ?_⟩
    rw [Scanner.classHeritage, Scanner.charAt_eq hnext, head_ne_of_ident hident (by decide)]
    rfl
  | some a =>
    have htext : ((some a).map fun a => '(' :: (a.text ++ [')'])).getD [] ++ ' ' :: t
        = '(' :: (a.text ++ ')' :: (' ' :: t)) := by simp
    rw [hancestor, htext] at h
    have hcut := Scanner.cut_eq (h.next rfl)
    have hmatching := Scanner.matchingParen_eq h fun d hd =>
      ⟨a.ne_of_mem hd (by decide), a.ne_of_mem hd (by decide)⟩
    have hspace := Scanner.skipBlanks_eq (x := [' ']) ((h.next rfl).right.next rfl)
      (by decide) hblank
    have hsize : n + Text.size (((some a).map fun a => '(' :: (a.text ++ [')'])).getD []) + 1
        = n + 1 + Text.size a.text + 1 + 1 := by
      show n + (1 + Text.size (a.text ++ [')'])) + 1 = _
      rw [Text.size_append]
      show n + (1 + (Text.size a.text + 1)) + 1 = _
      omega
    refine ⟨n, Scanner.skipBlanks_here h rfl, classModifiers_eq h (by rfl), ?_⟩
    simp only [Scanner.classHeritage, Scanner.charAt_eq h, List.head?_cons, beq_self_eq_true,
      if_true, hmatching, hcut, hspace, hsize, ancestorIn_text, bind, Except.bind]
    rfl

/-- No record is declared among the members of a class, so **the first `end`** is its own. -/
theorem closingEnd_members (ms : List Member) (rest : Text) (n : Nat) :
    Scanner.closingEnd 0 (Scanner.blockWordsAfter n []
        (membersFrom [] ms ++ ("end;".toList ++ rest)))
      = some ⟨"end".toList, n + Text.size (membersFrom [] ms),
          n + Text.size (membersFrom [] ms) + 3⟩ := by
  have hlast := last_membersFrom ms
  have hsilent : (membersFrom [] ms).Silent ["record", "end"] :=
    (says_membersFrom ms).silent (by decide +kernel)
  have hend := @Scanner.blockWordsAfter_word (membersFrom [] ms)
    (';' :: rest) n hlast "end" (by decide) rfl
  rw [Text.size_append] at hend
  rw [Scanner.closingEnd_blockWords rfl hlast hsilent, List.nil_append]
  exact congrArg (Scanner.closingEnd 0) hend

/-- **A class is read back** from what stands behind its header. -/
theorem Class.class?_eq (c : Class) {rest : Text} (h : masked.Remains n (c.inside ++ rest))
    (lines : LineIndex) {name : Capture} (hname : name.text = c.name.text) :
    ∃ d, Scanner.class? masked lines name n false = .ok (some (d, n + Text.size c.inside))
      ∧ d.bare = c.declared := by
  obtain ⟨start, hskip, hmodifiers, hheritage⟩ := c.heritage_eq h
  have hmembers : masked.Remains (n + Text.size (renderHeritage c.ancestor) + 1)
      (membersFrom [] c.members ++ ("end;".toList ++ rest)) := by
    rw [c.inside_eq rest] at h
    exact h.right.next rfl
  -- From here on only the place where the members begin matters.
  generalize hp : n + Text.size (renderHeritage c.ancestor) + 1 = p at hmembers hheritage
  have hsemi : Scanner.charAt masked p ';' = .ok false := by
    rw [Scanner.charAt_eq hmembers, head_ne_of_ident (head_membersFrom c.members rest) (by decide)]
  have hclosing := closingEnd_members c.members rest p
  obtain ⟨d, hadd, hbare⟩ := addMembers_eq lines c.members (by simp) hmembers
    { name := name.text, ancestor := c.ancestor.map PlainName.text }
  have hsegments : Scanner.segments masked p (p + Text.size (membersFrom [] c.members))
      = .ok (Scanner.segmentsFrom p 0 p (membersFrom [] c.members)) := by
    rw [Scanner.segments, Scanner.cut_eq hmembers]
    rfl
  have hafter : Scanner.afterSemi masked (p + Text.size (membersFrom [] c.members) + 3)
      = .ok (p + Text.size (membersFrom [] c.members) + 4) := by
    have hsemi : masked.Remains _ ("end".toList ++ ';' :: rest) := hmembers.right
    exact Scanner.afterSemi_eq hsemi.right
  have hstop : p + Text.size (membersFrom [] c.members) + 4 = n + Text.size c.inside := by
    have hsize := congrArg Text.size (c.inside_eq [])
    simp only [List.append_nil, Text.size_append, Text.size] at hsize
    have hspace : ' '.utf8Size = 1 := rfl
    have hend : Text.size "end;".toList = 4 := rfl
    omega
  refine ⟨{ d with
    extent := lines.extent name.start (p + Text.size (membersFrom [] c.members) + 4) }, ?_, ?_⟩
  · simp only [Scanner.class?, hskip, hmodifiers, hheritage, hsemi, Scanner.blockWords_eq hmembers,
      hclosing, hsegments, hadd, hafter, bind, Except.bind, pure, Except.pure, hstop]
    rfl
  · refine Eq.trans ?_ c.foldl_members
    rw [← hname]
    exact hbare

/-! ## Headers -/

theorem last_append {a b : Text} (ha : a.getLast?.any Text.isWordChar = false)
    (hb : b.getLast?.any Text.isWordChar = false) :
    (a ++ b).getLast?.any Text.isWordChar = false := by
  rw [List.getLast?_append]
  cases h : b.getLast? with
  | none => exact ha
  | some c => rwa [h] at hb

/-- Behind blanks a word can begin. -/
theorem last_of_blank {a : Text} (ha : ∀ c ∈ a, Text.isBlank c = true) :
    a.getLast?.any Text.isWordChar = false := by
  cases h : a.getLast? with
  | none => rfl
  | some c => exact Text.isWordChar_of_isBlank (ha c (List.mem_of_getLast? h))

/-- A word that may be left out, with the blanks behind it. -/
theorem last_of_optional {w : String} {front x rest : Text}
    (h : (Pattern.optional (.seq (.word w) .gap)).Fits front x rest) :
    x.getLast?.any Text.isWordChar = false := by
  obtain ⟨y, z, rfl, -, hz⟩ | rfl := h
  · obtain ⟨cs, c, rfl⟩ := (List.eq_nil_or_concat z).resolve_left (hz.ne_nil rfl)
    have hc : Text.isBlank c = true := by
      have hadmits := hz.admits c (by simp)
      simpa only [gap, atLeastOne, Pattern.admits, Bool.or_self] using hadmits
    rw [List.concat_eq_append, ← List.append_assoc, List.getLast?_concat]
    exact Text.isWordChar_of_isBlank hc
  · rfl

/-- A name is made of the characters of words. -/
theorem isWordChar_of_fits_name {front x rest : Text} (h : Pattern.name.Fits front x rest) :
    ∀ c ∈ x, Text.isWordChar c = true := by
  intro c hc
  have hadmits := h.admits c hc
  simp only [Pattern.name, nameStart, Pattern.admits, Bool.or_eq_true, beq_iff_eq] at hadmits
  obtain (((halpha | rfl) | hs) | hk) | hword := hadmits
  · exact Text.isWordChar_of_isIdentChar (Text.isIdentChar_of_isAlpha halpha)
  · decide
  · exact isWordChar_of_isLetter (by decide) hs
  · exact isWordChar_of_isLetter (by decide) hk
  · exact hword

/-- **What fits a header**: a name, an equals sign behind blanks, and a word for what it is. -/
theorem fits_classHeader {front x rest : Text} (h : Scanner.classHeader.Fits front x rest) :
    ∃ name blanks middle kind, x = name ++ (blanks ++ '=' :: (middle ++ kind)) ∧ name ≠ []
      ∧ (∀ c ∈ name, Text.isWordChar c = true) ∧ (∀ c ∈ blanks, Text.isBlank c = true)
      ∧ middle.getLast?.any Text.isWordChar = false ∧ (∃ w ∈ ["class", "record"], Spells w kind)
      ∧ rest.head?.any Text.isWordChar = false := by
  obtain ⟨_, _, rfl, ⟨rfl, -⟩, name, _, rfl, hname, blanks, _, rfl, hblanks, _, _, rfl,
    ⟨c, rfl, hc⟩, spaces, _, rfl, hspaces, type, _, rfl, htype, packed, _, rfl, hpacked, kind, _,
    rfl, hkind, ⟨rfl, hafter⟩⟩ := h
  obtain ⟨w, hw, hspells⟩ := spells_of_fits_words hkind
  have hlower : areWords ["class", "record"] = true := by decide
  refine ⟨name, blanks, spaces ++ (type ++ packed), kind, ?_, Fits.ne_nil hname rfl,
    isWordChar_of_fits_name hname, fits_many_char hblanks, ?_, ⟨w, hw, hspells⟩, ?_⟩
  · rw [beq_iff_eq.1 hc]
    simp
  · exact last_append (last_of_blank (fits_many_char hspaces))
      (last_append (last_of_optional htype) (last_of_optional hpacked))
  · exact nonword_after (hspells.ne_nil (areWords.ne_nil hlower hw))
      (hspells.isWordChar (areWords.isLower hlower hw)) hafter

/-- A text without an equals sign has no header, if none comes behind it either. -/
theorem absent_classHeader {front t rest : Text} (ht : '=' ∉ t)
    (hhead : rest.head?.any Text.isWordChar = false)
    (hrest : ∀ b z, (∀ c ∈ b, Text.isBlank c = true) → rest ≠ b ++ '=' :: z) :
    Scanner.classHeader.Absent front t rest := by
  intro s s' hsplit hne x r htext hfits
  obtain ⟨name, blanks, middle, kind, rfl, -, hname, hblanks, -⟩ := fits_classHeader hfits
  have htext' : s' ++ rest = (name ++ blanks) ++ '=' :: (middle ++ kind ++ r) := by
    rw [htext]
    simp
  obtain ⟨a, ha, hsign⟩ | ⟨a, hs', hsign⟩ := List.append_eq_append_iff.1 htext'
  · -- The equals sign comes behind the text: there are only blanks before it.
    obtain ⟨b, -, hb⟩ | ⟨b, hb, rfl⟩ := List.append_eq_append_iff.1 ha
    · exact hrest a _ (fun c hc => hblanks c (by simp [hb, hc])) hsign
    · cases b with
      | nil => exact hrest blanks _ hblanks hsign
      | cons d ds =>
        have hd := hname d (by simp [hb])
        rw [hsign, List.cons_append, List.cons_append, List.head?_cons, Option.any_some, hd]
          at hhead
        cases hhead
  · cases a with
    | nil => exact hrest [] _ (by simp) hsign.symm
    | cons d ds =>
      obtain ⟨rfl, -⟩ := List.cons.inj hsign
      exact ht (by simp [hsplit, hs'])

/-- Nor has a text that says of nothing that it is a class. -/
theorem absent_classHeader_of_silent {front t : Text} (ht : t.Silent ["class", "record"]) :
    Scanner.classHeader.Absent front t [] := by
  intro s s' hsplit hne x r htext hfits
  obtain ⟨name, blanks, middle, kind, rfl, -, -, -, hmiddle, ⟨w, hw, hspells⟩, hr⟩ :=
    fits_classHeader hfits
  have hlower : areWords ["class", "record"] = true := by decide
  have hbefore : (s ++ (name ++ (blanks ++ '=' :: middle))).getLast?.any Text.isWordChar
      = false := by
    have hsign : ('=' :: middle).getLast?.any Text.isWordChar = false :=
      last_append (a := ['=']) rfl hmiddle
    obtain ⟨cs, c, hlast⟩ := (List.eq_nil_or_concat ('=' :: middle)).resolve_left (by simp)
    rw [List.concat_eq_append] at hlast
    rw [hlast, List.getLast?_concat] at hsign
    rw [hlast, ← List.append_assoc, ← List.append_assoc, ← List.append_assoc, List.getLast?_concat]
    exact hsign
  have hmem := Text.mem_runs_standing hbefore (hspells.isWordChar (areWords.isLower hlower hw)) hr
  refine ht kind ?_ w hw hspells
  rw [List.append_nil] at htext
  rw [hsplit, htext]
  simpa using hmem

/-- The pattern of a header takes at least one character. -/
theorem advances_classHeader : Scanner.classHeader.Advances :=
  advances_of_needsChar rfl

/-- The word that says of a type that it is a class, no other words before it. -/
theorem takes_classWord {o : Nat} {front rest : Text}
    (hrest : rest.head?.any Text.isWordChar = false) (caps : Captures) :
    (Pattern.all [.optional (.seq (.word "type") .gap), .optional (.seq (.word "packed") .gap),
      .group 2 (.words ["class", "record"]), .boundary]).Takes o front "class".toList rest caps
      ((2, ⟨o + Text.size front, o + Text.size (front ++ "class".toList), "class".toList⟩)
          :: caps) := by
  have hspells : Spells "class" "class".toList := spells_self (by decide)
  have hnone {w : String} (hw : w.toList.all Char.isLower = true)
      (hclash : clash w "class" = true) :
      ∀ y z, "class".toList ++ rest = y ++ z → ¬ (Pattern.seq (.word w) .gap).Fits front y z := by
    rintro y z htext ⟨v, b, rfl, hv, -⟩
    rw [List.append_assoc] at htext
    exact not_spells_of_clash hw (by decide) hclash hspells htext (spells_of_fits hv)
  have hkind : (Pattern.words ["class", "record"]).Takes o front "class".toList rest caps caps :=
    takes_words (by decide) (by decide) (by decide) hspells
  have hlast : (front ++ "class".toList).getLast?.any Text.isWordChar = true := by
    rw [List.getLast?_append]
    rfl
  have hend (caps : Captures) : Pattern.boundary.Takes o (front ++ "class".toList)
      [] rest caps caps :=
    takes_boundary (by rw [hlast, hrest]; simp)
  exact (takes_optional_nil (hnone (by decide) (by decide))).after_nil
    ((takes_optional_nil (hnone (by decide) (by decide))).after_nil
      ((hkind.group 2).then_nil (hend _)))

/-- **The header of a class** is found with its name. -/
theorem Class.takes_header (c : Class) {o : Nat} {front rest : Text}
    (hfront : front.getLast?.any Text.isWordChar = false)
    (hrest : rest.head?.any Text.isWordChar = false) :
    ∃ kind, kind.text = "class".toList
      ∧ Scanner.classHeader.Takes o front (c.name.text ++ " = class".toList) rest []
        [(2, kind),
          (1, ⟨o + Text.size front, o + Text.size (front ++ c.name.text), c.name.text⟩)] := by
  have hhead (t : Text) : (c.name.text ++ t).head?.any Text.isWordChar = true := by
    obtain ⟨d, ds, htext, -⟩ := c.name.exists_cons
    rw [htext]
    exact Text.isWordChar_of_isIdentChar (c.name.isIdentChar_of_mem (by simp [htext]))
  have hstart : Pattern.boundary.Takes o front []
      (c.name.text ++ ([' '] ++ (['='] ++ ([' '] ++ "class".toList))) ++ rest) [] [] := by
    refine takes_boundary ?_
    rw [hfront, List.append_assoc, hhead]
    exact Bool.false_ne_true
  have hname := (@takes_name o front ([' '] ++ (['='] ++ ([' '] ++ "class".toList)) ++ rest)
    [] c.name rfl).group 1
  have hblank (caps : Captures) : Pattern.blanks.Takes o (front ++ c.name.text) [' ']
      (['='] ++ ([' '] ++ "class".toList) ++ rest) caps caps := takes_many (by decide) rfl
  have hsign (caps : Captures) : (Pattern.sign '=').Takes o (front ++ c.name.text ++ [' ']) ['=']
      ([' '] ++ "class".toList ++ rest) caps caps := takes_char rfl
  have hspace (caps : Captures) :
      Pattern.blanks.Takes o (front ++ c.name.text ++ [' '] ++ ['=']) [' ']
      ("class".toList ++ rest) caps caps := takes_many (by decide) rfl
  exact ⟨_, rfl, hstart.after_nil
    (hname.seq ((hblank _).seq ((hsign _).seq ((hspace _).seq (takes_classWord hrest _)))))⟩

/-! ## All classes -/

/-- No header begins where no word begins. -/
theorem absent_classHeader_nonword {c : Char} (hc : Text.isWordChar c = false) (front rest : Text) :
    Scanner.classHeader.Absent front [c] rest := by
  intro s s' hsplit hne x r htext hfits
  obtain ⟨name, blanks, middle, kind, rfl, hname, hwords, -⟩ := fits_classHeader hfits
  obtain ⟨d, ds, rfl⟩ := List.exists_cons_of_ne_nil hne
  obtain ⟨e, es, rfl⟩ := List.exists_cons_of_ne_nil hname
  have hd : d = c := List.mem_singleton.1 (hsplit ▸ List.mem_append_right s (List.mem_cons_self ..))
  have he := hwords e (by simp)
  rw [List.cons_append, List.cons_append, List.cons_append, List.cons.injEq] at htext
  rw [← htext.1, hd, hc] at he
  cases he

/-- A text that begins with a space and a word. -/
def Spaced (t : Text) : Prop :=
  ∃ c r, t = ' ' :: c :: r ∧ Text.isIdentChar c = true

/-- A spaced text does not go on with an equals sign. -/
theorem Spaced.ne {t : Text} (h : Spaced t) {b z : Text} (hb : ∀ c ∈ b, Text.isBlank c = true) :
    t ≠ b ++ '=' :: z := by
  obtain ⟨c, r, rfl, hc⟩ := h
  rintro htext
  cases b with
  | nil => simp at htext
  | cons d b =>
    cases b with
    | nil =>
      obtain ⟨-, htext⟩ := List.cons.inj htext
      obtain ⟨rfl, -⟩ := List.cons.inj htext
      exact Bool.false_ne_true hc
    | cons e b =>
      obtain ⟨-, htext⟩ := List.cons.inj htext
      obtain ⟨rfl, -⟩ := List.cons.inj htext
      have hblank := hb c (by simp)
      rw [Text.isBlank_of_isIdentChar hc] at hblank
      cases hblank

/-- A spaced text ends the word before it. -/
theorem Spaced.head {t : Text} (h : Spaced t) : t.head?.any Text.isWordChar = false := by
  obtain ⟨c, r, rfl, -⟩ := h
  rfl

/-- What is inside a class begins behind the word of its header. -/
theorem Class.head_inside (c : Class) (rest : Text) :
    (c.inside ++ rest).head?.any Text.isWordChar = false := by
  rw [c.inside_eq, renderHeritage]
  cases c.ancestor <;> rfl

/-- Some classes as they are written. -/
def classesText (cs : List Class) : Text :=
  cs.flatMap fun c => ' ' :: c.render

/-- The stretches that some classes cover behind an offset. -/
def spans (n : Nat) : List Class → List (Nat × Nat)
  | [] => []
  | c :: cs => (n + 1, n + 1 + Text.size c.render) :: spans (n + 1 + Text.size c.render) cs

/-- The classes of a unit are spaced if what follows is. -/
theorem spaced_classesText (cs : List Class) {rest : Text} (hrest : Spaced rest) :
    Spaced (classesText cs ++ rest) := by
  cases cs with
  | nil => exact hrest
  | cons c cs =>
    obtain ⟨d, ds, htext, -⟩ := c.name.exists_cons
    refine ⟨d, ds ++ (" = class".toList ++ c.inside) ++ (classesText cs ++ rest), ?_,
      c.name.isIdentChar_of_mem (by simp [htext])⟩
    show ' ' :: c.render ++ classesText cs ++ rest = _
    rw [c.render_eq, htext, List.append_assoc]
    rfl

/-- A match is the **header of a class** at an offset. -/
structure Class.FoundAt (c : Class) (n : Nat) (m : Match) : Prop where
  name : ∃ group, m.group? 1 = some group ∧ group.text = c.name.text ∧ group.start = n
  kind : ∃ group, m.group? 2 = some group ∧ group.text = "class".toList
  start : m.start = n
  stop : m.stop = n + Text.size (c.name.text ++ " = class".toList)

/-- **A class behind a space** is found, and in it no other. -/
theorem Class.exists_foundAt (c : Class) {front rest : Text} (hrest : Spaced rest) :
    ∃ m, Scanner.classHeader.matchesAfter 0 front (' ' :: c.render ++ rest)
        = m :: Scanner.classHeader.matchesAfter 0 (front ++ ' ' :: c.render) rest
      ∧ c.FoundAt (Text.size front + 1) m := by
  have htext : ' ' :: c.render ++ rest
      = [' '] ++ ((c.name.text ++ " = class".toList) ++ (c.inside ++ rest)) := by
    rw [c.render_eq]
    simp
  have hfront : front ++ ' ' :: c.render
      = front ++ [' '] ++ (c.name.text ++ " = class".toList) ++ c.inside := by
    rw [c.render_eq]
    simp
  have hspace : Text.size (front ++ [' ']) = Text.size front + 1 := Text.size_append _ _
  -- Every header has an equals sign, and inside of the class there is none.
  have hsign : '=' ∉ c.inside := c.of_inside.not_mem (by decide) (by decide)
  have hnothing : Scanner.classHeader.Absent (front ++ [' '] ++ (c.name.text ++ " = class".toList))
      c.inside rest :=
    absent_classHeader hsign hrest.head fun b z hb => hrest.ne hb
  obtain ⟨kind, hkind, htakes⟩ := @Class.takes_header c 0 (front ++ [' ']) (c.inside ++ rest)
    (by rw [List.getLast?_concat]; rfl) (c.head_inside rest)
  refine ⟨matchOf 0 (front ++ [' ']) (c.name.text ++ " = class".toList) (c.inside ++ rest)
    [(2, kind), (1, ⟨0 + Text.size (front ++ [' ']), 0 + Text.size (front ++ [' '] ++ c.name.text),
      c.name.text⟩)], ?_, ⟨_, rfl, rfl, ?_⟩, ⟨kind, rfl, hkind⟩, ?_, ?_⟩
  · rw [htext, (absent_classHeader_nonword (by decide) _ _).matchesAfter_eq advances_classHeader,
      htakes.matchesAfter_eq advances_classHeader (by simp),
      hnothing.matchesAfter_eq advances_classHeader, hfront]
  · exact (Nat.zero_add _).trans hspace
  · exact (Nat.zero_add _).trans hspace
  · show 0 + Text.size (front ++ [' '] ++ (c.name.text ++ " = class".toList)) = _
    rw [Text.size_append, hspace, Nat.zero_add]

/-- **One more class** behind the ones before it. -/
theorem Class.FoundAt.classes_eq {c : Class} {n : Nat} {m : Match} (hm : c.FoundAt n m)
    {masked rest : Text} (h : masked.Remains n (c.render ++ rest)) (lines : LineIndex) :
    ∃ d : ClassDecl, d.bare = c.declared ∧ ∀ prior ms, (∀ x ∈ prior, x.2.2 ≤ n) →
      Scanner.classes masked lines (m :: ms) prior
        = Scanner.classes masked lines ms (prior ++ [(d, n, n + Text.size c.render)]) := by
  obtain ⟨name, hname, htext, hstart⟩ := hm.name
  obtain ⟨kind, hkind, hword⟩ := hm.kind
  have hinside : masked.Remains m.stop (c.inside ++ rest) := by
    rw [c.render_eq, ← List.append_assoc, List.append_assoc] at h
    rw [hm.stop]
    exact h.right
  have hstop : m.stop + Text.size c.inside = n + Text.size c.render := by
    rw [hm.stop, c.render_eq, ← List.append_assoc, Text.size_append (_ ++ _), Nat.add_assoc]
  obtain ⟨d, hclass, hbare⟩ := c.class?_eq hinside lines htext
  rw [hstop] at hclass
  refine ⟨d, hbare, fun prior ms hprior => ?_⟩
  have hrecord : Text.eqIgnoreCase kind.text "record".toList = false := by
    rw [hword]
    decide
  -- The classes before it end before it begins.
  have huncovered : ¬ (prior.any fun x => decide (x.2.1 ≤ m.start) && decide (m.start < x.2.2))
      = true := by
    rw [List.any_eq_true]
    rintro ⟨x, hx, hcovers⟩
    have hle := hprior x hx
    simp only [Bool.and_eq_true, decide_eq_true_eq, hm.start] at hcovers
    omega
  rw [Scanner.classes, hname, hkind]
  show (if (prior.any fun x => decide (x.2.1 ≤ m.start) && decide (m.start < x.2.2)) = true
    then _ else _) = _
  rw [if_neg huncovered, hrecord]
  dsimp only
  rw [hclass, ← hstart]
  rfl

theorem classesText_cons (c : Class) (cs : List Class) :
    classesText (c :: cs) = ' ' :: c.render ++ classesText cs :=
  List.flatMap_cons

/-- **The classes of a blueprint are read back**, with the stretches that they cover. -/
theorem scanClasses_eq {masked rest : Text} (lines : LineIndex) (cs : List Class) {front : Text}
    (hmasked : masked = front ++ (classesText cs ++ rest))
    (hrest : rest.Silent ["class", "record"]) (hspaced : Spaced rest)
    {prior : List (ClassDecl × Nat × Nat)} (hprior : ∀ x ∈ prior, x.2.2 ≤ Text.size front) :
    ∃ found, Scanner.classes masked lines
        (Scanner.classHeader.matchesAfter 0 front (classesText cs ++ rest)) prior
        = .ok (prior ++ found)
      ∧ found.map (fun x => x.1.bare) = cs.map Class.declared
        ∧ found.map (fun x => x.2) = spans (Text.size front) cs := by
  induction cs generalizing front prior with
  | nil =>
    have hnone : Scanner.classHeader.matchesAfter 0 front (classesText [] ++ rest) = [] :=
      (absent_classHeader_of_silent hrest).matchesAfter_eq_nil advances_classHeader 0
    exact ⟨[], by rw [hnone, List.append_nil]; rfl, rfl, rfl⟩
  | cons c cs ih =>
    rw [classesText_cons, List.append_assoc] at hmasked ⊢
    have hsize : Text.size (front ++ ' ' :: c.render)
        = Text.size front + 1 + Text.size c.render := by
      rw [Text.size_append, Nat.add_assoc]
      rfl
    have hremains : masked.Remains (Text.size front + 1) (c.render ++ (classesText cs ++ rest)) :=
      Text.Remains.next ⟨front, hmasked, rfl⟩ rfl
    obtain ⟨m, hmatches, hm⟩ := @Class.exists_foundAt c front _ (spaced_classesText cs hspaced)
    obtain ⟨d, hbare, hclasses⟩ := hm.classes_eq hremains lines
    -- The next class begins behind this one, so what is found so far covers nothing of it.
    have hprior' :
        ∀ x ∈ prior ++ [(d, Text.size front + 1, Text.size front + 1 + Text.size c.render)],
        x.2.2 ≤ Text.size (front ++ ' ' :: c.render) := by
      intro x hx
      rw [hsize]
      obtain hx | hx := List.mem_append.1 hx
      · have hle := hprior x hx
        omega
      · exact (List.mem_singleton.1 hx ▸ Nat.le_refl _ : x.2.2
          ≤ Text.size front + 1 + Text.size c.render)
    obtain ⟨found, hfound, hdeclared, hspans⟩ := ih (by rw [hmasked, List.append_assoc]) hprior'
    refine ⟨(d, Text.size front + 1, Text.size front + 1 + Text.size c.render) :: found, ?_, ?_, ?_⟩
    · have hbefore : ∀ x ∈ prior, x.2.2 ≤ Text.size front + 1 :=
        fun x hx => Nat.le_succ_of_le (hprior x hx)
      rw [hmatches, hclasses _ _ hbefore, hfound, List.append_assoc]
      rfl
    · rw [List.map_cons, hbare, hdeclared, List.map_cons]
    · rw [List.map_cons, hspans, spans, hsize]

end Blueprint

end PascalAtlas
