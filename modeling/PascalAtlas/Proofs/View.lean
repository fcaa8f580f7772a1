import PascalAtlas.SourceUnit.OfTree

/-!
# Views of a unit

A unit holds names, which are read from tokens, and texts, which are cut from the source. A **view**
is a unit in which some of the texts have been replaced, so that two units can be compared as far as
a view shows them. Extents, bodies and the texts inside statements are in no view. `View.surface`
shows everything else: types, parameters, and of every statement its kind and what it contains.
`View.names` shows neither types nor parameters, nor what a simple statement is.

The form of a simple statement depends on its text, but its **kind** only on what stands outside
string literals (`bare_ofText`).
-/

namespace PascalAtlas

/-! ## The kind of a simple statement -/

namespace Text

/-- What fails a test is not dropped by it. -/
theorem mem_dropWhile {p : Char → Bool} {t : Text} {c : Char} (hc : c ∈ t) (hp : p c = false) :
    c ∈ t.dropWhile p := by
  rw [← List.takeWhile_append_dropWhile (p := p) (l := t), List.mem_append] at hc
  rcases hc with hc | hc
  · rw [List.all_eq_true.1 List.all_takeWhile c hc] at hp
    cases hp
  · exact hc

/-- Trimming takes nothing away but blanks. -/
theorem mem_trim {t : Text} {c : Char} (hc : c ∈ t) (hblank : isBlank c = false) : c ∈ trim t := by
  have hstart : c ∈ trimStart t := mem_dropWhile hc hblank
  rw [trim, trimEnd, List.mem_reverse]
  exact mem_dropWhile (List.mem_reverse.2 hstart) hblank

end Text

namespace SimpleForm

/-- The kind of a simple statement, without its texts. -/
def bare : SimpleForm → SimpleForm
  | .assign .. => .assign [] []
  | .call .. => .call [] []
  | .other _ => .other []

/-- A text with its **string literals emptied**; `inString` says whether one is open. -/
def emptied : Bool → Text → Text
  | _, [] => []
  | false, c :: cs => c :: emptied (c == '\'') cs
  | true, '\'' :: '\'' :: cs => emptied true cs
  | true, c :: cs => if c = '\'' then c :: emptied false cs else emptied true cs

/-- Emptying literals leaves the first character. -/
theorem head?_emptied (t : Text) : (emptied false t).head? = t.head? := by
  cases t <;> rfl

theorem isSome_cutOutside?_true (needle : Text) (depth : Int32) (c : Char) (cs : Text) :
    (cutOutside? needle depth true (c :: cs)).isSome
      = (cutOutside? needle depth (c != '\'') cs).isSome := by
  simp [cutOutside?]

theorem isSome_cutOutside?_false (needle : Text) (depth : Int32) (c : Char) (cs : Text) :
    (cutOutside? needle depth false (c :: cs)).isSome =
      if c = '\'' then (cutOutside? needle depth true cs).isSome
      else if c = '(' || c = '[' then (cutOutside? needle (depth + 1) false cs).isSome
      else if c = ')' || c = ']' then (cutOutside? needle (depth - 1) false cs).isSome
      else (depth = 0 && (Text.dropPrefix? needle (c :: cs)).isSome)
        || (cutOutside? needle depth false cs).isSome := by
  rw [cutOutside?]
  simp only [Bool.false_eq_true, if_false]
  split
  · simp
  split
  · simp
  split
  · simp
  split
  next h =>
    cases Text.dropPrefix? needle (c :: cs) <;> simp [h]
  next h => simp [h]

/-- Whether a text begins with `:=` can be told outside the literals. -/
theorem dropPrefix?_emptied {c : Char} (hc : c ≠ '\'') (cs : Text) :
    (Text.dropPrefix? ":=".toList (c :: emptied (c == '\'') cs)).isSome
      = (Text.dropPrefix? ":=".toList (c :: cs)).isSome := by
  have hfalse : (c == '\'') = false := by simpa using hc
  have hneedle (ds : Text) : (Text.dropPrefix? ":=".toList (c :: ds)).isSome
      = (c == ':' && ds.head? == some '=') := by
    show (Text.dropPrefix? [':', '='] (c :: ds)).isSome = _
    by_cases hcolon : c = ':'
    · subst hcolon
      cases ds with
      | nil => rfl
      | cons d ds =>
        by_cases hd : d = '='
        · subst hd
          rfl
        · simp [Text.dropPrefix?, hd, Ne.symm hd]
    · simp [Text.dropPrefix?, hcolon, Ne.symm hcolon]
  rw [hneedle, hneedle, hfalse, head?_emptied]

/-- Whether there is an **assignment** depends on what stands outside the literals. -/
theorem cutOutside?_emptied (depth : Int32) (inString : Bool) (t : Text) :
    (cutOutside? ":=".toList depth inString (emptied inString t)).isSome
      = (cutOutside? ":=".toList depth inString t).isSome := by
  fun_induction emptied inString t generalizing depth with
  | case1 => rfl
  | case2 c cs ih =>
    rw [isSome_cutOutside?_false, isSome_cutOutside?_false]
    by_cases hc : c = '\''
    · subst hc
      rw [if_pos rfl, if_pos rfl]
      exact ih depth
    · have hfalse : (c == '\'') = false := by simpa using hc
      rw [hfalse] at ih
      rw [if_neg hc, if_neg hc, dropPrefix?_emptied hc, hfalse, ih, ih, ih]
  | case3 cs ih =>
    rw [isSome_cutOutside?_true, ih, bne_self_eq_false, isSome_cutOutside?_false, if_pos rfl]
  | case4 cs h ih =>
    rw [isSome_cutOutside?_true, isSome_cutOutside?_true, bne_self_eq_false, ih]
  | case5 c cs h hc ih =>
    have htrue : (c != '\'') = true := by simpa using hc
    rw [isSome_cutOutside?_true, htrue, ih]

/-! The text before the first parenthesis can only be a name if no literal stands
before the parenthesis. -/

/-- The text before the first parenthesis or literal, and the text from there on. -/
theorem isCallShaped_eq (head rest : Text) (hhead : ∀ c ∈ head, c ≠ '(' ∧ c ≠ '\'')
    (hrest : ∀ c ∈ rest.head?, c = '(' ∨ c = '\'') :
    isCallShaped (head ++ rest)
      = (rest.head? != some '\''
          && (!(Text.trim head).isEmpty && (Text.trim head).all isCalleeChar)) := by
  have hparen : ∀ c ∈ head, (c != '(') = true := fun c hc => by simpa using (hhead c hc).1
  have hbefore : beforeParen (head ++ rest) = head ++ beforeParen rest :=
    List.takeWhile_append_of_pos hparen
  rw [isCallShaped, hbefore]
  cases rest with
  | nil => simp [beforeParen]
  | cons c rest =>
    rcases hrest c rfl with rfl | rfl
    · simp [beforeParen]
    · -- The quote stays when blanks are trimmed, and is part of no name.
      have hquote : '\'' ∈ Text.trim (head ++ beforeParen ('\'' :: rest)) := by
        refine Text.mem_trim ?_ (by decide)
        simp [beforeParen]
      have hall : (Text.trim (head ++ beforeParen ('\'' :: rest))).all isCalleeChar = false := by
        rw [List.all_eq_false]
        exact ⟨'\'', hquote, by decide⟩
      simp only [hall, Bool.and_false, List.head?_cons, bne_self_eq_false, Bool.false_and]

/-- Whether a text has the shape of a call does not depend on its literals. -/
theorem isCallShaped_emptied (t : Text) : isCallShaped (emptied false t) = isCallShaped t := by
  have hsplit (head rest : Text) (hhead : ∀ c ∈ head, c ≠ '\'') :
      emptied false (head ++ rest) = head ++ emptied false rest := by
    induction head with
    | nil => rfl
    | cons c head ih =>
      have hc : (c == '\'') = false := by simpa using hhead c (List.mem_cons_self ..)
      rw [List.cons_append, emptied, hc, ih fun d hd => hhead d (List.mem_cons_of_mem _ hd),
        List.cons_append]
  obtain ⟨head, rest, rfl, hhead, hrest⟩ : ∃ head rest, t = head ++ rest ∧
      (∀ c ∈ head, c ≠ '(' ∧ c ≠ '\'') ∧ ∀ c ∈ rest.head?, c = '(' ∨ c = '\'' := by
    refine ⟨t.takeWhile fun c => c != '(' && c != '\'', t.dropWhile fun c => c != '('
      && c != '\'', ?_, ?_, ?_⟩
    · rw [List.takeWhile_append_dropWhile]
    · intro c hc
      simpa using List.all_eq_true.1 List.all_takeWhile c hc
    · intro c hc
      have hnot := List.head?_dropWhile_not (fun c => c != '(' && c != '\'') t
      rw [Option.mem_def.1 hc] at hnot
      by_cases hparen : c = '('
      · exact .inl hparen
      · exact .inr (by simpa [hparen] using hnot)
  rw [hsplit head rest fun c hc => (hhead c hc).2, isCallShaped_eq head rest hhead hrest,
    isCallShaped_eq head _ hhead (by rwa [head?_emptied]), head?_emptied]

/-- The **kind** of a statement depends on what stands outside the string literals. -/
theorem bare_ofText {a b : Text} (h : emptied false (Text.trim a) = emptied false (Text.trim b)) :
    (ofText a).bare = (ofText b).bare := by
  have hkind (t : Text) : (ofText t).bare =
      if (cutOutside? ":=".toList 0 false (Text.trim t)).isSome then .assign [] []
      else if isCallShaped (Text.trim t) then .call [] [] else .other [] := by
    rw [ofText]
    cases cutOutside? ":=".toList 0 false (Text.trim t) with
    | some cut => rfl
    | none =>
      simp only [Option.isSome_none, Bool.false_eq_true, if_false]
      split <;> rfl
  rw [hkind, hkind, ← cutOutside?_emptied, ← isCallShaped_emptied, h, cutOutside?_emptied,
    isCallShaped_emptied]

end SimpleForm

/-! ## Views -/

/-- What is made of the types, parameters and simple statements of a unit. Where a
declaration leaves out its type or its parameters those of another one stand in, and a view
must not tell that apart. -/
structure View where
  type : Text → Text
  params : List Param → List Param
  form : SimpleForm → SimpleForm
  type_or : ∀ {a a' b b' : Text}, type a = type a' → type b = type b' →
    type (if a.isEmpty then b else a) = type (if a'.isEmpty then b' else a')
  params_or : ∀ {a a' b b' : List Param}, params a = params a' → params b = params b' →
    params (if a.isEmpty then b else a) = params (if a'.isEmpty then b' else a')

/-- The kind of a block, without its header. -/
def BlockShape.bare : BlockShape → BlockShape
  | .compound => .compound
  | .conditional _ => .conditional []
  | .whileLoop _ => .whileLoop []
  | .forLoop _ => .forLoop []
  | .withScope _ => .withScope []
  | .protected_ => .protected_
  | .selection _ => .selection []
  | .repeatLoop _ => .repeatLoop []

namespace View

/-- The view of all that is declared, with the kinds of all statements. -/
def surface : View where
  type := id
  params := id
  form := SimpleForm.bare
  type_or := by rintro a _ b _ rfl rfl; rfl
  params_or := by rintro a _ b _ rfl rfl; rfl

/-- The view of what is read from tokens alone. -/
def names : View where
  type _ := []
  params _ := []
  form _ := .other []
  type_or _ _ := rfl
  params_or _ _ := rfl

mutual

/-- A statement in a view. -/
def statement (v : View) : Statement → Statement
  | .block shape body _ => .block shape.bare (v.statements body) {}
  | .simple form _ => .simple (v.form form) {}

/-- Some statements in a view. -/
def statements (v : View) : List Statement → List Statement
  | [] => []
  | s :: ss => v.statement s :: v.statements ss

end

/-- A routine in a view. -/
def routine (v : View) (r : Routine) : Routine :=
  { name := r.name
    kind := r.kind
    parameters := v.params r.parameters
    returnType := v.type r.returnType
    hasBody := r.hasBody
    statements := v.statements r.statements }

/-- A field in a view. -/
def field (v : View) (f : FieldDecl) : FieldDecl :=
  { name := f.name, typeName := v.type f.typeName }

/-- A property in a view. -/
def property (v : View) (p : PropertyDecl) : PropertyDecl :=
  { p with typeName := v.type p.typeName }

/-- A class in a view. -/
def classDecl (v : View) (c : ClassDecl) : ClassDecl :=
  { name := c.name
    ancestor := c.ancestor
    isRecord := c.isRecord
    fields := c.fields.map v.field
    properties := c.properties.map v.property
    methods := c.methods.map v.routine }

/-- A unit in a view. -/
def unit (v : View) (u : SourceUnit) : SourceUnit :=
  { name := u.name
    uses := u.uses
    classes := u.classes.map v.classDecl
    procedures := u.procedures.map v.routine }

/-! ## Attaching implementations -/

variable {v : View}

/-- Statements are viewed one by one. -/
theorem statements_append (a b : List Statement) :
    v.statements (a ++ b) = v.statements a ++ v.statements b := by
  induction a with
  | nil => rfl
  | cons s a ih => rw [List.cons_append, statements, ih, statements, List.cons_append]

/-- Two routines that look the same in a view complete declarations in the same way. -/
theorem routine_completeWith {d d' r r' : Routine} (hd : v.routine d = v.routine d')
    (hr : v.routine r = v.routine r') :
    v.routine (d.completeWith r) = v.routine (d'.completeWith r') := by
  obtain ⟨hname, -, hparams, htype, -, -, -, -⟩ := Routine.mk.inj hd
  obtain ⟨-, hkind, hparams', htype', hbody, -, hstatements, -⟩ := Routine.mk.inj hr
  rw [routine, routine, Routine.mk.injEq]
  exact ⟨hname, hkind, v.params_or hparams' hparams, v.type_or htype' htype, hbody, rfl,
    hstatements, rfl⟩

/-- Whether a routine awaits a body is in every view. -/
theorem awaits_eq {d d' : Routine} (hd : v.routine d = v.routine d') (name : Text) :
    d.awaits name = d'.awaits name := by
  obtain ⟨hname, -, -, -, hbody, -, -, -⟩ := Routine.mk.inj hd
  rw [Routine.awaits, hname, hbody, Routine.awaits]

/-- Which routine takes a body is in every view. -/
theorem fill?_eq {r r' : Routine} (hr : v.routine r = v.routine r') {slots slots' : List Routine}
    (hslots : slots.map v.routine = slots'.map v.routine) :
    (r.fill? slots).map (List.map v.routine) = (r'.fill? slots').map (List.map v.routine) := by
  have hname : r.name = r'.name := (Routine.mk.inj hr).1
  induction slots generalizing slots' with
  | nil =>
    obtain rfl := List.map_eq_nil_iff.1 hslots.symm
    rfl
  | cons d ds ih =>
    cases slots' with
    | nil => cases hslots
    | cons d' ds' =>
      obtain ⟨hd, hds⟩ := List.cons.inj hslots
      rw [Routine.fill?, Routine.fill?, hname, awaits_eq hd]
      split
      · simp only [Option.map_some, List.map_cons, routine_completeWith hd hr, hds]
      · have hrest := ih hds
        cases h : r.fill? ds <;> cases h' : r'.fill? ds' <;> rw [h, h'] at hrest <;> simp_all

/-- Attaching a routine goes the same way in every view. -/
theorem attachTo_eq {r r' : Routine} (hr : v.routine r = v.routine r') {slots slots' : List Routine}
    (hslots : slots.map v.routine = slots'.map v.routine) :
    (r.attachTo slots).map v.routine = (r'.attachTo slots').map v.routine := by
  have hbody : r.hasBody = r'.hasBody := (Routine.mk.inj hr).2.2.2.2.1
  have happend : (slots ++ [r]).map v.routine = (slots' ++ [r']).map v.routine := by
    rw [List.map_append, List.map_append, hslots, List.map_singleton, List.map_singleton, hr]
  have hfill := fill?_eq hr hslots
  rw [Routine.attachTo, Routine.attachTo, hbody]
  split
  · cases h : r.fill? slots <;> cases h' : r'.fill? slots' <;> rw [h, h'] at hfill <;> simp_all
  · exact happend

/-- Which class is changed is in every view. -/
theorem updateClass?_eq {f f' : ClassDecl → ClassDecl}
    (hf : ∀ {c c' : ClassDecl}, v.classDecl c = v.classDecl c' →
      v.classDecl (f c) = v.classDecl (f' c')) (owner : Text) {classes classes' : List ClassDecl}
    (h : classes.map v.classDecl = classes'.map v.classDecl) :
    (SourceUnit.updateClass? owner f classes).map (List.map v.classDecl)
      = (SourceUnit.updateClass? owner f' classes').map (List.map v.classDecl) := by
  induction classes generalizing classes' with
  | nil =>
    obtain rfl := List.map_eq_nil_iff.1 h.symm
    rfl
  | cons c cs ih =>
    cases classes' with
    | nil => cases h
    | cons c' cs' =>
      obtain ⟨hc, hcs⟩ := List.cons.inj h
      have hname : c.name = c'.name := (ClassDecl.mk.inj hc).1
      rw [SourceUnit.updateClass?, SourceUnit.updateClass?, hname]
      split
      · simp only [Option.map_some, List.map_cons, hf hc, hcs]
      · have hrest := ih hcs
        cases h : SourceUnit.updateClass? owner f cs <;> cases h' :
          SourceUnit.updateClass? owner f' cs' <;>
          rw [h, h'] at hrest <;> simp_all

/-- **Attaching** what looks the same to what looks the same gives what looks the same. -/
theorem attach_eq {u u' : SourceUnit} (hu : v.unit u = v.unit u') {r r' : Routine}
    (hr : v.routine r = v.routine r') (owner : Option Text) :
    v.unit (u.attach owner r) = v.unit (u'.attach owner r') := by
  obtain ⟨hname, huses, hclasses, hprocedures⟩ := SourceUnit.mk.inj hu
  cases owner with
  | none =>
    rw [SourceUnit.attach, SourceUnit.attach, unit, unit, SourceUnit.mk.injEq]
    exact ⟨hname, huses, hclasses, attachTo_eq hr hprocedures⟩
  | some owner =>
    have hmethod {c c' : ClassDecl} (hc : v.classDecl c = v.classDecl c') :
        v.classDecl { c with methods := r.attachTo c.methods }
          = v.classDecl { c' with methods := r'.attachTo c'.methods } := by
      obtain ⟨h1, h2, h3, h4, h5, hmethods, -⟩ := ClassDecl.mk.inj hc
      rw [classDecl, classDecl, ClassDecl.mk.injEq]
      exact ⟨h1, h2, h3, h4, h5, attachTo_eq hr hmethods, rfl⟩
    have hfull : v.routine { r with name := owner ++ ['.'] ++ r.name }
        = v.routine { r' with name := owner ++ ['.'] ++ r'.name } := by
      obtain ⟨hname, hkind, hparams, htype, hbody, -, hstatements, -⟩ := Routine.mk.inj hr
      rw [routine, routine, Routine.mk.injEq]
      exact ⟨by rw [hname], hkind, hparams, htype, hbody, rfl, hstatements, rfl⟩
    -- Whether the class is there depends on names alone, so it is there in both or in neither.
    have hupdate := updateClass?_eq hmethod owner hclasses
    rw [SourceUnit.attach, SourceUnit.attach]
    cases h : SourceUnit.updateClass? owner
      (fun c => { c with methods := r.attachTo c.methods }) u.classes <;>
      cases h' : SourceUnit.updateClass? owner
      (fun c => { c with methods := r'.attachTo c.methods }) u'.classes <;>
      rw [h, h'] at hupdate
    · dsimp only
      rw [unit, unit, SourceUnit.mk.injEq]
      refine ⟨hname, huses, hclasses, ?_⟩
      rw [List.map_append, List.map_append, hprocedures, List.map_singleton,
        List.map_singleton, hfull]
    · cases hupdate
    · cases hupdate
    · dsimp only
      rw [unit, unit, SourceUnit.mk.injEq]
      exact ⟨hname, huses, Option.some.inj hupdate, hprocedures⟩

end View

end PascalAtlas
