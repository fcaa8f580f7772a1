import PascalAtlas.Proofs.Told

/-!
# Blueprints are read back

The **round trip**: the source text of a blueprint is read without an error, and the unit that is
built from it is the one that the blueprint describes (`Blueprint.ofSource_render`).

Reading the tree gives the classes with headings, and a list of routines: first the headings of the
procedures, then all implementations, each with its class. What is left to show is that each
implementation finds its heading. Those before it have their bodies already, so it is always the
first one that awaits a body under its name.
-/

namespace PascalAtlas

/-! ## Attaching implementations -/

/-- Which heading takes a body does not depend on extents. -/
theorem Routine.bare_fill? (r : Routine) (slots : List Routine) :
    (r.fill? slots).map (List.map bare) = r.bare.fill? (slots.map bare) := by
  induction slots with
  | nil => rfl
  | cons d ds ih =>
    have hawaits : d.bare.awaits r.bare.name = d.awaits r.name := rfl
    rw [fill?, List.map_cons, fill?, hawaits, ← ih]
    split
    · rfl
    · cases r.fill? ds <;> rfl

/-- Nor does what is attached. -/
theorem Routine.bare_attachTo (r : Routine) (slots : List Routine) :
    (r.attachTo slots).map bare = r.bare.attachTo (slots.map bare) := by
  have hbody : r.bare.hasBody = r.hasBody := rfl
  rw [attachTo, attachTo, hbody, ← bare_fill?]
  split
  · cases r.fill? slots with
    | none => exact List.map_append
    | some filled => rfl
  · exact List.map_append

namespace SourceUnit

/-- What a unit declares does not depend on the statements and extents of what is attached to it. -/
theorem bare_attach (u : SourceUnit) (owner : Option Text) (r : Routine) :
    (u.attach owner r).bare = u.bare.attach owner r.bare := by
  cases owner with
  | none =>
    rw [attach, attach, bare, bare, Routine.bare_attachTo]
  | some owner =>
    -- A class is looked up by its name, which stays.
    have hupdate (classes : List ClassDecl) :
        (updateClass? owner (fun c => { c with methods := r.attachTo c.methods }) classes).map
          (List.map ClassDecl.bare)
          = updateClass? owner (fun c => { c with methods := r.bare.attachTo c.methods })
            (classes.map ClassDecl.bare) := by
      induction classes with
      | nil => rfl
      | cons c cs ih =>
        have hname : c.bare.name = c.name := rfl
        rw [updateClass?, List.map_cons, updateClass?, hname, ← ih]
        split
        · rw [Option.map_some, List.map_cons, ClassDecl.bare, Routine.bare_attachTo]
          rfl
        · cases updateClass? owner _ cs <;> rfl
    have hclasses : u.bare.classes = u.classes.map ClassDecl.bare := rfl
    rw [attach, attach, hclasses, ← hupdate]
    cases updateClass? owner (fun c => { c with methods := r.attachTo c.methods }) u.classes with
    | none =>
      show bare _ = _
      rw [bare, List.map_append]
      rfl
    | some classes => rfl

/-- Nor does attaching one routine after the other. -/
theorem bare_foldl_attach (found : List (Option Text × Routine)) (u : SourceUnit) :
    (found.foldl (fun u x => u.attach x.1 x.2) u).bare
      = (found.map fun x => (x.1, x.2.bare)).foldl (fun u x => u.attach x.1 x.2) u.bare := by
  induction found generalizing u with
  | nil => rfl
  | cons x found ih => rw [List.foldl_cons, ih, List.map_cons, List.foldl_cons, bare_attach]

/-- The class that changes is the first one of its name. -/
theorem updateClass?_append {name : Text} {f : ClassDecl → ClassDecl} {done : List ClassDecl}
    {c : ClassDecl} (hdone : ∀ d ∈ done, Text.eqIgnoreCase d.name name = false)
    (hc : Text.eqIgnoreCase c.name name = true) (rest : List ClassDecl) :
    updateClass? name f (done ++ c :: rest) = some (done ++ f c :: rest) := by
  induction done with
  | nil => rw [List.nil_append, updateClass?, if_pos hc, List.nil_append]
  | cons d ds ih =>
    rw [List.cons_append, updateClass?, if_neg (by simp [hdone d]),
      ih fun e he => hdone e (by simp [he])]
    rfl

/-- The implementations of the methods of one class. -/
theorem foldl_attach_class (rs : List Routine) {u : SourceUnit} {done rest : List ClassDecl}
    {c : ClassDecl} (hu : u.classes = done ++ c :: rest)
    (hdone : ∀ d ∈ done, Text.eqIgnoreCase d.name c.name = false) :
    (rs.map fun r => (some c.name, r)).foldl (fun u x => u.attach x.1 x.2) u
      = { u with classes := done
          ++ { c with methods := rs.foldl (fun slots r => r.attachTo slots) c.methods }
          :: rest } := by
  induction rs generalizing u c with
  | nil =>
    rw [List.map_nil, List.foldl_nil, List.foldl_nil, ← hu]
  | cons r rs ih =>
    have hattach : u.attach (some c.name) r
        = { u with classes := done ++ { c with methods := r.attachTo c.methods } :: rest } := by
      rw [attach, hu, updateClass?_append hdone (beq_self_eq_true _)]
    rw [List.map_cons, List.foldl_cons, hattach]
    exact ih (c := { c with methods := r.attachTo c.methods }) rfl hdone

/-- Routines without a class go to the procedures of the unit. -/
theorem foldl_attach_procedures (rs : List Routine) (u : SourceUnit) :
    (rs.map fun r => (none, r)).foldl (fun u (x : Option Text × Routine) => u.attach x.1 x.2) u
      = { u with procedures := rs.foldl (fun slots r => r.attachTo slots) u.procedures } := by
  induction rs generalizing u with
  | nil => rfl
  | cons r rs ih =>
    rw [List.map_cons, List.foldl_cons, ih]
    rfl

end SourceUnit

namespace Blueprint

/-- Headings are put one after the other. -/
theorem foldl_attachTo_declared (rs : List Routine) (slots : List PascalAtlas.Routine) :
    (rs.map Routine.declared).foldl (fun slots r => r.attachTo slots) slots
      = slots ++ rs.map Routine.declared := by
  induction rs generalizing slots with
  | nil => exact (List.append_nil _).symm
  | cons r rs ih =>
    rw [List.map_cons, List.foldl_cons, ih]
    show (slots ++ [r.declared]) ++ _ = _
    rw [List.append_assoc]
    rfl

/-- A body finds its heading behind those that have their bodies already. -/
theorem Routine.attachTo_declared (r : Routine) {done : List PascalAtlas.Routine}
    (hdone : ∀ d ∈ done, d.hasBody = true) (rest : List PascalAtlas.Routine) :
    r.routine.attachTo (done ++ r.declared :: rest) = done ++ r.routine :: rest := by
  -- The body comes with the same heading, so the declaration that it completes is
  -- the routine itself.
  have hcomplete : r.declared.completeWith r.routine = r.routine := by
    have hparams : (if r.routine.parameters.isEmpty then r.declared.parameters
          else r.routine.parameters)
        = r.declared.parameters := ite_self _
    have htype : (if r.routine.returnType.isEmpty then r.declared.returnType
          else r.routine.returnType)
        = r.declared.returnType := ite_self _
    rw [PascalAtlas.Routine.completeWith, hparams, htype]
    rfl
  have hfill : r.routine.fill? (done ++ r.declared :: rest) = some (done ++ r.routine :: rest) := by
    induction done with
    | nil =>
      have hawaits : r.declared.awaits r.routine.name = true := beq_self_eq_true _
      rw [List.nil_append, PascalAtlas.Routine.fill?, if_pos hawaits, hcomplete, List.nil_append]
    | cons d ds ih =>
      -- What has its body does not wait for one.
      have hawaits : ¬ d.awaits r.routine.name = true := by
        rw [PascalAtlas.Routine.awaits, hdone d (by simp)]
        simp
      rw [List.cons_append, PascalAtlas.Routine.fill?, if_neg hawaits,
        ih fun e he => hdone e (by simp [he])]
      rfl
  show (r.routine.fill? _).getD _ = _
  rw [hfill]
  rfl

/-- **Every body finds its heading.** -/
theorem foldl_attachTo_routine (rs : List Routine) {done : List PascalAtlas.Routine}
    (hdone : ∀ d ∈ done, d.hasBody = true) :
    (rs.map Routine.routine).foldl (fun slots r => r.attachTo slots)
      (done ++ rs.map Routine.declared)
      = done ++ rs.map Routine.routine := by
  induction rs generalizing done with
  | nil => rfl
  | cons r rs ih =>
    have hdone' : ∀ d ∈ done ++ [r.routine], d.hasBody = true := by
      intro d hd
      obtain hd | hd := List.mem_append.1 hd
      · exact hdone d hd
      · rw [List.mem_singleton.1 hd]
        rfl
    show (rs.map Routine.routine).foldl _
      (r.routine.attachTo (done ++ r.declared :: rs.map Routine.declared)) = _
    rw [r.attachTo_declared hdone, List.append_cons, ih hdone', List.map_cons, ← List.append_cons]

/-- A class with all its bodies. -/
theorem Class.foldl_methods (c : Class) :
    { c.declared with
      methods := (c.methods.map Routine.routine).foldl (fun slots r => r.attachTo slots)
        c.declared.methods }
      = c.classDecl := by
  have hmethods := @foldl_attachTo_routine c.methods [] (by simp)
  rw [List.nil_append, List.nil_append] at hmethods
  show ClassDecl.mk _ _ _ _ _ (List.foldl _ (c.methods.map Routine.declared) _) _ = _
  rw [hmethods]
  rfl

/-- The methods of all classes. -/
theorem foldl_attach_classes (classes : List Class) {done : List Class} {u : SourceUnit}
    (hu : u.classes = done.map Class.classDecl ++ classes.map Class.declared)
    (hdistinct : (done ++ classes).Pairwise fun c d => Text.eqIgnoreCase c.name.text d.name.text
      = false) :
    (classes.flatMap fun c => c.methods.map fun m => (some c.name.text, m.routine)).foldl
        (fun u (x : Option Text × PascalAtlas.Routine) => u.attach x.1 x.2) u
      = { u with classes := (done ++ classes).map Class.classDecl } := by
  induction classes generalizing done u with
  | nil =>
    rw [List.flatMap_nil, List.foldl_nil, List.append_nil, ← List.append_nil (done.map _),
      ← List.map_nil, ← hu]
  | cons c cs ih =>
    have hothers : ∀ d ∈ done.map Class.classDecl,
        Text.eqIgnoreCase d.name c.declared.name = false := by
      intro d hd
      obtain ⟨d, hmem, rfl⟩ := List.mem_map.1 hd
      exact (List.pairwise_append.1 hdistinct).2.2 d hmem c (by simp)
    -- The methods of one class are attached to it, and to no class before it.
    have hclass := SourceUnit.foldl_attach_class (c.methods.map Routine.routine) hu hothers
    rw [List.map_map, c.foldl_methods] at hclass
    have hmethods : (c.methods.map fun m => (some c.name.text, m.routine))
        = c.methods.map ((fun r => (some c.declared.name, r)) ∘ Routine.routine) := rfl
    rw [List.flatMap_cons, List.foldl_append, hmethods, hclass, @ih (done ++ [c])]
    · rw [List.append_assoc]
      rfl
    · rw [List.map_append, List.append_assoc]
      rfl
    · rw [List.append_assoc]
      exact hdistinct

/-! ## The name and the used units -/

/-- The header of a unit tells its name. -/
theorem tells_headerPiece (name : DottedName) :
    (headerPiece name).Tells .unitHeader nameOf [name.text] := by
  refine Piece.tells_node fun s n _ => ?_
  simp only [nameOf, Tree.tokens, Tree.children, Piece.trees_concat_cons, Piece.trees_spaced,
    List.filterMap_append, Tree.filterMap_token? name.flat_piece]
  refine name.dottedName_piece _ ?_
  rintro ⟨⟩

/-- What ends the name of a used unit. -/
def separatesUnits (t : Token) : Bool :=
  t.kind == .symbol .comma || t.kind == .symbol .semi

/-- There is no separator inside the name of a unit. -/
theorem not_separatesUnits (d : DottedName) (n : Nat) :
    ∀ t ∈ d.piece.tokens n, separatesUnits t = false := by
  intro t ht
  obtain hkind | ⟨name, hkind⟩ := (d.flat_piece n).2 t ht <;> rw [separatesUnits, hkind] <;> rfl

/-- **The names of the used units** are read back. -/
theorem map_dottedName (first : DottedName) (others : List DottedName) (n m : Nat) (semi : Token)
    (hsemi : semi.kind = .symbol .semi) :
    (Text.splitBy separatesUnits (first.piece.tokens n
        ++ ((Piece.concat (others.map fun d => .concat [.symbol .comma, d.piece.spaced])).tokens m
          ++ [semi]))).map
        Source.dottedName
      = (first :: others).map DottedName.text ++ [[]] := by
  have hdotted (d : DottedName) (n : Nat) : Source.dottedName (d.piece.tokens n) = d.text := by
    have h := @DottedName.dottedName_piece d n [] (by rintro ⟨⟩)
    rwa [List.append_nil] at h
  induction others generalizing first n m with
  | nil =>
    have hlast : separatesUnits semi = true := by
      rw [separatesUnits, hsemi]
      rfl
    show (Text.splitBy _ (_ ++ semi :: [])).map _ = _
    rw [Text.splitBy_append (not_separatesUnits first n) hlast, List.map_cons, hdotted]
    rfl
  | cons d ds ih =>
    rw [List.map_cons, Piece.concat, Piece.tokens_append, List.append_assoc]
    show (Text.splitBy _ (_ ++ (⟨.symbol .comma, _, _⟩ : Token)
      :: ((d.piece.tokens _ ++ []) ++ _))).map _ = _
    rw [Text.splitBy_append (not_separatesUnits first n) rfl, List.map_cons, hdotted,
      List.append_nil, ih]
    rfl

/-- A list of units tells their names, in order. -/
theorem tells_usesPiece (used : List DottedName) :
    (usesPiece used).Tells .usesClause (fun _ t => Source.usedUnits t)
      (match used with
        | [] => []
        | _ :: _ => [used.map DottedName.text]) := by
  cases used with
  | nil => exact Piece.tells_blank _
  | cons first others =>
    refine (Piece.tells_node fun s n _ => ?_).spaced
    have hflat : (Piece.concat (others.map fun d => .concat [.symbol .comma, d.piece.spaced])).Flat
        fun _ => True := by
      refine Piece.flat_concat fun p hp => ?_
      obtain ⟨d, -, rfl⟩ := List.mem_map.1 hp
      have hd : d.piece.Flat fun _ => True := fun n => ⟨(d.flat_piece n).1, fun _ _ => trivial⟩
      exact (Piece.flat_token trivial _).append
        (((Piece.flat_blank _).append hd).append (Piece.flat_blank _))
    -- Behind the last name the `;` gives an empty one, which is left out.
    have hkept : ((first :: others).map DottedName.text ++ [[]]).filter (fun name => !name.isEmpty)
        = (first :: others).map DottedName.text := by
      rw [List.filter_append, List.filter_eq_self.2]
      · exact List.append_nil _
      · intro name hname
        obtain ⟨d, -, rfl⟩ := List.mem_map.1 hname
        obtain ⟨front, x, htext⟩ := d.exists_last
        simpa [htext] using fun _ => x.ne_nil
    simp only [Source.usedUnits, Tree.tokens, Tree.children, Piece.trees_concat_cons,
      Piece.trees_spaced, List.filterMap_append, Tree.filterMap_token? first.flat_piece,
      Tree.filterMap_token? hflat]
    exact (congrArg (List.filter _)
      (map_dottedName first others _ _ ⟨.symbol .semi, _, _⟩ rfl)).trans hkept

theorem tells_usesPiece_other {α : Type} {kind : NodeKind} {f : Source → Tree → α}
    (hkind : (.usesClause == kind) = false) (used : List DottedName) :
    (usesPiece used).Tells kind f [] := by
  cases used with
  | nil => exact Piece.tells_blank _
  | cons first others => exact (Piece.tells_other hkind).spaced

/-! ## The whole unit -/

/-- A unit tells what its parts tell. -/
theorem tells_unit {α : Type} {kind : NodeKind} {f : Source → Tree → α} {as bs : List α}
    {v : Class → List α} {w : Routine → List α} {x : Option PlainName × Routine → List α}
    (u : Blueprint) (hheader : (headerPiece u.name).Tells kind f as)
    (huses : (usesPiece u.uses).Tells kind f bs)
    (hclass : ∀ c : Class, c.piece.Tells kind f (v c))
    (hdeclared : ∀ r : Routine, r.declaredPiece.Tells kind f (w r))
    (hbody : ∀ i : Option PlainName × Routine, (i.2.piece i.1).Tells kind f (x i)) :
    u.piece.Tells kind f
      (as ++ (bs ++ ((u.classes.flatMap v ++ u.procedures.flatMap w)
        ++ u.implementations.flatMap x))) := by
  have htypes : (typesPiece u.classes).Tells kind f (u.classes.flatMap v) := by
    cases u.classes with
    | nil => exact Piece.tells_blank _
    | cons c cs =>
      have hlist := (Piece.tells_concat (c :: cs) fun d _ => (hclass d).spaced).append
        (Piece.tells_blank [])
      rw [List.append_nil] at hlist
      exact ((Piece.tells_token _ _).append hlist).spaced
  have hinterface := htypes.append
    ((Piece.tells_concat u.procedures fun r _ => (hdeclared r).spaced).append
      (Piece.tells_blank []))
  rw [List.append_nil] at hinterface
  have hbodies := (Piece.tells_concat u.implementations fun i _ => (hbody i).spaced).append
    ((Piece.tells_token (.keyword .kwEnd) Keyword.kwEnd.spelling.toList).spaced.append
      ((Piece.tells_token (.symbol .dot) Symbol.dot.spelling.toList).append (Piece.tells_blank [])))
  rw [List.append_nil, List.append_nil, List.append_nil] at hbodies
  exact hheader.append (huses.append ((Piece.tells_token _ _).spaced.append (hinterface.append
    ((Piece.tells_token _ _).spaced.append hbodies))))

/-- What a blueprint tells is what is found under the root of its tree. -/
theorem map_declarations {α : Type} {kind : NodeKind} {f : Source → Tree → α} {xs : List α}
    (u : Blueprint) {tree : SyntaxTree} (hroot : tree.root.children = u.piece.trees 0)
    (h : u.piece.Tells kind f xs) :
    (SourceUnit.declarations kind tree).map (f (Source.ofText u.render)) = xs := by
  have hstands : u.render.StandsAt 0 u.piece.text := ⟨[], [], by rw [u.text_piece]; simp, rfl⟩
  rw [SourceUnit.declarations, Tree.map_nodes, hroot]
  exact h (Source.ofText u.render) 0 hstands

/-- What is read from some trees, if something is read from each. -/
theorem map_filterMap_eq {β γ : Type} {g : Tree → Option β} {b : β → γ} {ts : List Tree}
    {ys : List γ} (h : ts.map (fun t => (g t).map b) = ys.map some) :
    (ts.filterMap g).map b = ys := by
  rw [List.map_filterMap]
  calc ts.filterMap (fun t => (g t).map b) = (ts.map fun t => (g t).map b).filterMap id := by
        rw [List.filterMap_map]
        rfl
    _ = (ys.map some).filterMap id := by rw [h]
    _ = ys := by
        rw [List.filterMap_map]
        exact List.filterMap_some

section

variable (u : Blueprint) {tree : SyntaxTree} (hroot : tree.root.children = u.piece.trees 0)
include hroot

/-- The tree of a blueprint gives back **its name**. -/
theorem nameIn_eq (fallback : Text) : SourceUnit.nameIn tree fallback = u.name.text := by
  have hnames := u.map_declarations hroot (u.tells_unit (tells_headerPiece u.name)
    (tells_usesPiece_other (by decide) _) (fun _ => Piece.tells_other (by decide))
    (fun _ => Piece.tells_other (by decide)) fun _ => Piece.tells_other (by decide))
  rw [List.flatMap_eq_nil_iff.2 fun _ _ => rfl, List.flatMap_eq_nil_iff.2 fun _ _ => rfl,
    List.flatMap_eq_nil_iff.2 fun _ _ => rfl] at hnames
  have hkept : ([u.name.text].filter fun name => !name.isEmpty) = [u.name.text] := by
    obtain ⟨front, x, htext⟩ := u.name.exists_last
    refine List.filter_cons_of_pos ?_
    simpa [htext] using fun _ => x.ne_nil
  show (((SourceUnit.declarations .unitHeader tree).map (nameOf (Source.ofText u.render))).filter
    _).getLast?.getD _ = _
  rw [hnames]
  exact congrArg (fun names : List Text => names.getLast?.getD fallback) hkept

/-- The tree gives back **the units it uses**. -/
theorem uses_eq :
    (SourceUnit.declarations .usesClause tree).flatMap Source.usedUnits
      = u.uses.map DottedName.text := by
  have hused := u.map_declarations hroot
    (u.tells_unit (Piece.tells_other (by decide)) (tells_usesPiece u.uses)
      (fun _ => Piece.tells_other (by decide)) (fun _ => Piece.tells_other (by decide)) fun _ =>
    Piece.tells_other (by decide))
  rw [List.flatMap_eq_nil_iff.2 fun _ _ => rfl, List.flatMap_eq_nil_iff.2 fun _ _ => rfl,
    List.flatMap_eq_nil_iff.2 fun _ _ => rfl, List.append_nil, List.append_nil,
    List.nil_append] at hused
  rw [List.flatMap_def, hused]
  cases u.uses with
  | nil => rfl
  | cons first others => exact List.append_nil _

/-- The tree gives back **its classes**, with the headings of their methods. -/
theorem classes_eq :
    ((SourceUnit.declarations .typeDecl tree).filterMap (Source.ofText u.render).class?).map
      ClassDecl.bare
      = u.classes.map Class.declared := by
  have hclasses := u.map_declarations hroot (u.tells_unit (Piece.tells_other (by decide))
    (tells_usesPiece_other (by decide) _) Class.tells_piece (fun _ => Piece.tells_other (by decide))
    fun _ => Piece.tells_other (by decide))
  refine map_filterMap_eq (hclasses.trans ?_)
  rw [List.flatMap_eq_nil_iff.2 fun _ _ => rfl, List.flatMap_eq_nil_iff.2 fun _ _ => rfl,
    List.append_nil, List.append_nil, List.nil_append, List.nil_append,
    ← List.map_eq_flatMap, List.map_map]
  rfl

/-- The routines in the order in which they are written: headings, methods, procedures. -/
theorem routines_eq :
    ((SourceUnit.declarations .routineDecl tree).filterMap (Source.ofText u.render).routine?).map
        (fun x => (x.1, x.2.bare))
      = (u.procedures.map fun r => (none, r.declared))
        ++ u.implementations.map fun i => (i.1.map PlainName.text, i.2.routine) := by
  have hroutines := u.map_declarations hroot
    (u.tells_unit (Piece.tells_other (by decide)) (tells_usesPiece_other (by decide) _)
      (fun _ => Piece.tells_other (by decide)) Routine.tells_declaredPiece fun i =>
    i.2.tells_piece i.1)
  refine map_filterMap_eq (hroutines.trans ?_)
  rw [List.flatMap_eq_nil_iff.2 fun _ _ => rfl, List.nil_append, List.nil_append, List.nil_append,
    ← List.map_eq_flatMap, ← List.map_eq_flatMap, List.map_append, List.map_map, List.map_map]
  rfl

end

/-- Attaching the routines of a blueprint to its classes. -/
theorem foldl_attach_eq (u : Blueprint) :
    ((u.procedures.map fun r => ((none : Option Text), r.declared))
        ++ u.implementations.map fun i => (i.1.map PlainName.text, i.2.routine)).foldl
        (fun unit x => unit.attach x.1 x.2)
        { name := u.name.text, uses := u.uses.map DottedName.text,
            classes := u.classes.map Class.declared }
      = u.unit := by
  have hheadings : (u.procedures.map fun r => ((none : Option Text), r.declared))
      = (u.procedures.map Routine.declared).map fun r => (none, r) := by
    rw [List.map_map]
    rfl
  have hbodies : (u.implementations.map fun i => (i.1.map PlainName.text, i.2.routine))
      = (u.classes.flatMap fun c => c.methods.map fun m => (some c.name.text, m.routine))
        ++ (u.procedures.map Routine.routine).map fun r => (none, r) := by
    rw [implementations, List.map_append, List.map_flatMap, List.map_map, List.map_map]
    simp only [List.map_map]
    rfl
  rw [hheadings, hbodies, List.foldl_append, List.foldl_append,
    SourceUnit.foldl_attach_procedures (u.procedures.map Routine.declared), foldl_attachTo_declared,
    @foldl_attach_classes u.classes [] _ rfl u.distinct, SourceUnit.foldl_attach_procedures]
  have hprocedures := @foldl_attachTo_routine u.procedures [] (by simp)
  rw [List.nil_append, List.nil_append] at hprocedures
  rw [List.nil_append, hprocedures]
  rfl

/-- The unit that is built from the tree. -/
theorem bare_ofTree (u : Blueprint) {tree : SyntaxTree}
    (hroot : tree.root.children = u.piece.trees 0) (fallback : Text) :
    (SourceUnit.ofTree u.render tree fallback).bare = u.unit := by
  have hdeclared : SourceUnit.bare
      { name := SourceUnit.nameIn tree fallback
        uses := (SourceUnit.declarations .usesClause tree).flatMap Source.usedUnits
        classes :=
          (SourceUnit.declarations .typeDecl tree).filterMap (Source.ofText u.render).class? }
      = { name := u.name.text, uses := u.uses.map DottedName.text,
          classes := u.classes.map Class.declared } := by
    rw [SourceUnit.bare, u.classes_eq hroot, u.nameIn_eq hroot, u.uses_eq hroot]
    rfl
  have hattached := SourceUnit.bare_foldl_attach
    ((SourceUnit.declarations .routineDecl tree).filterMap (Source.ofText u.render).routine?)
    { name := SourceUnit.nameIn tree fallback
      uses := (SourceUnit.declarations .usesClause tree).flatMap Source.usedUnits
      classes :=
        (SourceUnit.declarations .typeDecl tree).filterMap (Source.ofText u.render).class? }
  rw [u.routines_eq hroot, hdeclared] at hattached
  exact hattached.trans u.foldl_attach_eq

/-- **The round trip of declarations.** The source text of a blueprint is read without errors, and
up to statements and extents the unit is the one that the blueprint describes: the same name and
used units, the same classes and procedures in the same order, with all members, parameters, types
and trimmed bodies. -/
theorem ofSource_render (u : Blueprint) (fallback : Text) :
    ∃ unit, BuiltUnit.ofSource u.render fallback .tree = .ok ⟨unit, .tree, []⟩
      ∧ unit.bare = u.unit := by
  obtain ⟨root, htree, hroot⟩ := u.ofText_render
  refine ⟨SourceUnit.ofTree u.render ⟨root, []⟩ fallback, ?_, ?_⟩
  · simp only [BuiltUnit.ofSource, htree]
    rfl
  · exact u.bare_ofTree hroot fallback

/-- A blueprint in which **everything has the same name**, and the only body ends with a comment. -/
def sample : Blueprint :=
  let name : PlainName := ⟨['T'], by decide +kernel⟩
  { name := ⟨name, [name]⟩
    uses := [⟨name, []⟩]
    classes :=
      [{ name := name
         ancestor := some name
         fields := [⟨name, name⟩]
         methods :=
           [{ form := .function name
              name := name
              parameters := [⟨name, some name⟩]
              body := "if a then b; // end".toList
              isBody := by decide +kernel }] }]
    distinct := by simp }

/-- Its round trip. -/
theorem ofSource_render_sample :
    sample.render
      = ("unit T.T; uses T; interface type T = class(T) T: T; function T(T : T): T; end; " ++
        "implementation function T.T(T : T): T; begin\nif a then b; // end\nend; end.").toList
    ∧ ∃ unit, BuiltUnit.ofSource sample.render [] .tree = .ok ⟨unit, .tree, []⟩
      ∧ unit.bare = sample.unit :=
  ⟨by decide +kernel, ofSource_render sample []⟩

end Blueprint

end PascalAtlas
