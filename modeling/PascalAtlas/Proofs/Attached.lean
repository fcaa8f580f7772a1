import PascalAtlas.SourceUnit

/-!
# No body is lost

A routine is declared in one place and implemented in another, and implementations come in any
order, perhaps more than one for a name and perhaps for a class of another unit. What one of
them does to a unit is said by a relation (`SourceUnit.Attached`): it completes the first
routine that waits for it in the list where it belongs, or it is added at the end of that list,
and nothing else changes.

Two things follow for one implementation, and from that for any number of them
(`SourceUnit.attachAll_attached`). The bodies of a unit are those that it had and those that came;
and a routine that has a body stays as it is, while one that has none may be completed but keeps
its place and its name.
-/

namespace PascalAtlas

/-- Where one item of a list is replaced, **every place** has the item that it had, or is
the place of that one. -/
theorem getElem?_replaced {α : Type} {before after : List α} {x d : α} {i : Nat} (y : α)
    (h : (before ++ x :: after)[i]? = some d) :
    (before ++ y :: after)[i]? = some d ∨ d = x ∧ (before ++ y :: after)[i]? = some y := by
  rcases Nat.lt_trichotomy i before.length with hlt | rfl | hgt
  · rw [List.getElem?_append_left hlt] at h ⊢
    exact .inl h
  · rw [List.getElem?_append_right (Nat.le_refl _), Nat.sub_self, List.getElem?_cons_zero] at h ⊢
    exact .inr ⟨(Option.some.inj h).symm, rfl⟩
  · obtain ⟨k, hk⟩ : ∃ k, i - before.length = k + 1 := ⟨i - before.length - 1, by omega⟩
    rw [List.getElem?_append_right (by omega), hk, List.getElem?_cons_succ] at h ⊢
    exact .inl h

namespace Routine

/-- What a body consists of: its text, its statements and the stretch of source that it covers. -/
def implementation (r : Routine) : Text × List Statement × Extent :=
  (r.body, r.statements, r.extent)

/-- The **bodies** of some routines. -/
def implementations (rs : List Routine) : List (Text × List Statement × Extent) :=
  (rs.filter Routine.hasBody).map implementation

/-- The implementations of two lists are those of the first and then those of the second. -/
theorem implementations_append (rs ss : List Routine) :
    implementations (rs ++ ss) = implementations rs ++ implementations ss := by
  rw [implementations, List.filter_append, List.map_append]
  rfl

theorem implementations_cons (r : Routine) (rs : List Routine) :
    implementations (r :: rs) = implementations [r] ++ implementations rs :=
  implementations_append [r] rs

/-! ## One routine and one list -/

/-- A declared routine as it is when it has been **completed**. It keeps its name, and
its parameters and result type if the implementation leaves them out; all else is that of
the implementation. -/
structure Completes (declared r completed : Routine) : Prop where
  name : completed.name = declared.name
  kind : completed.kind = r.kind
  parameters : completed.parameters = if r.parameters = [] then declared.parameters
    else r.parameters
  returnType : completed.returnType = if r.returnType = [] then declared.returnType
    else r.returnType
  hasBody : completed.hasBody = r.hasBody
  implementation : completed.implementation = r.implementation

/-- How a routine **comes into** a list. -/
inductive Enters (r : Routine) : List Routine → List Routine → Prop
  /-- One with a body completes the first routine without a body that has its name,
  ignoring ASCII case. -/
  | fills {before after : List Routine} {declared completed : Routine} (hbody : r.hasBody = true)
      (hfirst : ∀ d ∈ before, d.hasBody = true ∨ Text.eqIgnoreCase d.name r.name = false)
      (hwaits : declared.hasBody = false) (hname : Text.eqIgnoreCase declared.name r.name = true)
      (hcompletes : Completes declared r completed) :
      Enters r (before ++ declared :: after) (before ++ completed :: after)
  /-- One that has no body, or for which none waits, is added at the end. -/
  | appends {slots : List Routine}
      (hnone : r.hasBody = true →
        ∀ d ∈ slots, d.hasBody = true ∨ Text.eqIgnoreCase d.name r.name = false) :
      Enters r slots (slots ++ [r])

/-- Routines that are **kept** in their places: each has the name that it had, and one with a
body is what it was. -/
def Keeps (old new : List Routine) : Prop :=
  ∀ (i : Nat) (r : Routine), old[i]? = some r →
    ∃ r', new[i]? = some r' ∧ r'.name = r.name ∧ (r.hasBody = true → r' = r)

/-- A routine does not wait for an implementation if it has a body or another name. -/
theorem awaits_eq_false_iff {name : Text} {d : Routine} :
    d.awaits name = false ↔ d.hasBody = true ∨ Text.eqIgnoreCase d.name name = false := by
  rw [awaits]
  cases d.hasBody <;> simp

/-- A declaration that is completed keeps its name and takes the body of the routine. -/
theorem completes_completeWith (declared r : Routine) :
    Completes declared r (declared.completeWith r) where
  name := rfl
  kind := rfl
  parameters := by
    rw [completeWith]
    simp only [List.isEmpty_iff]
  returnType := by
    rw [completeWith]
    simp only [List.isEmpty_iff]
  hasBody := rfl
  implementation := rfl

/-- A list has a first routine that waits for the implementation, or none. -/
theorem fill?_cases (r : Routine) (slots : List Routine) :
    (∃ before declared after, slots = before ++ declared :: after ∧ declared.awaits r.name = true
      ∧ (∀ d ∈ before, d.awaits r.name = false)
      ∧ r.fill? slots = some (before ++ declared.completeWith r :: after))
    ∨ (∀ d ∈ slots, d.awaits r.name = false) ∧ r.fill? slots = none := by
  induction slots with
  | nil => exact .inr ⟨fun d hd => (List.not_mem_nil hd).elim, rfl⟩
  | cons d ds ih =>
    cases hd : d.awaits r.name with
    | true =>
      refine .inl ⟨[], d, ds, rfl, hd, fun d hd => (List.not_mem_nil hd).elim, ?_⟩
      rw [fill?, if_pos hd, List.nil_append]
    | false =>
      have hfill : r.fill? (d :: ds) = (r.fill? ds).map (d :: ·) := by
        rw [fill?, hd]
        rfl
      rcases ih with ⟨before, declared, after, rfl, hwaits, hbefore, hsome⟩ | ⟨hnone, hfills⟩
      · refine .inl ⟨d :: before, declared, after, rfl, hwaits,
          List.forall_mem_cons.2 ⟨hd, hbefore⟩, ?_⟩
        rw [hfill, hsome]
        rfl
      · refine .inr ⟨List.forall_mem_cons.2 ⟨hd, hnone⟩, ?_⟩
        rw [hfill, hfills]
        rfl

/-- Attaching a routine to a list is one of the two ways to **enter** it. -/
theorem enters_attachTo (r : Routine) (slots : List Routine) :
    r.Enters slots (r.attachTo slots) := by
  rw [attachTo]
  split
  next hbody =>
    rcases fill?_cases r slots
      with ⟨before, declared, after, rfl, hwaits, hbefore, hsome⟩ | ⟨hnone, hfill⟩
    · rw [awaits, Bool.and_eq_true, Bool.not_eq_true'] at hwaits
      rw [hsome]
      exact .fills hbody (fun d hd => awaits_eq_false_iff.1 (hbefore d hd)) hwaits.1 hwaits.2
        (completes_completeWith declared r)
    · rw [hfill]
      exact .appends fun _ d hd => awaits_eq_false_iff.1 (hnone d hd)
  next hbody => exact .appends fun h => absurd h hbody

/-- A routine that comes into a list brings **its body, if it has one**, and takes none away. -/
theorem Enters.implementations {r : Routine} {slots slots' : List Routine}
    (h : r.Enters slots slots') :
    (implementations slots').Perm (implementations slots ++ implementations [r]) := by
  cases h with
  | @fills before after declared completed hbody hfirst hwaits hname hcompletes =>
    -- The place that is filled had no body before, and has that of `r` now.
    have hdeclared : Routine.implementations [declared] = [] := by
      rw [Routine.implementations, List.filter_cons_of_neg (by simp [hwaits])]
      rfl
    have hcompleted : Routine.implementations [completed] = Routine.implementations [r] := by
      rw [Routine.implementations, Routine.implementations,
        List.filter_cons_of_pos (hcompletes.hasBody.trans hbody), List.filter_cons_of_pos hbody]
      exact congrArg (· :: []) hcompletes.implementation
    rw [implementations_append, implementations_append, implementations_cons completed,
      implementations_cons declared, hdeclared, hcompleted, List.nil_append, List.append_assoc]
    exact List.perm_append_comm.append_left _
  | appends hnone => exact .of_eq (implementations_append slots [r])

/-- A list keeps its routines. -/
theorem Keeps.refl (rs : List Routine) : Keeps rs rs :=
  fun _ r hr => ⟨r, hr, rfl, fun _ => rfl⟩

/-- What is kept twice is kept. -/
theorem Keeps.trans {rs ss ts : List Routine} (h : Keeps rs ss) (h' : Keeps ss ts) :
    Keeps rs ts := by
  intro i r hr
  obtain ⟨s, hs, hname, hbody⟩ := h i r hr
  obtain ⟨t, ht, hname', hbody'⟩ := h' i s hs
  refine ⟨t, ht, hname'.trans hname, fun hr => ?_⟩
  obtain rfl := hbody hr
  exact hbody' hr

/-- Routines that are added at the end leave the others in place. -/
theorem Keeps.append (rs added : List Routine) : Keeps rs (rs ++ added) := by
  intro i r hr
  obtain ⟨hlt, -⟩ := List.getElem?_eq_some_iff.1 hr
  exact ⟨r, by rw [List.getElem?_append_left hlt, hr], rfl, fun _ => rfl⟩

/-- A routine that enters a list keeps those that are there. -/
theorem Enters.keeps {r : Routine} {slots slots' : List Routine} (h : r.Enters slots slots') :
    Keeps slots slots' := by
  cases h with
  | @fills before after declared completed hbody hfirst hwaits hname hcompletes =>
    intro i d hd
    rcases getElem?_replaced completed hd with hd' | ⟨rfl, hcompleted⟩
    · exact ⟨d, hd', rfl, fun _ => rfl⟩
    · -- The one routine that changes had no body.
      refine ⟨completed, hcompleted, hcompletes.name, fun hdeclared => ?_⟩
      rw [hwaits] at hdeclared
      cases hdeclared
  | appends hnone => exact .append slots [r]

end Routine

/-! ## One routine and a unit -/

namespace SourceUnit

/-- The **bodies** of all routines of a unit. -/
def implementations (u : SourceUnit) : List (Text × List Statement × Extent) :=
  Routine.implementations (u.routines.map (·.2))

/-- What an implementation, perhaps with the class it belongs to, **does to a unit**. -/
inductive Attached (u : SourceUnit) : Option Text → Routine → SourceUnit → Prop
  /-- A routine without a class comes into the routines of the unit. -/
  | routine {r : Routine} {procedures : List Routine} (h : r.Enters u.procedures procedures) :
      Attached u none r { u with procedures }
  /-- A method comes into the methods of the first class with the name, ignoring ASCII case. -/
  | method {owner : Text} {r : Routine} {before after : List ClassDecl} {c : ClassDecl}
      {methods : List Routine}
      (hclasses : u.classes = before ++ c :: after)
      (hfirst : ∀ d ∈ before, Text.eqIgnoreCase d.name owner = false)
      (howner : Text.eqIgnoreCase c.name owner = true) (h : r.Enters c.methods methods) :
      Attached u (some owner) r { u with classes := before ++ { c with methods } :: after }
  /-- A method of a class that the unit does not have is added to the routines of the unit
  under its full name. -/
  | foreign {owner : Text} {r : Routine}
      (hnone : ∀ c ∈ u.classes, Text.eqIgnoreCase c.name owner = false) :
      Attached u (some owner) r
        { u with procedures := u.procedures ++ [{ r with name := owner ++ '.' :: r.name }] }

/-- Units of which one has **kept** all that is in the other: the same classes, and the
routines in their places. -/
structure Keeps (u u' : SourceUnit) : Prop where
  name : u'.name = u.name
  uses : u'.uses = u.uses
  procedures : Routine.Keeps u.procedures u'.procedures
  length_classes : u'.classes.length = u.classes.length
  classes : ∀ (k : Nat) (c : ClassDecl), u.classes[k]? = some c →
    ∃ methods, u'.classes[k]? = some { c with methods } ∧ Routine.Keeps c.methods methods

/-- A unit has a first class with a name, or none. -/
theorem updateClass?_cases (owner : Text) (f : ClassDecl → ClassDecl) (classes : List ClassDecl) :
    (∃ before c after, classes = before ++ c :: after
      ∧ (∀ d ∈ before, Text.eqIgnoreCase d.name owner = false)
      ∧ Text.eqIgnoreCase c.name owner = true
        ∧ updateClass? owner f classes = some (before ++ f c :: after))
    ∨ (∀ c ∈ classes, Text.eqIgnoreCase c.name owner = false)
      ∧ updateClass? owner f classes = none := by
  induction classes with
  | nil => exact .inr ⟨fun c hc => (List.not_mem_nil hc).elim, rfl⟩
  | cons c cs ih =>
    cases hc : Text.eqIgnoreCase c.name owner with
    | true =>
      refine .inl ⟨[], c, cs, rfl, fun d hd => (List.not_mem_nil hd).elim, hc, ?_⟩
      rw [updateClass?, if_pos hc, List.nil_append]
    | false =>
      have hupdate : updateClass? owner f (c :: cs) = (updateClass? owner f cs).map (c :: ·) := by
        rw [updateClass?, hc]
        rfl
      rcases ih with ⟨before, d, after, rfl, hbefore, hd, hsome⟩ | ⟨hnone, hupdates⟩
      · refine .inl ⟨c :: before, d, after, rfl, List.forall_mem_cons.2 ⟨hc, hbefore⟩, hd, ?_⟩
        rw [hupdate, hsome]
        rfl
      · refine .inr ⟨List.forall_mem_cons.2 ⟨hc, hnone⟩, ?_⟩
        rw [hupdate, hupdates]
        rfl

/-- Attaching to a unit does what the relation says. -/
theorem attached_attach (u : SourceUnit) (owner : Option Text) (r : Routine) :
    u.Attached owner r (u.attach owner r) := by
  cases owner with
  | none => exact .routine (r.enters_attachTo u.procedures)
  | some owner =>
    rw [attach]
    rcases updateClass?_cases owner
        (fun c => { c with methods := r.attachTo c.methods }) u.classes with
      ⟨before, c, after, hclasses, hfirst, howner, hsome⟩ | ⟨hnone, hupdate⟩
    · simp only [hsome]
      exact .method hclasses hfirst howner (r.enters_attachTo c.methods)
    · simp only [hupdate, List.append_assoc, List.singleton_append]
      exact .foreign hnone

/-- The implementations of a unit are those of its procedures and those of its methods. -/
theorem implementations_eq (u : SourceUnit) :
    u.implementations = Routine.implementations u.procedures
      ++ Routine.implementations (u.classes.flatMap ClassDecl.methods) := by
  have hmethods : (u.classes.flatMap fun c => c.methods.map fun m => (some c, m)).map (·.2)
      = u.classes.flatMap ClassDecl.methods := by
    have hone (c : ClassDecl) : (c.methods.map fun m => (some c, m)).map (·.2) = c.methods := by
      rw [List.map_map]
      exact List.map_id _
    rw [List.map_flatMap]
    simp only [hone]
  have hprocedures : (u.procedures.map fun r => ((none : Option ClassDecl), r)).map (·.2)
      = u.procedures := by
    rw [List.map_map]
    exact List.map_id _
  rw [implementations, routines, List.map_append, hmethods, hprocedures,
    Routine.implementations_append]

variable {u u' : SourceUnit} {owner : Option Text} {r : Routine}

/-- An implementation brings **one body**, if it has one, and takes none away. -/
theorem Attached.implementations (h : u.Attached owner r u') :
    u'.implementations.Perm (u.implementations ++ Routine.implementations [r]) := by
  cases h with
  | routine h =>
    rw [implementations_eq, implementations_eq, List.append_assoc]
    refine (h.implementations.append_right _).trans ?_
    rw [List.append_assoc]
    exact List.perm_append_comm.append_left _
  | @method owner r before after c methods hclasses hfirst howner h =>
    rw [implementations_eq, implementations_eq, hclasses]
    simp only [List.flatMap_append, List.flatMap_cons, Routine.implementations_append,
      List.append_assoc]
    refine List.Perm.append_left _ (List.Perm.append_left _ ?_)
    refine (h.implementations.append_right _).trans ?_
    rw [List.append_assoc]
    exact List.perm_append_comm.append_left _
  | @foreign owner r hnone =>
    -- The full name is all that sets the routine apart from the one that came.
    have hrenamed : Routine.implementations [{ r with name := owner ++ '.' :: r.name }]
        = Routine.implementations [r] := by
      rw [Routine.implementations, Routine.implementations]
      cases hbody : r.hasBody <;> simp [hbody, Routine.implementation]
    rw [implementations_eq, implementations_eq, Routine.implementations_append, hrenamed,
      List.append_assoc, List.append_assoc]
    exact List.perm_append_comm.append_left _

theorem Keeps.refl (u : SourceUnit) : u.Keeps u where
  name := rfl
  uses := rfl
  procedures := .refl u.procedures
  length_classes := rfl
  classes := fun _ c hc => ⟨c.methods, hc, .refl c.methods⟩

theorem Keeps.trans {u v w : SourceUnit} (h : u.Keeps v) (h' : v.Keeps w) : u.Keeps w where
  name := h'.name.trans h.name
  uses := h'.uses.trans h.uses
  procedures := h.procedures.trans h'.procedures
  length_classes := h'.length_classes.trans h.length_classes
  classes := by
    intro k c hc
    obtain ⟨methods, hd, hmethods⟩ := h.classes k c hc
    obtain ⟨methods', he, hmethods'⟩ := h'.classes k _ hd
    exact ⟨methods', he, hmethods.trans hmethods'⟩

/-- An implementation changes **no routine that has a body**, and moves and renames none. -/
theorem Attached.keeps (h : u.Attached owner r u') : u.Keeps u' := by
  cases h with
  | routine h => exact { Keeps.refl u with procedures := h.keeps }
  | @method owner r before after c methods hclasses hfirst howner h =>
    refine { Keeps.refl u with length_classes := by simp [hclasses], classes := fun k d hd => ?_ }
    rw [hclasses] at hd
    rcases getElem?_replaced { c with methods } hd with hd' | ⟨rfl, hchanged⟩
    · exact ⟨d.methods, hd', .refl d.methods⟩
    · exact ⟨methods, hchanged, h.keeps⟩
  | foreign hnone => exact { Keeps.refl u with procedures := .append u.procedures _ }

/-! ## Any number of routines -/

/-- Brings implementations into a unit **one after the other**. -/
def attachAll (u : SourceUnit) (calls : List (Option Text × Routine)) : SourceUnit :=
  calls.foldl (fun u call => u.attach call.1 call.2) u

/-- Any number of implementations **all end up in the unit**, and none of those it had is lost. -/
theorem implementations_attachAll (u : SourceUnit) (calls : List (Option Text × Routine)) :
    (u.attachAll calls).implementations.Perm
      (u.implementations ++ Routine.implementations (calls.map (·.2))) := by
  induction calls generalizing u with
  | nil => exact .of_eq (List.append_nil _).symm
  | cons call calls ih =>
    have hfirst := (attached_attach u call.1 call.2).implementations
    refine (ih (u.attach call.1 call.2)).trans ((hfirst.append_right _).trans ?_)
    rw [List.map_cons, Routine.implementations_cons call.2 (calls.map (·.2)), List.append_assoc]

/-- Any number of implementations keeps what was declared. -/
theorem keeps_attachAll (u : SourceUnit) (calls : List (Option Text × Routine)) :
    u.Keeps (u.attachAll calls) := by
  induction calls generalizing u with
  | nil => exact .refl u
  | cons call calls ih =>
    exact (attached_attach u call.1 call.2).keeps.trans (ih (u.attach call.1 call.2))

/-- **No body is lost, doubled or overwritten.** Whatever implementations come to a unit, it has in
the end the bodies that it had and those that came, each as often as it was there or came; and it
has kept its classes and routines, in their places and under their names, and those with a body as
they were. Each implementation, whatever came before it, completes the first routine that waits for
it or is added at the end of one list, and it too keeps what is there. -/
theorem attachAll_attached (u : SourceUnit) (calls : List (Option Text × Routine)) :
    (u.attachAll calls).implementations.Perm
      (u.implementations ++ Routine.implementations (calls.map (·.2)))
      ∧ u.Keeps (u.attachAll calls)
      ∧ ∀ (v : SourceUnit) (owner : Option Text) (r : Routine),
        v.Attached owner r (v.attach owner r) ∧ v.Keeps (v.attach owner r) := by
  refine ⟨implementations_attachAll u calls, keeps_attachAll u calls, fun v owner r => ?_⟩
  have hattached := attached_attach v owner r
  exact ⟨hattached, hattached.keeps⟩

end SourceUnit

end PascalAtlas
