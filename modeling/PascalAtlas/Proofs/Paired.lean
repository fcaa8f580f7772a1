import PascalAtlas.Proofs.OpenFrames

/-!
# Starts and finishes

In the grammar a node is one step around others, so its frame is opened and closed in one place.
Written out, a parse function **starts** a node, goes on, and **finishes** it, and nothing holds the
two together: a function can forget to finish a node, finish one too many, or finish the same node
in two places, as one does that returns early.

Here the two are apart. In a **script** a start and a finish are steps of their own (`Script`).
Whether they are paired can be read off the script, branch by branch (`Script.level?`), and if they
are, then every run keeps the frames that were open, whichever way it takes and wherever it fails
(`Script.leaves`). A failure in the middle of a function passes its finishes over, so that only
success brings the count back.

Every step of the grammar can be written out. The script that has a start and a finish for each of
its nodes is paired and does what the step does (`Step.level?_script`, `Step.run_script`), so that
the frames are kept by the parse functions in this form too (`Grammar.ParseFunction.keeps_script`).
One of them finishes its node in two places (`Grammar.classTypeScript`).
-/

namespace PascalAtlas

/-! ## Frames above those that are kept -/

namespace Frame

/-- Frames that are kept twice are kept. -/
theorem Kept.trans {fs gs hs : List Frame} (h : Kept fs gs) (h' : Kept gs hs) : Kept fs hs := by
  induction h generalizing hs with
  | nil => exact h'
  | cons hf _ ih =>
    cases h' with
    | cons hg h' => exact .cons ⟨hg.1.trans hf.1, hf.2.trans hg.2⟩ (ih h')

/-- The frames `fs` are **kept**, with `n` others above them. -/
def KeptBelow (n : Nat) (fs fs' : List Frame) : Prop :=
  ∃ own kept, fs' = own ++ kept ∧ own.length = n ∧ Kept fs kept

namespace KeptBelow

variable {n m : Nat} {fs gs hs : List Frame}

theorem of_kept (h : Kept fs gs) : KeptBelow 0 fs gs :=
  ⟨[], gs, rfl, rfl, h⟩

/-- Frames that are kept with what is above them are kept themselves. -/
theorem trans (h : KeptBelow n fs gs) (h' : KeptBelow m gs hs) : KeptBelow (m + n) fs hs := by
  obtain ⟨own, kept, rfl, rfl, hkept⟩ := h
  obtain ⟨above, rest, rfl, rfl, hrest⟩ := h'
  have hkept' := List.forall₂_drop own.length hrest
  rw [List.drop_left] at hkept'
  refine ⟨above ++ rest.take own.length, rest.drop own.length, ?_, ?_, hkept.trans hkept'⟩
  · rw [List.append_assoc, List.take_append_drop]
  · have hle : own.length ≤ rest.length := by
      rw [← hrest.length_eq, List.length_append]
      exact Nat.le_add_right _ _
    rw [List.length_append, List.length_take, Nat.min_eq_left hle]

/-- Below some frame there is always one that is kept. -/
theorem ne_nil (h : KeptBelow n fs gs) (hfs : fs ≠ []) : gs ≠ [] := by
  obtain ⟨own, kept, rfl, -, hkept⟩ := h
  intro hnil
  rw [(List.append_eq_nil_iff.1 hnil).2] at hkept
  cases hkept
  exact hfs rfl

/-- Trees that are added go into the frame on top. -/
theorem grow (h : KeptBelow n fs gs) (F : List Tree) : KeptBelow n fs (Frame.grow F gs) := by
  have hgrown := h.trans (of_kept (kept_grow F gs))
  rwa [Nat.zero_add] at hgrown

/-- A start puts one more frame on top. -/
theorem start (h : KeptBelow n fs gs) (f : Frame) : KeptBelow (n + 1) fs (f :: gs) := by
  obtain ⟨own, kept, rfl, rfl, hkept⟩ := h
  exact ⟨f :: own, kept, rfl, rfl, hkept⟩

/-- A finish closes the frame on top and leaves the others open. -/
theorem finish {s : State} (h : KeptBelow (n + 1) fs s.frames) (hfs : fs ≠ []) :
    KeptBelow n fs s.closeNode.frames := by
  obtain ⟨own, kept, hframes, hlength, hkept⟩ := h
  obtain ⟨f, own, rfl⟩ := List.exists_cons_of_length_eq_add_one hlength
  have hbelow : KeptBelow n fs (own ++ kept) := ⟨own, kept, rfl, Nat.succ.inj hlength, hkept⟩
  rw [State.frames_closeNode hframes (hbelow.ne_nil hfs)]
  exact hbelow.grow _

/-- A recovery closes whatever a failure has left open. -/
theorem recover {s s' : State} (h : KeptBelow n s.frames s'.frames) (hs : s.frames ≠ [])
    (recovery : Scan) (e : ParseError) :
    KeptBelow 0 s.frames (State.recover recovery s e s').frames := by
  obtain ⟨above, kept, hframes, -, hkept⟩ := h
  have hne : kept ≠ [] := fun hnil =>
    hs (List.length_eq_zero_iff.1 (by rw [hkept.length_eq, hnil]; rfl))
  obtain ⟨s₁, passed, hrecover, hframes, -⟩ :=
    State.exists_recover recovery e hframes hkept.length_eq.symm
  rw [hrecover, State.frames_closeNode hframes hne]
  exact (of_kept hkept).grow _

end KeptBelow

end Frame

open PascalAtlas.Frame (KeptBelow)

/-- What is open when a run ends that **keeps** the frames `fs`: after success `n` others above
them, after a failure some number of others. -/
def Outcome.Leaves (n : Nat) (fs : List Frame) : Outcome → Prop
  | .ok s => KeptBelow n fs s.frames
  | .fail _ s => ∃ m, KeptBelow m fs s.frames
  | .stuck _ => True

theorem Outcome.andThen_assoc (o : Outcome) (f g : State → Outcome) :
    (o.andThen f).andThen g = o.andThen fun s => (f s).andThen g := by
  cases o <;> rfl

namespace Outcome.Leaves

variable {n m : Nat} {fs gs : List Frame} {o : Outcome}

/-- What keeps its own frames keeps those below them. -/
theorem below (h : o.Leaves m gs) (hgs : KeptBelow n fs gs) : o.Leaves (m + n) fs := by
  cases o with
  | ok s => exact hgs.trans h
  | fail e s =>
    obtain ⟨k, hk⟩ := h
    exact ⟨k + n, hgs.trans hk⟩
  | stuck s => trivial

/-- A run goes on from what it has left open; a failure ends it. -/
theorem andThen {f : State → Outcome} (h : o.Leaves m fs)
    (hf : ∀ s, KeptBelow m fs s.frames → (f s).Leaves n fs) : (o.andThen f).Leaves n fs := by
  cases o with
  | ok s => exact hf s h
  | fail e s => exact h
  | stuck s => trivial

/-- Rounds that each leave open what was open before do so together, **however many** there are. -/
theorem runLoop {test : Test} {body : State → Outcome}
    (hbody : ∀ s, KeptBelow n fs s.frames → (body s).Leaves n fs) (rounds : Nat) {s : State}
    (hs : KeptBelow n fs s.frames) : (Step.runLoop test body rounds s).Leaves n fs := by
  induction rounds generalizing s with
  | zero =>
    rw [Step.runLoop]
    split
    · trivial
    · exact hs
  | succ rounds ih =>
    rw [Step.runLoop]
    split
    · exact (hbody s hs).andThen fun _ hs' => ih hs'
    · exact hs

end Outcome.Leaves

/-! ## Scripts -/

/-- Whether a step has **no other steps** in it. -/
def Step.isSingle : Step → Bool
  | .seq .. | .branch .. | .loop .. | .ifMoved .. | .node .. | .guarded .. => false
  | _ => true

/-- A **script**: steps in which nodes are started and finished by steps of their own. -/
inductive Script where
  | single (a : Step)
  /-- Begin a node. -/
  | start (kind : NodeKind)
  /-- Finish the innermost node. -/
  | finish
  | seq (a b : Script)
  | branch (test : Test) (yes no : Script)
  | loop (test : Test) (body : Script)
  | ifMoved (body moved still : Script)
  | guarded (recovery : Scan) (body : Script)

namespace Script

/-- **Runs a script**, given how the rules run. A failure ends it, with the nodes unfinished
that have been started. -/
def run (call : Rule → State → Outcome) : Script → State → Outcome
  | .single a, s => a.run call s
  | .start kind, s => .ok (s.openNode kind)
  | .finish, s => .ok s.closeNode
  | .seq a b, s => (a.run call s).andThen (b.run call)
  | .branch test yes no, s => if test.holds s then yes.run call s else no.run call s
  | .loop test body, s => Step.runLoop test (body.run call) s.rest.length s
  | .ifMoved body moved still, s =>
    (body.run call s).andThen fun s' =>
      if s'.rest.length < s.rest.length then moved.run call s' else still.run call s'
  | .guarded recovery body, s => (body.run call s).recovered recovery s

/-- How many of its own nodes are **unfinished** behind a script, if there were `n` before it. There
is no answer where a finish comes before its start, where two branches differ, or where a round of a
loop or what is guarded leaves more unfinished, or less, than there was. -/
def level? : Script → Nat → Option Nat
  | .single a, n => if a.isSingle then some n else none
  | .start _, n => some (n + 1)
  | .finish, n => if n = 0 then none else some (n - 1)
  | .seq a b, n => (a.level? n).bind b.level?
  | .branch _ yes no, n => if yes.level? n = no.level? n then yes.level? n else none
  | .loop _ body, n => if body.level? n = some n then some n else none
  | .ifMoved body moved still, n =>
    (body.level? n).bind fun m => if moved.level? m = still.level? m then moved.level? m else none
  | .guarded _ body, n => if body.level? 0 = some 0 then some n else none

section

variable {call : Rule → State → Outcome}
  (hcall : ∀ rule s, s.frames ≠ [] → (call rule s).Leaves 0 s.frames)
include hcall

/-- A single step leaves open what was open; a rule keeps the frames by hypothesis. -/
theorem leaves_single {a : Step} (ha : a.isSingle = true) {n : Nat} {fs : List Frame}
    (hfs : fs ≠ []) {s : State} (hs : KeptBelow n fs s.frames) : (a.run call s).Leaves n fs := by
  cases a with
  | skip => exact hs
  | bump =>
    obtain ⟨ts, hframes, -⟩ := State.exists_bump s
    show KeptBelow n fs s.bump.frames
    rw [hframes]
    exact hs.grow _
  | take scan =>
    show KeptBelow n fs (s.advance _).frames
    rw [State.frames_advance]
    exact hs.grow _
  | takeClosed scan cause =>
    have hadvance (k : Nat) : KeptBelow n fs (s.advance k).frames := by
      rw [State.frames_advance]
      exact hs.grow _
    rcases hrun : scan.run {} s.rest with ⟨k, stopped⟩
    simp only [Step.run, hrun]
    split
    · exact hadvance k
    · exact ⟨n, hadvance k⟩
  | fail cause => exact ⟨n, hs⟩
  | report cause => exact hs
  | enter part => exact hs
  | noteBodiless value => exact hs
  | noteClosed => exact hs
  | call rule =>
    have hrule := (hcall rule s (hs.ne_nil hfs)).below hs
    rwa [Nat.zero_add] at hrule
  | seq => cases ha
  | branch => cases ha
  | loop => cases ha
  | ifMoved => cases ha
  | node => cases ha
  | guarded => cases ha

/-- **Paired starts and finishes keep the frames.** Whatever frames are open when a script begins
with `n` nodes of its own unfinished, they are kept: after success the script has left as many
unfinished as can be read off it, and after a failure some number. -/
theorem leaves {l : Script} {n m : Nat} (h : l.level? n = some m) {fs : List Frame} (hfs : fs ≠ [])
    {s : State} (hs : KeptBelow n fs s.frames) : (l.run call s).Leaves m fs := by
  induction l generalizing n m fs s with
  | single a =>
    rw [level?] at h
    split at h
    next ha =>
      cases h
      exact leaves_single hcall ha hfs hs
    next => cases h
  | start kind =>
    cases h
    exact hs.start _
  | finish =>
    rw [level?] at h
    split at h
    next => cases h
    next hn =>
      cases h
      obtain ⟨k, rfl⟩ := Nat.exists_eq_succ_of_ne_zero hn
      exact hs.finish hfs
  | seq a b iha ihb =>
    obtain ⟨k, hk, hm⟩ := Option.bind_eq_some_iff.1 h
    exact (iha hk hfs hs).andThen fun s' hs' => ihb hm hfs hs'
  | branch test yes no ihyes ihno =>
    rw [level?] at h
    split at h
    next heq =>
      rw [run]
      split
      · exact ihyes h hfs hs
      · exact ihno (heq ▸ h) hfs hs
    next => cases h
  | loop test body ih =>
    rw [level?] at h
    split at h
    next hround =>
      cases h
      exact .runLoop (fun s' hs' => ih hround hfs hs') _ hs
    next => cases h
  | ifMoved body moved still ihbody ihmoved ihstill =>
    obtain ⟨k, hk, hm⟩ := Option.bind_eq_some_iff.1 h
    split at hm
    next heq =>
      refine (ihbody hk hfs hs).andThen fun s' hs' => ?_
      split
      · exact ihmoved hm hfs hs'
      · exact ihstill (heq ▸ hm) hfs hs'
    next => cases hm
  | guarded recovery body ih =>
    rw [level?] at h
    split at h
    next hbody =>
      cases h
      -- What is guarded counts from the frames that are open here, its own and those of others.
      have hne := hs.ne_nil hfs
      have hleaves := ih hbody hne (.of_kept (Frame.kept_refl s.frames))
      rw [← Nat.zero_add n, run]
      cases hrun : body.run call s with
      | ok s' =>
        rw [hrun] at hleaves
        exact hleaves.below hs
      | fail e s' =>
        rw [hrun] at hleaves
        obtain ⟨k, hk⟩ := hleaves
        exact hs.trans (hk.recover hne recovery e)
      | stuck s' => trivial
    next => cases h

end

end Script

/-! ## Steps written out -/

namespace Step

/-- **A step written out**: each node is a start, what it stands around, and a finish. -/
def script : Step → Script
  | .seq a b => .seq a.script b.script
  | .branch test yes no => .branch test yes.script no.script
  | .loop test body => .loop test body.script
  | .ifMoved body moved still => .ifMoved body.script moved.script still.script
  | .node kind body => .seq (.start kind) (.seq body.script .finish)
  | .guarded recovery body => .guarded recovery body.script
  | a => .single a

/-- A step that is written out has its starts and finishes **paired**. -/
theorem level?_script (a : Step) (n : Nat) : a.script.level? n = some n := by
  induction a generalizing n with
  | seq a b iha ihb => rw [script, Script.level?, iha, Option.bind_some, ihb]
  | branch test yes no ihyes ihno => rw [script, Script.level?, ihyes, ihno, if_pos rfl]
  | loop test body ih => rw [script, Script.level?, ih, if_pos rfl]
  | ifMoved body moved still ihbody ihmoved ihstill =>
    rw [script, Script.level?, ihbody, Option.bind_some, ihmoved, ihstill, if_pos rfl]
  | node kind body ih =>
    rw [script, Script.level?, Script.level?, Option.bind_some, Script.level?, ih, Option.bind_some,
      Script.level?, if_neg (Nat.succ_ne_zero n)]
    rfl
  | guarded recovery body ih => rw [script, Script.level?, ih, if_pos rfl]
  | _ => rfl

/-- A step that is written out **does the same**. -/
theorem run_script (call : Rule → State → Outcome) (a : Step) (s : State) :
    a.script.run call s = a.run call s := by
  induction a generalizing s with
  | seq a b iha ihb =>
    have hb : b.script.run call = b.run call := funext ihb
    rw [script, Script.run, iha, hb, run]
  | branch test yes no ihyes ihno => rw [script, Script.run, ihyes, ihno, run]
  | loop test body ih =>
    have hbody : body.script.run call = body.run call := funext ih
    rw [script, Script.run, hbody, run]
  | ifMoved body moved still ihbody ihmoved ihstill =>
    simp only [script, Script.run, ihbody, ihmoved, ihstill, run]
  | node kind body ih =>
    show (body.script.run call (s.openNode kind)).andThen (fun s' => .ok s'.closeNode) = _
    rw [ih, run]
  | guarded recovery body ih => rw [script, Script.run, ih, run]
  | _ => rfl

end Step

/-- Rules keep the frames, however deep they may call each other. -/
theorem Rule.leaves (grammar : Rule → Step) (n : Nat) (rule : Rule) (s : State)
    (hs : s.frames ≠ []) :
    (Rule.run grammar n rule s).Leaves 0 s.frames := by
  induction n generalizing rule s with
  | zero => trivial
  | succ n ih =>
    rw [Rule.run, ← Step.run_script]
    exact Script.leaves ih (Step.level?_script _ 0) hs (.of_kept (Frame.kept_refl _))

namespace Grammar

/-- **The frames are kept by every parse function that is written out**, with a start and a finish
of its own for each node. -/
theorem ParseFunction.keeps_script {f : Step} (hf : ParseFunction f) {s : State}
    (hs : s.frames ≠ []) {n : Nat} (hn : s.rest.length < n) :
    f.script.level? 0 = some 0 ∧ (f.script.run (Rule.run rules n) s).Keeps s.frames := by
  obtain ⟨o, ho⟩ := hf.exists_runs s
  refine ⟨Step.level?_script f 0, ?_⟩
  rw [Step.run_script, ho.run_eq n hn]
  exact ho.keeps hs

/-! ## A node that is finished in two places -/

/-- What stands between the start of a class or record and its members. -/
def classHead : Step :=
  Step.all [.bump, .loop (.oneOf ["abstract".toList, "sealed".toList]) .bump,
    Step.when (.symbol .lParen) (.node .heritage (bracketed .lParen .rParen))]

/-- A class or record, **with two finishes** for its one start: a class that ends with its ancestors
is finished there and then. -/
def classTypeScript : Script :=
  .seq (.start .classType)
    (.branch (.keyword .kwRecord)
      (.seq classHead.script (.seq members.script .finish))
      (.seq classHead.script
        (.branch (.symbol .semi) .finish (.seq members.script .finish))))

/-- Both ways through it are paired. -/
theorem level?_classTypeScript (n : Nat) : classTypeScript.level? n = some n := by
  have hmembers : (Script.seq members.script .finish).level? (n + 1) = some n := by
    rw [Script.level?, Step.level?_script]
    rfl
  have hearly : Script.finish.level? (n + 1) = some n := rfl
  have hhead : classHead.script.level? (n + 1) = some (n + 1) := Step.level?_script ..
  have hrecord : (Script.seq classHead.script (.seq members.script .finish)).level? (n + 1)
      = some n := by
    rw [Script.level?, hhead, Option.bind_some, hmembers]
  have hclass : (Script.seq classHead.script
      (.branch (.symbol .semi) .finish (.seq members.script .finish))).level? (n + 1) = some n := by
    rw [Script.level?, hhead, Option.bind_some, Script.level?, hmembers, hearly, if_pos rfl]
  rw [classTypeScript, Script.level?, Script.level?, Option.bind_some, Script.level?, hrecord,
    hclass, if_pos rfl]

/-- Without the early finish they are not. -/
example : (Script.seq (.start .classType)
    (.branch (.symbol .semi) (.single .skip) (.seq (.single .bump) .finish))).level? 0 = none := rfl

/-- What follows `class` is its head, and then the members. -/
theorem run_classRest (call : Rule → State → Outcome) (body : Step) (s : State) :
    (classRest body).run call s = (classHead.run call s).andThen (body.run call) := by
  simp only [classRest, classHead, Step.all, Step.run, Outcome.andThen_assoc]

/-- And it **does the same** as the node with one finish. -/
theorem run_classTypeScript (call : Rule → State → Outcome) (s : State) :
    classTypeScript.run call s = classType.run call s := by
  have hearly (s : State) :
      ((Step.branch (.symbol .semi) .skip members).run call s).andThen (fun s' => .ok s'.closeNode)
        = if (Test.symbol .semi).holds s then .ok s.closeNode
          else (members.run call s).andThen fun s' => .ok s'.closeNode := by
    rw [Step.run]
    split
    · rfl
    · rfl
  rw [classTypeScript, Script.run, Script.run, classType, Step.run, Step.run]
  show (if _ then _ else _) = _
  split
  · simp only [Script.run, Step.run_script, run_classRest, Outcome.andThen_assoc]
  · simp only [Script.run, Step.run_script, run_classRest, Outcome.andThen_assoc, hearly]

end Grammar

end PascalAtlas
