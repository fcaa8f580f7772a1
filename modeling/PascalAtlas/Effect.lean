import PascalAtlas.Ordered
import PascalAtlas.Text

/-!
# Effects

What a routine does is inferred from **markers**: texts whose mere occurrence in a body, letter for
letter, counts. Rules are applied in order, and a later rule never undoes an earlier one.
-/

namespace PascalAtlas

/-- When a rule applies to a body. -/
inductive Trigger where
  | contains (marker : Text)
  | containsAny (markers : List Text)
  deriving DecidableEq

/-- Whether a trigger holds for a body. -/
def Trigger.holds : Trigger → Text → Bool
  | .contains marker, body => Text.contains body marker
  | .containsAny markers, body => markers.any (Text.contains body)

/-- What a rule says about a routine. -/
inductive Effect where
  /-- It writes to a resource. -/
  | write (resource : Text)
  /-- It creates an object of a class. -/
  | create (className : Text)
  /-- It belongs to the user interface. -/
  | markUi
  deriving DecidableEq

/-- A rule: an effect and when it is there. -/
structure EffectRule where
  trigger : Trigger
  effect : Effect
  deriving DecidableEq

namespace EffectRule

/-- A marker shows that a resource is written. -/
def write (marker resource : Text) : EffectRule :=
  ⟨.contains marker, .write resource⟩

/-- A marker shows that an object of a class is created. -/
def create (marker className : Text) : EffectRule :=
  ⟨.contains marker, .create className⟩

/-- Any of some markers shows the user interface. -/
def ui (markers : List Text) : EffectRule :=
  ⟨.containsAny markers, .markUi⟩

/-- The rules that always apply, unless another table is given. -/
def defaults : List EffectRule :=
  [write "mtPerson".toList "Module.mtPerson".toList,
   create "TPerson.Create".toList "TPerson".toList,
   ui (["TEdit", "ShowMessage", "Click"].map String.toList)]

end EffectRule

/-- What a routine does: what it reads, writes, creates and calls, each without repetition and in
order, and whether it belongs to the user interface. -/
structure Effects where
  reads : List Text := []
  writes : List Text := []
  creates : List Text := []
  calls : List Text := []
  isUi : Bool := false
  deriving DecidableEq

namespace Effects

/-- Whether a routine does anything. -/
def isSome (e : Effects) : Bool :=
  !(e.reads.isEmpty && e.writes.isEmpty && e.creates.isEmpty && e.calls.isEmpty) || e.isUi

/-- Takes out all effects. -/
def clear (e : Effects) : Effects :=
  { e with reads := [], writes := [], creates := [], calls := [], isUi := false }

/-- Adds one effect. -/
def add (e : Effects) : Effect → Effects
  | .write resource => { e with writes := OrderedSet.insert e.writes resource }
  | .create className => { e with creates := OrderedSet.insert e.creates className }
  | .markUi => { e with isUi := true }

/-- Adds the effects of the rules that apply to a body. -/
def applyRules (rules : List EffectRule) (body : Text) (e : Effects) : Effects :=
  rules.foldl (fun e rule => if rule.trigger.holds body then e.add rule.effect else e) e

end Effects

end PascalAtlas
