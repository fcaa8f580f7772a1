import PascalAtlas.Document.Json
import PascalAtlas.SourceUnit.Json

/-!
# What is written is read back

Units, statements and documents are written as JSON and read again. A member is read by its key, so
all that a record needs for being read back is that each member is found under its key among all
that is written (`Json.lookup_append` and its neighbours), and that the reader of the member fits
its writer. Lists and values that are left out when they are empty or absent take the default of the
reader, which is the empty list or no value (`Json.getD_nonemptyMember`,
`Json.getD_optionalMember`).

Statements are the one type that contains itself. The kind of a statement is a member like the
others, and it alone decides which of the others are read; that the members of a block are never
taken for those of a simple statement is part of `Statement.shape?_members`.

Reading is more liberal than writing. Whatever was read, writing it gives a **normal form**: it is
read as the same value, and written for that value again (`data_roundTrips`).
-/

namespace PascalAtlas

namespace Json

/-! ## Members -/

-- The readers of records below are evaluated by these equations, so that no proof about
-- them unfolds a look-up.

@[simp] theorem lookup_nil (key : String) : lookup key [] = none :=
  rfl

@[simp] theorem lookup_cons (key k : String) (v : Json) (members : List (String × Json)) :
    lookup key ((k, v) :: members) = if k = key then some v else lookup key members :=
  rfl

/-- What is found among two lists of members is found in the first, or else in the second. -/
@[simp] theorem lookup_append (key : String) (members more : List (String × Json)) :
    lookup key (members ++ more) = (lookup key members).or (lookup key more) := by
  induction members with
  | nil => rfl
  | cons m members ih =>
    obtain ⟨k, v⟩ := m
    rw [List.cons_append, lookup_cons, lookup_cons, ih]
    split <;> rfl

@[simp] theorem record?_obj (n : Nat) (members : List (String × Json)) :
    record? n (.obj members) = some (.obj members) :=
  rfl

variable {α : Type} {write : α → Json} {read : Json → Option α}

/-- A member that must be there is read from what is found under its key. -/
@[simp] theorem required_obj (members : List (String × Json)) (place : Nat) (key : String)
    (read : Json → Option α) :
    required (.obj members) place key read = (lookup key members).bind read :=
  rfl

/-- A member that may be absent takes the default only if its key is not found. -/
@[simp] theorem defaulted_obj (members : List (String × Json)) (place : Nat) (key : String)
    (default : α) (read : Json → Option α) :
    defaulted (.obj members) place key default read
      = ((lookup key members).map read).getD (some default) := by
  rw [defaulted, member?]
  cases lookup key members <;> rfl

/-! ## Members that may be left out -/

/-- An optional value is found under its key, if there is one. -/
@[simp] theorem lookup_optionalMember (key k : String) (write : α → Json) (o : Option α) :
    lookup key (optionalMember k write o) = if k = key then o.map write else none := by
  cases o with
  | none => exact (ite_self _).symm
  | some a => rfl

/-- A value that is absent is left out, and **read as absent** when it is missing. -/
@[simp] theorem getD_optionalMember (o : Option Text) :
    (o.map (nullable? string? ∘ text)).getD (some none) = some o := by
  cases o with
  | none => rfl
  | some t =>
    show some (some (String.ofList t).toList) = _
    rw [String.toList_ofList]

/-- A list is found under its key unless it is empty. -/
@[simp] theorem lookup_nonemptyMember (key k : String) (write : α → Json) (items : List α) :
    lookup key (nonemptyMember k write items)
      = if k = key then (if items = [] then none else some (ofList write items)) else none := by
  cases items with
  | nil => exact (ite_self _).symm
  | cons a items => rfl

/-! ## Values -/

/-- A text is read back from its string. -/
@[simp] theorem string?_text (t : Text) : string? (text t) = some t := by
  show some (String.ofList t).toList = some t
  rw [String.toList_ofList]

@[simp] theorem bool?_bool (b : Bool) : bool? (.bool b) = some b :=
  rfl

/-- A word is small enough to be read back as one. -/
@[simp] theorem word?_nat (w : UInt32) : word? (.nat w.toNat) = some w := by
  rw [word?, if_pos w.toNat_lt, UInt32.ofNat_toNat]

/-- A list is read back if its items are. -/
@[simp] theorem list?_ofList (h : ∀ a, read (write a) = some a) (items : List α) :
    list? read (ofList write items) = some items := by
  show (items.map write).mapM read = some items
  induction items with
  | nil => rfl
  | cons a items ih =>
    rw [List.map_cons, List.mapM_cons, h, ih]
    rfl

/-- A list that is empty is left out, and **read as empty** when it is missing. -/
@[simp] theorem getD_nonemptyMember (h : ∀ a, read (write a) = some a) (items : List α) :
    ((if items = [] then none else some (ofList write items)).map (list? read)).getD (some [])
      = some items := by
  cases items with
  | nil => rfl
  | cons a items => exact list?_ofList h (a :: items)

end Json

/-! ## Parts of units -/

/-- Positions are read back. -/
@[simp] theorem Position.ofJson?_toJson (p : Position) : ofJson? p.toJson = some p := by
  simp [ofJson?, toJson]

/-- Extents are read back, with or without positions. -/
@[simp] theorem Extent.ofJson?_toJson (e : Extent) : ofJson? e.toJson = some e := by
  simp [ofJson?, toJson]

/-- Parameters are read back. -/
@[simp] theorem Param.ofJson?_toJson (p : Param) : ofJson? p.toJson = some p := by
  simp [ofJson?, toJson]

/-- The kinds of routines are told apart by their words. -/
@[simp] theorem RoutineKind.ofJson?_toJson (k : RoutineKind) : ofJson? k.toJson = some k := by
  cases k <;> rfl

/-- Fields are read back. -/
@[simp] theorem FieldDecl.ofJson?_toJson (f : FieldDecl) : ofJson? f.toJson = some f := by
  simp [ofJson?, toJson]

/-- Properties are read back, with or without accessors. -/
@[simp] theorem PropertyDecl.ofJson?_toJson (p : PropertyDecl) : ofJson? p.toJson = some p := by
  simp [ofJson?, toJson]

/-! ## Statements -/

namespace Statement

/-- The body is looked up like every other member; recursion alone needs a function for it. -/
theorem bodyOf?_eq (members : List (String × Json)) :
    bodyOf? members = (Json.lookup "body" members).bind listOf? := by
  induction members with
  | nil => rfl
  | cons m members ih =>
    obtain ⟨k, v⟩ := m
    rw [bodyOf?, Json.lookup_cons, ih]
    split <;> rfl

section Members

variable (rest : List (String × Json))

/-- The members of a simple statement tell its **form**, whatever else is there. -/
theorem form?_members (f : SimpleForm) :
    ∃ kind, Json.lookup "kind" (f.members ++ rest) = some (.str kind)
      ∧ form? (f.members ++ rest) kind = some f
      ∧ Json.lookup "span" (f.members ++ rest) = Json.lookup "span" rest := by
  cases f <;> exact ⟨_, rfl, by simp [form?, textMember?, SimpleForm.members], rfl⟩

/-- The members of a block tell its **shape**, and are not taken for those of a simple statement. -/
theorem shape?_members (b : BlockShape) :
    ∃ kind, Json.lookup "kind" (b.members ++ rest) = some (.str kind)
      ∧ form? (b.members ++ rest) kind = none
      ∧ shape? (b.members ++ rest) kind = some b
      ∧ Json.lookup "span" (b.members ++ rest) = Json.lookup "span" rest
      ∧ Json.lookup "body" (b.members ++ rest) = Json.lookup "body" rest := by
  cases b <;> exact ⟨_, rfl, rfl, by simp [shape?, textMember?, BlockShape.members], rfl, rfl⟩

end Members

mutual

/-- A **statement** is read back, with all those inside it. -/
theorem ofJson?_toJson : (s : Statement) → ofJson? s.toJson = some s
  | .block shape body extent => by
    obtain ⟨kind, hkind, hform, hshape, hspan, hbody⟩ :=
      shape?_members [("body", .arr (toJsonAll body)), ("span", extent.toJson)] shape
    -- The statements inside are a part of this one, so they are read back by induction.
    have hinside : listOf? (.arr (toJsonAll body)) = some body := by
      rw [listOf?, allOf?_toJsonAll body]
    rw [toJson, ofJson?, ofMembers?, bodyOf?_eq, hkind, hspan, hbody]
    simp [kindWord?, hform, hshape, hinside]
  | .simple form extent => by
    obtain ⟨kind, hkind, hform, hspan⟩ := form?_members [("span", extent.toJson)] form
    rw [toJson, ofJson?, ofMembers?, hkind, hspan]
    simp [kindWord?, hform]

/-- Statements in a row are read back one by one. -/
theorem allOf?_toJsonAll : (ss : List Statement) → allOf? (toJsonAll ss) = some ss
  | [] => rfl
  | s :: ss => by rw [toJsonAll, allOf?, ofJson?_toJson s, allOf?_toJsonAll ss]

end

end Statement

/-! ## Units -/

/-- Routines are read back with all that their bodies say. -/
@[simp] theorem Routine.ofJson?_toJson (r : Routine) : ofJson? r.toJson = some r := by
  simp [ofJson?, toJson, Statement.ofJson?_toJson]

/-- Classes are read back with their members. -/
@[simp] theorem ClassDecl.ofJson?_toJson (c : ClassDecl) : ofJson? c.toJson = some c := by
  simp [ofJson?, toJson]

/-- **Units** are read back. -/
theorem SourceUnit.ofJson?_toJson (u : SourceUnit) : ofJson? u.toJson = some u := by
  simp [ofJson?, toJson]

/-! ## Documents -/

@[simp] theorem TypedName.ofJson?_toJson (t : TypedName) : ofJson? t.toJson = some t := by
  simp [ofJson?, toJson]

/-- Entities are read back. -/
@[simp] theorem Entity.ofJson?_toJson (e : Entity) : ofJson? e.toJson = some e := by
  simp [ofJson?, toJson]

/-- **Documents of entities** are read back. -/
theorem EntityDocument.ofJson?_toJson (d : EntityDocument) : ofJson? d.toJson = some d := by
  simp [ofJson?, toJson]

/-- Procedures of a back end are read back. -/
@[simp] theorem BackendProcedure.ofJson?_toJson (p : BackendProcedure) :
    ofJson? p.toJson = some p := by
  simp [ofJson?, toJson]

/-- **Documents of back ends** are read back. -/
theorem BackendDocument.ofJson?_toJson (d : BackendDocument) : ofJson? d.toJson = some d := by
  simp [ofJson?, toJson]

/-- Arguments are read back. -/
@[simp] theorem CallArgument.ofJson?_toJson (a : CallArgument) : ofJson? a.toJson = some a := by
  simp [ofJson?, toJson]

/-- Calls are read back with their arguments. -/
@[simp] theorem BackendCall.ofJson?_toJson (c : BackendCall) : ofJson? c.toJson = some c := by
  simp [ofJson?, toJson]

/-- Forms are read back. -/
@[simp] theorem Form.ofJson?_toJson (f : Form) : ofJson? f.toJson = some f := by
  simp [ofJson?, toJson]

/-- Actions are read back with the calls that they make. -/
@[simp] theorem UiAction.ofJson?_toJson (a : UiAction) : ofJson? a.toJson = some a := by
  simp [ofJson?, toJson]

/-- **Documents of user interfaces** are read back. -/
theorem UiDocument.ofJson?_toJson (d : UiDocument) : ofJson? d.toJson = some d := by
  simp [ofJson?, toJson]

/-! ## All together -/

/-- Writing and reading that **fit** each other, where the members under some keys are known. -/
structure Json.RoundTrips {α : Type} (keys : List String) (write : α → Json)
    (read : Json → Option α) : Prop where
  /-- What is written is read back. -/
  read_write : ∀ a, read (write a) = some a
  /-- Members that are not known do not matter, nor does the order of those that are. -/
  read_congr : ∀ members members', (∀ key ∈ keys, lookup key members = lookup key members') →
    read (.obj members) = read (.obj members')
  /-- What is written for a value that was read is read as the same value. -/
  reread : ∀ j k, (read j).map write = some k → read k = read j
  /-- What is written for it is a normal form: it is written again for what is read from it. -/
  normal : ∀ j k, (read j).map write = some k → (read k).map write = some k

/-- It is enough that what is written is read back, and that only the keys decide what is read. -/
theorem Json.RoundTrips.of_read_write {α : Type} {keys : List String} {write : α → Json}
    {read : Json → Option α} (h : ∀ a, read (write a) = some a)
    (hcongr : ∀ members members', (∀ key ∈ keys, lookup key members = lookup key members') →
      read (.obj members) = read (.obj members')) :
    RoundTrips keys write read where
  read_write := h
  read_congr := hcongr
  reread := by
    intro j k hk
    obtain ⟨a, ha, rfl⟩ := Option.map_eq_some_iff.1 hk
    rw [h, ha]
  normal := by
    intro j k hk
    obtain ⟨a, ha, rfl⟩ := Option.map_eq_some_iff.1 hk
    rw [h, Option.map_some]

namespace Statement

/-- The keys of the members that statements have. -/
def memberKeys : List String :=
  ["kind", "condition", "header", "subject", "selector", "body", "target", "value", "callee",
    "arguments", "text", "span"]

/-- A statement is told by the members **that statements have**. -/
theorem ofJson?_congr (members members' : List (String × Json))
    (h : ∀ key ∈ memberKeys, Json.lookup key members = Json.lookup key members') :
    ofJson? (.obj members) = ofJson? (.obj members') := by
  -- Apart from the body, the kinds of statements differ in texts only.
  have htext (key : String) (hkey : key ∈ memberKeys) : textMember? members key
      = textMember? members' key := by
    rw [textMember?, h key hkey, textMember?]
  have hform (kind : String) : form? members kind = form? members' kind := by
    simp only [form?]
    rw [htext "target" (by decide), htext "value" (by decide), htext "callee" (by decide),
      htext "arguments" (by decide), htext "text" (by decide)]
  have hshape (kind : String) : shape? members kind = shape? members' kind := by
    simp only [shape?]
    rw [htext "condition" (by decide), htext "header" (by decide), htext "subject" (by decide),
      htext "selector" (by decide)]
  rw [ofJson?, ofJson?, bodyOf?_eq, bodyOf?_eq, h "body" (by decide), ofMembers?, ofMembers?,
    h "kind" (by decide), h "span" (by decide)]
  simp only [hform, hshape]

end Statement

/-- **What is written is read back**, for units, statements and each of the three documents. Reading
passes over members that are not known and does not mind their order; and what is written for a
value that was read, however it was written before, is read as that value and is a normal form. -/
theorem data_roundTrips :
    Json.RoundTrips ["name", "uses", "classes", "procedures"] SourceUnit.toJson SourceUnit.ofJson?
      ∧ Json.RoundTrips Statement.memberKeys Statement.toJson Statement.ofJson?
      ∧ Json.RoundTrips ["entities"] EntityDocument.toJson EntityDocument.ofJson?
      ∧ Json.RoundTrips ["procedures"] BackendDocument.toJson BackendDocument.ofJson?
      ∧ Json.RoundTrips ["uiActions"] UiDocument.toJson UiDocument.ofJson? := by
  refine ⟨.of_read_write SourceUnit.ofJson?_toJson fun members members' h => ?_,
    .of_read_write Statement.ofJson?_toJson Statement.ofJson?_congr,
    .of_read_write EntityDocument.ofJson?_toJson fun members members' h => ?_,
    .of_read_write BackendDocument.ofJson?_toJson fun members members' h => ?_,
    .of_read_write UiDocument.ofJson?_toJson fun members members' h => ?_⟩
  · simp [SourceUnit.ofJson?, h]
  · simp [EntityDocument.ofJson?, h]
  · simp [BackendDocument.ofJson?, h]
  · simp [UiDocument.ofJson?, h]

/-- A unit that is written **loosely**: members are in another order, unknown or left out, an absent
ancestor is `null`, a routine is an array of its members, and the kind of a block is a number. -/
def looseUnit : Json :=
  .obj [
    ("classes", .arr [.obj [("name", .str "TFoo"), ("ancestor", .null), ("fields", .arr []),
      ("colour", .nat 3), ("methods", .arr [])]]),
    ("comment", .bool true),
    ("name", .str "U"),
    ("procedures", .arr [.arr [.str "P", .str "procedure", .arr [], .str "", .bool true,
      .str "begin x end",
      .arr [.obj [
        ("body", .arr [.obj [("text", .str "x"), ("kind", .str "other"), ("note", .null)]]),
        ("kind", .nat 0)]]]])]

/-- The unit that it stands for. -/
def strictUnit : SourceUnit where
  name := "U".toList
  classes := [{ name := "TFoo".toList }]
  procedures := [{
    name := "P".toList
    hasBody := true
    body := "begin x end".toList
    statements := [.block .compound [.simple (.other "x".toList) {}] {}] }]

/-- The loose form is read as the unit, and so is what is written for it. -/
theorem data_roundTrips_loose :
    SourceUnit.ofJson? looseUnit = some strictUnit
      ∧ SourceUnit.ofJson? strictUnit.toJson = SourceUnit.ofJson? looseUnit
      ∧ (SourceUnit.ofJson? strictUnit.toJson).map SourceUnit.toJson = some strictUnit.toJson := by
  have hread : SourceUnit.ofJson? looseUnit = some strictUnit := rfl
  have hwritten : (SourceUnit.ofJson? looseUnit).map SourceUnit.toJson
      = some strictUnit.toJson := by
    rw [hread]
    rfl
  exact ⟨hread, data_roundTrips.1.reread _ _ hwritten, data_roundTrips.1.normal _ _ hwritten⟩

end PascalAtlas
