import PascalAtlas.Pattern
import PascalAtlas.Parser.Grammar
import PascalAtlas.SourceUnit
import PascalAtlas.SourceUnit.Mask

/-!
# Units from texts

What a text declares, found by patterns. This needs no tokens, so it also works for a text with an
unclosed comment or a stray character.

Everything is looked for in the **masked** text. Offsets in it are offsets in the source, and the
bodies of routines are cut from the source. A cut that would begin after its end, or fall inside a
character, is a `ScanFault`.
-/

namespace PascalAtlas

/-- A cut that is out of order, out of bounds or through a character. -/
structure ScanFault where
  start : Nat
  stop : Nat
  deriving DecidableEq

namespace Scanner

/-! ## Cuts and offsets -/

/-- The part of a text between two offsets. -/
def cut (t : Text) (start stop : Nat) : Except ScanFault Text :=
  match Text.slice? t start stop with
  | some part => .ok part
  | none => .error ⟨start, stop⟩

/-- The part of a text after an offset. -/
def tail (t : Text) (start : Nat) : Except ScanFault Text :=
  cut t start (Text.size t)

/-- The first offset at or after another at which no blank stands. -/
def skipBlanks (t : Text) (start : Nat) : Except ScanFault Nat := do
  let start := min start (Text.size t)
  let rest ← tail t start
  return start + Text.size (rest.takeWhile Text.isBlank)

/-- The ASCII word with which a text begins. -/
def leadingWord (t : Text) : Text :=
  t.takeWhile Text.isIdentChar

/-- The ASCII word at an offset. -/
def wordAt (t : Text) (start : Nat) : Text :=
  leadingWord ((Text.drop? start t).getD [])

/-- Whether a text has a given character at an offset. -/
def charAt (t : Text) (start : Nat) (c : Char) : Except ScanFault Bool := do
  return (← tail t start).head? == some c

/-- The offset of the `)` that closes the first `(`, for a text that begins at byte `offset`. -/
def closingParen (depth offset : Nat) : Text → Option Nat
  | [] => none
  | c :: cs =>
    let next := offset + c.utf8Size
    if c = '(' then
      closingParen (depth + 1) next cs
    else if c = ')' then
      if depth ≤ 1 then some offset else closingParen (depth - 1) next cs
    else
      closingParen depth next cs

/-- The offset of the `)` that closes the `(` at an offset. -/
def matchingParen (t : Text) (start : Nat) : Option Nat :=
  closingParen 0 start ((Text.drop? start t).getD [])

/-- The offset after the `;` that follows an offset and perhaps some blanks, or else that offset. -/
def afterSemi (t : Text) (start : Nat) : Except ScanFault Nat := do
  let next ← skipBlanks t start
  return if ← charAt t next ';' then next + 1 else start

/-- Whether `=` or `:` is the last sign before an offset: a routine keyword there names a
**procedural type**. -/
def inTypePosition (t : Text) (start : Nat) : Except ScanFault Bool := do
  let front ← cut t 0 start
  match (Text.trimEnd front).getLast? with
  | some '=' | some ':' => return true
  | _ => return false

/-- The offset of the first `;` at or after an offset, or else the size of the text. -/
def semiFrom (t : Text) (start : Nat) : Except ScanFault Nat := do
  let rest ← tail t start
  match Text.cutAt? (· == ';') rest with
  | some (front, _) => return start + Text.size front
  | none => return Text.size t

/-! ## Patterns -/

/-- The words that open the heading of a routine. -/
def routineWords : List String :=
  ["procedure", "function", "constructor", "destructor"]

/-- The header of a unit. Group 1 is its name. -/
def unitHeader : Pattern := .all
  [.boundary, .words ["unit", "program", "library"], .gap, .group 1 .dottedName, .blanks,
   .char fun c => c == ';' || c == '(']

/-- A `uses` clause. Group 1 is the list of units. -/
def usesClause : Pattern := .all
  [.boundary, .word "uses", .boundary, .group 1 (.many (.char (· != ';'))), .sign ';']

/-- The header of a class or record. Group 1 is its name, group 2 what it is. -/
def classHeader : Pattern := .all
  [.boundary, .group 1 .name, .blanks, .sign '=', .blanks,
   .optional (.seq (.word "type") .gap), .optional (.seq (.word "packed") .gap),
   .group 2 (.words ["class", "record"]), .boundary]

/-- The visibility words before a member. -/
def visibility : Pattern := .seq .first
  (.atLeastOne (.all
    [.optional (.seq (.word "strict") .gap),
     .words ["private", "protected", "public", "published", "automated"], .boundary, .blanks]))

/-- A property. Group 1 is its name, group 2 its type and specifiers. -/
def propertyMember : Pattern := .all
  [.first, .word "property", .gap, .group 1 .name, .blanks,
   .optional (.all [.sign '[', .many (.char (· != ']')), .sign ']']), .blanks,
   .optional (.all [.sign ':', .blanks, .group 2 .anything]), .last]

/-- A method. Group 1 is the word that opens it, group 2 its name, group 3 its parameters, group 4
its result type. -/
def methodMember : Pattern := .all
  [.first, .optional (.seq (.word "class") .gap), .group 1 (.words routineWords), .gap,
   .group 2 .dottedName, .blanks,
   .optional (.all [.sign '(', .group 3 .anything, .sign ')']), .blanks,
   .optional (.all [.sign ':', .blanks, .group 4 (.atLeastOne (.char fun _ => true))]), .last]

/-- Fields. Group 1 are their names, group 2 is their type. -/
def fieldMember : Pattern := .all
  [.first,
   .group 1 (.seq .name (.many (.all [.blanks, .sign ',', .blanks, .name]))),
   .blanks, .sign ':', .blanks, .group 2 (.atLeastOne (.char fun _ => true)), .last]

/-- The word that opens the implementation part. -/
def implementationWord : Pattern := .all
  [.boundary, .word "implementation", .boundary]

/-- The heading of a routine. Group 1 is the word that opens it, group 2 its name. -/
def headingStart : Pattern := .all
  [.boundary, .optional (.seq (.word "class") .gap), .group 1 (.words routineWords), .gap,
   .group 2 .dottedName]

/-- The words that open and close blocks, and those that open routines. -/
def blockWord : Pattern := .all
  [.boundary,
   .words (["begin", "asm", "case", "try", "record", "end"] ++ routineWords), .boundary]

/-! ## Block words -/

/-- A block word in small letters with the stretch it covers. -/
structure BlockWord where
  word : Text
  start : Nat
  stop : Nat
  deriving DecidableEq

/-- The **block words** of a text after an offset. -/
def blockWords (t : Text) (start : Nat) : Except ScanFault (List BlockWord) := do
  let rest ← tail t start
  return (blockWord.matchesIn start rest).map fun m => ⟨Text.lower m.text, m.start, m.stop⟩

/-- The `end` that closes a class or record, with `depth` records open inside it. -/
def closingEnd (depth : Nat) : List BlockWord → Option BlockWord
  | [] => none
  | w :: ws =>
    if w.word == "record".toList then
      closingEnd (depth + 1) ws
    else if w.word == "end".toList then
      match depth with
      | 0 => some w
      | depth + 1 => closingEnd depth ws
    else
      closingEnd depth ws

/-! ## Classes -/

/-- The stretches between the `;` outside brackets, for a text that begins at byte `offset` inside a
stretch that began at `start`. -/
def segmentsFrom (start depth offset : Nat) : Text → List (Nat × Nat)
  | [] => if start < offset then [(start, offset)] else []
  | c :: cs =>
    let next := offset + c.utf8Size
    if c = '(' || c = '[' then
      segmentsFrom start (depth + 1) next cs
    else if c = ')' || c = ']' then
      segmentsFrom start (depth - 1) next cs
    else if c = ';' && depth == 0 then
      (start, offset) :: segmentsFrom next depth next cs
    else
      segmentsFrom start depth next cs

/-- The stretches between the `;` outside brackets in a part of a text. -/
def segments (t : Text) (start stop : Nat) : Except ScanFault (List (Nat × Nat)) := do
  return segmentsFrom start 0 start (← cut t start stop)

/-- The property with a name and the text after its colon. -/
def property (name rest : Text) : PropertyDecl :=
  let words := Text.words rest
  let accessor (spec : Text) : Option Text :=
    (words.dropWhile fun w => !Text.eqIgnoreCase w spec)[1]?
  { name
    typeName := Text.join [' '] (words.takeWhile fun w =>
      !Text.isOneOf w Grammar.propertySpecifiers)
    read := accessor "read".toList
    write := accessor "write".toList }

/-- A member of a class. -/
inductive Member where
  | property (p : PropertyDecl)
  | method (r : Routine)
  | fields (fs : List FieldDecl)
  | unknown

/-- The part of a dotted name after its last dot. -/
def lastPart (name : Text) : Text :=
  match Text.cutAtLast? (· == '.') name with
  | some (_, part) => part
  | none => name

/-- The **member** that a text declares. -/
def memberOf (t : Text) (extent : Extent) : Member :=
  match propertyMember.find? t with
  | some m => .property (property (m.groupText 1) (m.groupText 2))
  | none =>
    match methodMember.find? t with
    | some m =>
      let kind := (RoutineKind.ofWord? (m.groupText 1)).getD .procedure
      let r := Routine.heading (lastPart (m.groupText 2)) kind (m.groupText 3)
        (Text.squeeze (m.groupText 4))
      .method (r.withExtent extent)
    | none =>
      if Text.isOneOf (leadingWord t) Grammar.directives then
        .unknown
      else
        match fieldMember.find? t with
        | some m =>
          let typeName := Text.squeeze (m.groupText 2)
          .fields ((Text.splitBy (· == ',') (m.groupText 1)).map fun name =>
            ⟨Text.trim name, typeName, extent⟩)
        | none => .unknown

/-- A class with one more member. -/
def addMember (c : ClassDecl) : Member → ClassDecl
  | .property p => { c with properties := c.properties ++ [p] }
  | .method r => { c with methods := c.methods ++ [r] }
  | .fields fs => { c with fields := c.fields ++ fs }
  | .unknown => c

/-- A segment of a class body without the words that may stand before a member. -/
def dropLead (t : Text) : Text :=
  let t :=
    match visibility.find? t with
    | some m => Text.trimStart m.after.rest
    | none => t
  let lead := leadingWord t
  if Text.isOneOf lead (["class", "var", "const"].map String.toList) then
    Text.trimStart (t.drop lead.length)
  else
    t

/-- Adds the members of some segments to a class. The variant part of a record ends the list. -/
def addMembers (masked : Text) (lines : LineIndex) (c : ClassDecl) :
    List (Nat × Nat) → Except ScanFault ClassDecl
  | [] => return c
  | (start, stop) :: rest => do
    let raw := Text.trimEnd (← cut masked start stop)
    let t := dropLead (Text.trimStart raw)
    if t.isEmpty then
      addMembers masked lines c rest
    else if Text.eqIgnoreCase (leadingWord t) "case".toList then
      return c
    else
      let last := start + Text.size raw
      let extent := lines.extent (last - Text.size t) last
      addMembers masked lines (addMember c (memberOf t extent)) rest

/-- The ancestor of a class: the first of the names in its parentheses. -/
def ancestorIn (names : Text) : Option Text :=
  let first := Text.squeeze (names.takeWhile (· != ','))
  if first.isEmpty then none else some first

/-- The offset after the modifiers of a class, or `none` for a class reference. -/
def classModifiers (masked : Text) (isRecord : Bool) (start : Nat) :
    Except ScanFault (Option Nat) := do
  if isRecord then
    return some start
  let word := wordAt masked start
  if Text.eqIgnoreCase word "of".toList then
    return none
  else if Text.isOneOf word (["abstract", "sealed"].map String.toList) then
    return some (← skipBlanks masked (start + Text.size word))
  else
    return some start

/-- The ancestor of a class and the offset after it, or `none` if the parentheses are not closed. -/
def classHeritage (masked : Text) (start : Nat) :
    Except ScanFault (Option (Option Text × Nat)) := do
  if ← charAt masked start '(' then
    match matchingParen masked start with
    | none => return none
    | some close =>
      let ancestor := ancestorIn (← cut masked (start + 1) close)
      return some (ancestor, ← skipBlanks masked (close + 1))
  else
    return some (none, start)

/-- The **class** whose header ends at an offset, and the offset at which it ends. A class without
ancestors and members is the announcement of one that is declared later. -/
def class? (masked : Text) (lines : LineIndex) (name : Capture) (headerEnd : Nat)
    (isRecord : Bool) : Except ScanFault (Option (ClassDecl × Nat)) := do
  let some start ← classModifiers masked isRecord (← skipBlanks masked headerEnd) | return none
  let some (ancestor, start) ← classHeritage masked start | return none
  let c : ClassDecl := { name := name.text, ancestor, isRecord }
  if ← charAt masked start ';' then
    if ancestor.isNone && !isRecord then
      return none
    else
      return some ({ c with extent := lines.extent name.start (start + 1) }, start + 1)
  else
    match closingEnd 0 (← blockWords masked start) with
    | none => return none
    | some closing =>
      let c ← addMembers masked lines c (← segments masked start closing.start)
      let stop ← afterSemi masked closing.stop
      return some ({ c with extent := lines.extent name.start stop }, stop)

/-- The classes of a text and the stretches they cover. A header inside the stretch of an earlier
class is passed over. -/
def classes (masked : Text) (lines : LineIndex) :
    List Match → List (ClassDecl × Nat × Nat) → Except ScanFault (List (ClassDecl × Nat × Nat))
  | [], found => return found
  | m :: ms, found => do
    match m.group? 1, m.group? 2 with
    | some name, some kind =>
      if found.any fun (_, start, stop) => start ≤ m.start && m.start < stop then
        classes masked lines ms found
      else
        let isRecord := Text.eqIgnoreCase kind.text "record".toList
        match ← class? masked lines name m.stop isRecord with
        | some (c, stop) => classes masked lines ms (found ++ [(c, name.start, stop)])
        | none => classes masked lines ms found
    | _, _ => classes masked lines ms found

/-! ## Routines -/

/-- What follows the name of a routine: parameters, result type and directives. -/
structure HeadingRest where
  params : Text
  returnType : Text
  bodiless : Bool
  /-- The offset after all of it. -/
  stop : Nat

/-- Passes the directives after a heading: whether one says that there is **no body**, and the
offset after them. There are at most `n` of them. -/
def directives (masked : Text) : Nat → Bool → Nat → Except ScanFault (Bool × Nat)
  | 0, bodiless, start => return (bodiless, start)
  | n + 1, bodiless, start => do
    let here ← skipBlanks masked start
    let word := wordAt masked here
    if word.isEmpty || !Text.isOneOf word Grammar.directives then
      return (bodiless, start)
    let next ← tail masked (← skipBlanks masked (here + Text.size word))
    if next.head? == some ':' || next.head? == some ',' then
      return (bodiless, start)
    let bodiless := bodiless || Text.isOneOf word (["forward", "external"].map String.toList)
    let semi ← semiFrom masked here
    directives masked n bodiless (min (semi + 1) (Text.size masked))

/-- The parameters after the name of a routine and the offset after them. -/
def paramsAt (masked : Text) (start : Nat) : Except ScanFault (Text × Nat) := do
  if ← charAt masked start '(' then
    match matchingParen masked start with
    | some close =>
      let params ← cut masked (start + 1) close
      return (params, ← skipBlanks masked (close + 1))
    | none => return ([], start)
  else
    return ([], start)

/-- Reads what follows the name of a routine. -/
def headingRest (masked : Text) (start : Nat) : Except ScanFault HeadingRest := do
  let (params, start) ← paramsAt masked (← skipBlanks masked start)
  let semi ← semiFrom masked start
  let returnType ←
    if ← charAt masked start ':' then
      pure (Text.squeeze (← cut masked (start + 1) semi))
    else
      pure []
  let (bodiless, stop) ←
    directives masked masked.length false (min (semi + 1) (Text.size masked))
  return { params, returnType, bodiless, stop }

/-- What is open at a block word: a record, or a block of statements. -/
inductive Open where
  | record
  | block
  deriving DecidableEq

/-- The body of a routine: the stretch between its `begin` and its `end`, and the offset after
them. -/
structure Body where
  start : Nat
  stop : Nat
  after : Nat
  deriving DecidableEq

/-- Whether a block word opens a routine. -/
def BlockWord.isRoutine (w : BlockWord) : Bool :=
  routineWords.any fun r => r.toList == w.word

/-- Finds the **body** among block words. `opened` are the records and blocks that are
open, `nested` counts the local routines whose body is still to come, and `begun` is
where the body began. -/
def bodyAmong (masked : Text) (opened : List Open) (nested : Nat) (begun : Option Nat) :
    List BlockWord → Except ScanFault (Option Body)
  | [] => return none
  | w :: ws => do
    if w.isRoutine then
      if opened.isEmpty && begun.isNone then
        if ← inTypePosition masked w.start then
          bodyAmong masked opened nested begun ws
        else
          bodyAmong masked opened (nested + 1) begun ws
      else
        bodyAmong masked opened nested begun ws
    else if w.word == "record".toList then
      bodyAmong masked (.record :: opened) nested begun ws
    else if w.word == "begin".toList || w.word == "asm".toList then
      let begun :=
        if opened.isEmpty && nested == 0 && begun.isNone then some w.stop else begun
      bodyAmong masked (.block :: opened) nested begun ws
    else if w.word == "case".toList then
      if opened.head? == some .block then
        bodyAmong masked (.block :: opened) nested begun ws
      else
        bodyAmong masked opened nested begun ws
    else if w.word == "try".toList then
      bodyAmong masked (.block :: opened) nested begun ws
    else if w.word == "end".toList then
      match opened with
      | [] => return none
      | [closed] =>
        match begun with
        | some start => return some ⟨start, w.start, w.stop⟩
        | none => bodyAmong masked [] (if closed = .block then nested - 1 else nested) none ws
      | _ :: opened => bodyAmong masked opened nested begun ws
    else
      bodyAmong masked opened nested begun ws

/-- The body of the routine whose heading ends at an offset. -/
def body? (masked : Text) (start : Nat) : Except ScanFault (Option Body) := do
  bodyAmong masked [] 0 none (← blockWords masked start)

/-- The class that owns a routine, if its name says so, and the name without it. -/
def splitOwner (name : Text) : Option Text × Text :=
  match Text.cutAtLast? (· == '.') name with
  | some (owner, name) => (some owner, name)
  | none => (none, name)

/-- What the search for routines needs to know. -/
structure Scope where
  source : Text
  masked : Text
  lines : LineIndex
  /-- The stretches that classes cover. -/
  covered : List (Nat × Nat)
  /-- The offset at which the implementation part begins. -/
  split : Nat

/-- The routine whose heading was found, and the offset at which to go on. -/
def Scope.routine (s : Scope) (m : Match) : Except ScanFault (Option Text × Routine × Nat) := do
  let kind := (RoutineKind.ofWord? (m.groupText 1)).getD .procedure
  let rest ← headingRest s.masked m.stop
  let (owner, name) := splitOwner (m.groupText 2)
  let r := Routine.heading name kind rest.params rest.returnType
  let body ←
    if rest.bodiless || m.start < s.split then pure none else body? s.masked rest.stop
  match body with
  | some b =>
    let stop ← afterSemi s.masked b.after
    let r := r.withBody (← cut s.source b.start b.stop) []
    return (owner, r.withExtent (s.lines.extent m.start stop), b.after)
  | none =>
    return (owner, r.withExtent (s.lines.extent m.start rest.stop), max m.stop rest.stop)

/-- Whether a heading declares nothing of its own: it is a member of a class
or a procedural type. -/
def Scope.passesOver (s : Scope) (m : Match) : Except ScanFault Bool := do
  if s.covered.any fun (start, stop) => start ≤ m.start && m.start < stop then
    return true
  else
    inTypePosition s.masked m.start

/-- Attaches the routines from an offset on, at most `n` of them. -/
def Scope.routines (s : Scope) : Nat → Nat → SourceUnit → Except ScanFault SourceUnit
  | 0, _, u => return u
  | n + 1, start, u => do
    let some cursor := Cursor.at? s.masked start | throw ⟨start, Text.size s.masked⟩
    match headingStart.search? cursor with
    | none => return u
    | some m =>
      if ← s.passesOver m then
        s.routines n m.stop u
      else
        let (owner, r, next) ← s.routine m
        s.routines n next (u.attach owner r)

/-- The units named in a `uses` clause. -/
def usedUnits (list : Text) : List Text :=
  let names := (Text.splitBy (· == ',') list).map fun entry =>
    let entry := Text.trim entry
    let name :=
      match Text.cut? " in ".toList (Text.lower entry) with
      | some (front, _) => entry.take front.length
      | none => entry
    (Text.words name).flatten
  names.filter fun name => !name.isEmpty

end Scanner

/-- The **unit** that a text declares, as far as patterns show it. -/
def SourceUnit.ofText (src fallback : Text) : Except ScanFault SourceUnit := do
  let masked := Mask.mask src
  let lines := LineIndex.ofText src
  let name := ((Scanner.unitHeader.find? masked).map (·.groupText 1)).getD fallback
  let uses := (Scanner.usesClause.matchesIn 0 masked).flatMap fun m =>
    Scanner.usedUnits (m.groupText 1)
  let classes ← Scanner.classes masked lines (Scanner.classHeader.matchesIn 0 masked) []
  let scope : Scanner.Scope :=
    { source := src, masked, lines
      covered := classes.map (·.2)
      split := ((Scanner.implementationWord.find? masked).map Match.start).getD 0 }
  scope.routines (masked.length + 1) 0 { name, uses, classes := classes.map (·.1) }

end PascalAtlas
