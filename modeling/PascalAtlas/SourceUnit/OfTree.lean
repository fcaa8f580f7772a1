import PascalAtlas.Parser
import PascalAtlas.SourceUnit

/-!
# Units from syntax trees

What a syntax tree declares. Only declarations directly under the root count; an `error` node and
everything in it is passed over. Names are read from tokens; types, parameters, conditions and
bodies are cut from the source text.

The statements of a body are collected with a stack of **open scopes**, one list for each block that
has been entered and not left. A block that is left becomes one statement in the scope around it;
only the outermost `begin … end` is the body itself and adds its statements directly.
-/

namespace PascalAtlas

/-- A source text with its line index. -/
structure Source where
  text : Text
  lines : LineIndex

namespace Source

/-- A source text with the index of its lines. -/
def ofText (t : Text) : Source :=
  ⟨t, LineIndex.ofText t⟩

/-- The stretch of source that a tree covers. -/
def extentOf (s : Source) (t : Tree) : Extent :=
  s.lines.extent t.start t.stop

/-! ## Names and texts -/

/-- The characters of the dotted name with which some tokens begin. -/
def dottedChars (wantName : Bool) : List Token → Text
  | [] => []
  | t :: ts =>
    match t.kind, wantName with
    | .ident name, true => name ++ dottedChars false ts
    | .symbol .dot, false => '.' :: dottedChars true ts
    | _, _ => []

/-- The **dotted name** with which some tokens begin, without a dot at its end. -/
def dottedName (tokens : List Token) : Text :=
  ((dottedChars true tokens).reverse.dropWhile (· == '.')).reverse

/-- The units named in a `uses` clause. -/
def usedUnits (clause : Tree) : List Text :=
  let groups := Text.splitBy
    (fun t : Token => t.kind == .symbol .comma || t.kind == .symbol .semi) (clause.tokens.drop 1)
  (groups.map dottedName).filter fun name => !name.isEmpty

/-- The type that a declaration names, with single spaces between its words. -/
def typeText (s : Source) (decl : Tree) : Text :=
  match decl.child? .typeRef with
  | some t => Text.squeeze (t.text s.text)
  | none => []

/-! ## Headings -/

/-- The parts of a routine's dotted name. Generic arguments between the parts are passed over. -/
def nameParts (depth : Nat) (wantName : Bool) : List Token → List Text
  | [] => []
  | t :: ts =>
    match t.kind with
    | .symbol .lt => nameParts (depth + 1) wantName ts
    | .symbol .gt => nameParts (depth - 1) wantName ts
    | kind =>
      if 0 < depth then
        nameParts depth wantName ts
      else
        match kind, wantName with
        | .ident name, true => name :: nameParts depth false ts
        | .symbol .dot, false => nameParts depth true ts
        | _, _ => []

/-- The kind of routine that a keyword opens. -/
def routineKind : Option TokenKind → RoutineKind
  | some (.keyword .kwFunction) => .function
  | some (.keyword .kwConstructor) => .constructor
  | some (.keyword .kwDestructor) => .destructor
  | _ => .procedure

/-- The text between the parentheses of a parameter list. -/
def paramsText (s : Source) (heading : Tree) : Text :=
  match heading.child? .formalParams with
  | none => []
  | some params =>
    let t := Text.trim (params.text s.text)
    let t := (Text.dropPrefix? ['('] t).getD t
    (Text.dropSuffix? [')'] t).getD t

/-- The class that owns a routine, if its name says so, and the routine without its body. -/
def heading (s : Source) (h : Tree) : Option Text × Routine :=
  let tokens := h.tokens.dropWhile fun t => t.kind == .keyword .kwClass
  let kind := routineKind (tokens.head?.map Token.kind)
  let parts := nameParts 0 true tokens.tail
  let name := parts.getLast?.getD []
  let owner := if parts.dropLast.isEmpty then none else some (Text.join ['.'] parts.dropLast)
  (owner, Routine.heading name kind (s.paramsText h) (s.typeText h))

/-! ## Classes -/

/-- The fields of one declaration, all of one type. -/
def fields (s : Source) (decl : Tree) : List FieldDecl :=
  let names := (decl.tokens.takeWhile fun t => t.kind != .symbol .colon).filterMap fun t =>
    match t.kind with
    | .ident name => some name
    | _ => none
  names.map fun name => ⟨name, s.typeText decl, s.extentOf decl⟩

/-- The dotted name after the first occurrence of a word. -/
def accessor (word : Text) (tokens : List Token) : Option Text :=
  match tokens.dropWhile fun t => !t.kind.isWord word with
  | [] => none
  | _ :: rest => some (dottedName rest) |>.filter fun name => !name.isEmpty

/-- The property that a declaration declares. -/
def property? (s : Source) (decl : Tree) : Option PropertyDecl :=
  decl.ident?.map fun name =>
    { name
      typeName := s.typeText decl
      read := accessor "read".toList decl.tokens
      write := accessor "write".toList decl.tokens }

/-- The members of a class body that are nodes of a kind. -/
def membersOf (kind : NodeKind) (body : Tree) : List Tree :=
  body.nodes.filter fun m => m.kind? == some kind

/-- The class or record that a type declaration declares. -/
def class? (s : Source) (decl : Tree) : Option ClassDecl :=
  match decl.child? .classType, decl.ident? with
  | some body, some name =>
    some {
      name
      ancestor := (body.child? .heritage).bind fun h =>
        some (dottedName (h.tokens.drop 1)) |>.filter fun name => !name.isEmpty
      isRecord := (body.tokens.take 2).any fun t => t.kind == .keyword .kwRecord
      fields := (membersOf .fieldDecl body).flatMap s.fields
      properties := (membersOf .propertyDecl body).filterMap s.property?
      methods := (membersOf .routineHeading body).map fun m =>
        (s.heading m).2.withExtent (s.extentOf m)
      extent := s.extentOf decl }
  | _, _ => none

/-! ## Statements -/

/-- The open **scopes**, the innermost first: the statements found so far in each. -/
abbrev Scopes := List (List Statement)

namespace Scopes

/-- Adds statements to the innermost scope. -/
def push (statements : List Statement) : Scopes → Scopes
  | [] => []
  | top :: scopes => (top ++ statements) :: scopes

end Scopes

/-- The shape of a block of a kind with a header. -/
def blockShape (kind : NodeKind) (header : Text) : BlockShape :=
  match kind with
  | .ifStmt => .conditional header
  | .whileStmt => .whileLoop header
  | .forStmt => .forLoop header
  | .withStmt => .withScope header
  | .tryStmt => .protected_
  | .caseStmt => .selection header
  | .repeatStmt => .repeatLoop header
  | _ => .compound

/-- The header of a block: the text of its first expression. -/
def blockHeader (s : Source) (block : Tree) : Text :=
  match block.child? .expr with
  | some e => Text.squeeze (e.text s.text)
  | none => []

/-- Leaves the innermost scope, which is that of a block. -/
def leaveBlock (s : Source) (kind : NodeKind) (block : Tree) : Scopes → Scopes
  | [] => []
  | body :: scopes =>
    if kind = .compound ∧ scopes.length = 1 then
      Scopes.push body scopes
    else
      Scopes.push [.block (blockShape kind (s.blockHeader block)) body (s.extentOf block)] scopes

mutual

/-- Goes through a tree and collects its statements. -/
def walk (s : Source) : Tree → Scopes → Scopes
  | .leaf _, scopes => scopes
  | .node kind start stop children, scopes =>
    if kind.isBlock then
      s.leaveBlock kind (.node kind start stop children) (walkAll s children ([] :: scopes))
    else if kind = .caseArm then
      walkAll s children scopes
    else if kind = .simple then
      let t := Tree.node kind start stop children
      Scopes.push [.simple (SimpleForm.ofText (t.text s.text)) (s.extentOf t)] scopes
    else
      scopes

/-- Goes through some trees, one after the other. -/
def walkAll (s : Source) : List Tree → Scopes → Scopes
  | [], scopes => scopes
  | t :: ts, scopes => walkAll s ts (walk s t scopes)

end

/-- The statements of a routine's block. -/
def statements (s : Source) (block : Tree) : List Statement :=
  ((s.walk block [[]]).head?).getD []

/-! ## Routines -/

/-- The text **strictly between** the first token of a block and its closing `end`. -/
def innerText (s : Source) (block : Tree) : Text :=
  let start := (block.firstToken?.map Token.stop).getD block.start
  let closing := block.lastToken?.filter fun t => t.kind == .keyword .kwEnd
  let stop := (closing.map Token.start).getD block.stop
  (Text.slice? s.text start (max stop start)).getD []

/-- Whether a block is assembler code. -/
def isAssembler (block : Tree) : Bool :=
  block.firstToken?.any fun t => t.kind == .keyword .kwAsm

/-- The routine that a declaration declares, with the class that owns it. -/
def routine? (s : Source) (decl : Tree) : Option (Option Text × Routine) :=
  (decl.child? .routineHeading).bind fun h =>
    let (owner, r) := s.heading h
    let r := r.withExtent (s.extentOf decl)
    if r.name.isEmpty then
      none
    else
      match decl.child? .compound with
      | some block => some (owner, r.withBody (s.innerText block) (s.statements block))
      | none =>
        match (decl.child? .simple).filter isAssembler with
        | some block => some (owner, r.withBody (s.innerText block) [])
        | none => some (owner, r)

end Source

/-! ## Units -/

namespace SourceUnit

/-- The nodes of a kind directly under the root of a tree. -/
def declarations (kind : NodeKind) (tree : SyntaxTree) : List Tree :=
  tree.root.nodes.filter fun n => n.kind? == some kind

/-- The name in the last header that has one, or else the given name. -/
def nameIn (tree : SyntaxTree) (fallback : Text) : Text :=
  let names := (declarations .unitHeader tree).map fun h => Source.dottedName (h.tokens.drop 1)
  ((names.filter fun name => !name.isEmpty).getLast?).getD fallback

/-- The **unit** that a syntax tree declares. Implementations are attached when all classes are
known, so a class may follow the implementation of its methods. -/
def ofTree (src : Text) (tree : SyntaxTree) (fallback : Text) : SourceUnit :=
  let s := Source.ofText src
  let declared : SourceUnit :=
    { name := nameIn tree fallback
      uses := (declarations .usesClause tree).flatMap Source.usedUnits
      classes := (declarations .typeDecl tree).filterMap s.class? }
  ((declarations .routineDecl tree).filterMap s.routine?).foldl
    (fun u (owner, r) => u.attach owner r) declared

end SourceUnit

end PascalAtlas
