import PascalAtlas.Parser.Step

/-!
# The grammar

Units, declarations and statements as steps. The grammar is **forgiving**: it recognises the shape
of declarations and blocks and does not look into expressions and types, which are runs of tokens up
to a boundary. Errors are caught in three places, each with its own way to go on: a declaration of
the unit, a member of a class, a statement of a list.
-/

namespace PascalAtlas.Grammar

open Step (all choose when expect expectIdent errorToken)

/-! ## Words and signs -/

/-- The words that set the visibility of the members after them. -/
def visibilities : List Text :=
  ["private", "protected", "public", "published", "automated"].map String.toList

/-- The words that may follow the heading of a routine. -/
def directives : List Text :=
  ["abstract", "assembler", "cdecl", "deprecated", "dispid", "dynamic", "experimental", "export",
   "external", "far", "final", "forward", "inline", "library", "message", "near", "overload",
   "override", "pascal", "platform", "register", "reintroduce", "safecall", "static", "stdcall",
   "varargs", "virtual", "winapi"].map String.toList

/-- The words that end the type of a property. -/
def propertySpecifiers : List Text :=
  ["read", "write", "default", "nodefault", "stored", "index", "implements", "readonly",
   "writeonly", "dispid"].map String.toList

/-- The next token opens the heading of a routine. -/
def routineWord : Test :=
  .any (Keyword.all.filter Keyword.isRoutine |>.map .keyword)

/-- The token after the next one opens the heading of a routine. -/
def routineWordAhead : Test :=
  .any (Keyword.all.filter Keyword.isRoutine |>.map fun k => .ahead (.keyword k))

/-- The next tokens are the heading of a routine, perhaps after `class`. -/
def routineStart : Test :=
  .or routineWord (.and (.keyword .kwClass) routineWordAhead)

/-- The next token opens a section of declarations. -/
def sectionWord : Test :=
  .any (Keyword.all.filter Keyword.isSection |>.map .keyword)

/-- The next token is a directive. Before `:` and `,` such a word is the name of a field. -/
def directive : Test :=
  .and (.oneOf directives) (.not (.any [.ahead (.symbol .colon), .ahead (.symbol .comma)]))

/-- Consume a bracketed stretch. -/
def bracketed (opening closing : Symbol) : Step :=
  .takeClosed (.balanced (.symbol opening) (.symbol closing)) .unbalanced

/-- Consume a bracketed stretch if one begins here. -/
def optionalBracketed (opening closing : Symbol) : Step :=
  when (.symbol opening) (bracketed opening closing)

/-- Consume a `;` if there is one. -/
def optionalSemi : Step :=
  when (.symbol .semi) .bump

/-- A dot and a name come next. -/
def dottedPart : Test :=
  .and (.symbol .dot) (.ahead (.ident []))

/-- A name that may have several parts. -/
def dottedName : Step :=
  all [expectIdent, .loop dottedPart (all [.bump, .bump])]

/-- A type, up to a kind that satisfies a test. -/
def typeUpTo (isStop : TokenKind → Bool) : Step :=
  .node .typeRef (.take (.typeRef isStop))

/-- The kinds that end the type of a field or a result. -/
def endsType : TokenKind → Bool
  | .symbol .semi | .keyword .kwEnd => true
  | _ => false

/-- The kinds that end the type of a property. -/
def endsPropertyType (k : TokenKind) : Bool :=
  k.sameShape (.symbol .semi) || k.isOneOf propertySpecifiers

/-! ## Headings -/

/-- The header of a unit, program or library. -/
def unitHeader : Step :=
  .node .unitHeader (all
    [.bump, dottedName, optionalBracketed .lParen .rParen, expect (.symbol .semi)])

/-- One used unit, perhaps with the file it is in. -/
def usedUnit : Step :=
  all [dottedName, when (.keyword .kwIn) (all [.bump, expect (.str [])])]

/-- The list of used units. -/
def usesClause : Step :=
  .node .usesClause (all
    [.bump, usedUnit, .loop (.symbol .comma) (all [.bump, usedUnit]), expect (.symbol .semi)])

/-- The parameters of a routine. -/
def formalParams : Step :=
  .node .formalParams (bracketed .lParen .rParen)

/-- One directive with its arguments. `forward` and `external` say that there is **no body**. -/
def directiveClause : Step :=
  all
    [when (.oneOf ["forward".toList, "external".toList]) (.noteBodiless true),
     .bump, .take (.upTo [.symbol .semi]), optionalSemi]

/-- The heading of a routine with its directives. -/
def routineHeading : Step :=
  .node .routineHeading (all
    [when (.keyword .kwClass) .bump,
     .branch routineWord .bump (.fail .routineKeyword),
     expectIdent,
     optionalBracketed .lt .gt,
     .loop dottedPart (all [.bump, .bump, optionalBracketed .lt .gt]),
     when (.symbol .lParen) formalParams,
     when (.symbol .colon) (all [.bump, typeUpTo endsType]),
     when (.symbol .eq) (.take .upToSemi),
     optionalSemi,
     .noteBodiless false,
     .loop directive directiveClause])

/-! ## Classes -/

/-- Fields of one type. -/
def fieldDecl : Step :=
  .node .fieldDecl (all
    [expectIdent, .loop (.symbol .comma) (all [.bump, expectIdent]), expect (.symbol .colon),
     typeUpTo endsType, optionalSemi])

/-- A property with its specifiers. -/
def propertyDecl : Step :=
  .node .propertyDecl (all
    [.bump, expectIdent, optionalBracketed .lBracket .rBracket,
     when (.symbol .colon) (all [.bump, typeUpTo endsPropertyType]),
     .take (.upTo [.symbol .semi]), expect (.symbol .semi),
     when (.and (.word "default".toList) (.ahead (.symbol .semi))) (all [.bump, .bump])])

/-- The `end` of the class, or the end of the tokens. -/
def classEnd : Test :=
  .any [.keyword .kwEnd, .eof]

/-- The variant part of a record, which shares the record's `end`. -/
def variantPart : Step :=
  .loop (.not classEnd) (.branch (.symbol .lParen) (bracketed .lParen .rParen) .bump)

/-- A member of a class or record. -/
def member : Step :=
  choose
    [(.word "strict".toList, all [.bump, .bump]),
     (.oneOf visibilities, .bump),
     (.keyword .kwProperty, propertyDecl),
     (.keyword .kwClass,
       choose
         [(routineWordAhead, routineHeading),
          (.any [.ahead (.keyword .kwProperty), .ahead (.keyword .kwVar)], .bump)]
         (.fail .classKeyword)),
     (routineWord, routineHeading),
     (.any [.keyword .kwVar, .keyword .kwConst, .keyword .kwType, .symbol .semi], .bump),
     (.keyword .kwCase, variantPart),
     (.and .ident (.ahead (.symbol .eq)), all [.take .upToSemi, optionalSemi]),
     (.ident, fieldDecl)]
    (.fail .classBody)

/-- The members of a class up to its `end`. -/
def members : Step :=
  all
    [.loop (.not classEnd) (.ifMoved (.guarded .pastMember member) .skip (errorToken .classBody)),
     expect (.keyword .kwEnd)]

/-- What follows `class` or `record`: modifiers and ancestors, and the members after that. -/
def classRest (body : Step) : Step :=
  all
    [.bump, .loop (.oneOf ["abstract".toList, "sealed".toList]) .bump,
     when (.symbol .lParen) (.node .heritage (bracketed .lParen .rParen)), body]

/-- A class or record. A class, but not a record, may end right after its ancestors with a `;`. -/
def classType : Step :=
  .node .classType
    (.branch (.keyword .kwRecord)
      (classRest members)
      (classRest (.branch (.symbol .semi) .skip members)))

/-- The declaration of one type. -/
def typeDecl : Step :=
  .node .typeDecl (all
    [expectIdent,
     optionalBracketed .lt .gt,
     expect (.symbol .eq),
     when (.keyword .kwType) .bump,
     choose
       [(.keyword .kwClass,
          choose
            [(.ahead (.symbol .semi), .bump), (.ahead (.keyword .kwOf), .take .upToSemi)]
            classType),
        (.keyword .kwRecord, classType),
        (.and (.word "packed".toList)
            (.any [.ahead (.keyword .kwRecord), .ahead (.keyword .kwClass)]),
          all [.bump, classType]),
        (.keyword .kwInterface,
          all [.bump, when (.not (.symbol .semi)) (.takeClosed .throughEnd .missingEnd)])]
       .skip,
     .take .upToSemi,
     expect (.symbol .semi)])

/-- A section of type declarations. -/
def typeSection : Step :=
  all
    [.bump,
     .loop (.and .ident (.any [.ahead (.symbol .eq), .ahead (.symbol .lt)]))
       (.guarded .toDeclaration typeDecl)]

/-! ## Statements -/

/-- A run of tokens up to the end of the statement or one of some kinds. -/
def expression (stops : List TokenKind) : Step :=
  .node .expr (.take (.expression stops))

/-- Statements separated by `;`, up to one of some kinds. -/
def statements (stops : List TokenKind) : Step :=
  let ended := Test.or .eof (.any (stops.map .here))
  .loop (.not ended)
    (.ifMoved (.guarded .toStatementEnd (.call .statement))
      (choose [(.symbol .semi, .bump), (ended, .skip)] (.report .separator))
      (choose [(.symbol .semi, .bump), (ended, .skip)] (errorToken .statementList)))

/-- Statements between `begin` and `end`. -/
def compound : Step :=
  .node .compound (all
    [expect (.keyword .kwBegin), statements [.keyword .kwEnd], expect (.keyword .kwEnd)])

/-- A keyword, an expression, `do` and a statement. -/
def headed (kind : NodeKind) : Step :=
  .node kind (all
    [.bump, expression [.keyword .kwDo], expect (.keyword .kwDo), .call .statement])

/-- A conditional statement. -/
def conditional : Step :=
  .node .ifStmt (all
    [.bump, expression [.keyword .kwThen], expect (.keyword .kwThen), .call .statement,
     when (.keyword .kwElse) (all [.bump, .call .statement])])

/-- Statements between `repeat` and `until`. -/
def repetition : Step :=
  .node .repeatStmt (all
    [.bump, statements [.keyword .kwUntil], expect (.keyword .kwUntil), expression []])

/-- One arm of a `case`. -/
def caseArm : Step :=
  .node .caseArm (all
    [expression [.symbol .colon], expect (.symbol .colon), .call .statement])

/-- A `case` with its arms. -/
def caseStatement : Step :=
  .node .caseStmt (all
    [.bump, expression [.keyword .kwOf], expect (.keyword .kwOf),
     .loop (.not (.any [.keyword .kwEnd, .eof]))
       (.ifMoved
         (choose
           [(.keyword .kwElse, all [.bump, statements [.keyword .kwEnd]]),
            (.symbol .semi, .bump)]
           caseArm)
         .skip
         (.fail .caseStatement)),
     expect (.keyword .kwEnd)])

/-- One handler after `except`. -/
def handler : Step :=
  all
    [.bump, expression [.keyword .kwDo], expect (.keyword .kwDo), .call .statement, optionalSemi]

/-- Protected statements with their handlers or their cleanup. -/
def tryStatement : Step :=
  .node .tryStmt (all
    [.bump,
     statements [.keyword .kwExcept, .keyword .kwFinally],
     choose
       [(.keyword .kwExcept,
          all
            [.bump, .loop (.word "on".toList) handler, when (.keyword .kwElse) .bump,
             statements [.keyword .kwEnd]]),
        (.keyword .kwFinally, all [.bump, statements [.keyword .kwEnd]])]
       (.fail .handler),
     expect (.keyword .kwEnd)])

/-- Assembler code, which is not looked into. -/
def assembler : Step :=
  .node .simple (all
    [.bump, .take (.upTo [.keyword .kwEnd]), expect (.keyword .kwEnd)])

/-- The tests that hold where a statement is **empty**. -/
def statementEnd : Test :=
  .any
    [.symbol .semi, .keyword .kwEnd, .keyword .kwElse, .keyword .kwUntil, .keyword .kwExcept,
     .keyword .kwFinally, .eof]

/-- A statement, which may be empty. -/
def statement : Step :=
  choose
    [(.keyword .kwBegin, compound),
     (.keyword .kwIf, conditional),
     (.keyword .kwWhile, headed .whileStmt),
     (.keyword .kwFor, headed .forStmt),
     (.keyword .kwWith, headed .withStmt),
     (.keyword .kwCase, caseStatement),
     (.keyword .kwRepeat, repetition),
     (.keyword .kwTry, tryStatement),
     (.keyword .kwAsm, assembler),
     (statementEnd, .skip)]
    (.node .simple (.take (.expression [])))

/-! ## Routines -/

/-- A section of local declarations. -/
def localDecls : Step :=
  .node .localDecls (all [.bump, .take .locals])

/-- What follows the heading of a routine that has a body: local declarations and routines, and the
block. -/
def routineBody : Step :=
  all
    [.loop (.or sectionWord routineStart) (.branch sectionWord localDecls (.call .routine)),
     choose [(.keyword .kwBegin, compound), (.keyword .kwAsm, assembler)] .skip,
     optionalSemi]

/-- A routine. In the interface part it is a heading and nothing else. -/
def routine : Step :=
  .node .routineDecl (all
    [routineHeading, when (.not (.or .bodiless .inInterface)) routineBody])

/-- The steps of the rules that call themselves. -/
def rules : Rule → Step
  | .statement => statement
  | .routine => routine

/-! ## Units -/

/-- The initialization or finalization of a unit, or the block of a program. -/
def unitSection : Step :=
  .node .unitSection
    (.branch (.keyword .kwBegin)
      compound
      (all [.bump, statements [.keyword .kwFinalization, .keyword .kwEnd]]))

/-- A step that is guarded as a declaration of the unit. -/
def declaration (body : Step) : Step :=
  .guarded .toDeclaration body

/-- One item at the level of the unit. -/
def unitItem : Step :=
  choose
    [(.any [.keyword .kwUnit, .keyword .kwProgram, .keyword .kwLibrary], declaration unitHeader),
     (.keyword .kwInterface, all [.enter .interface, .bump]),
     (.keyword .kwImplementation, all [.enter .implementation, .bump]),
     (.keyword .kwUses, declaration usesClause),
     (.keyword .kwType, declaration typeSection),
     (sectionWord, declaration localDecls),
     (routineStart, declaration (.call .routine)),
     (.any [.keyword .kwInitialization, .keyword .kwFinalization, .keyword .kwBegin],
       declaration unitSection),
     (.keyword .kwEnd, all [.bump, when (.symbol .dot) (all [.bump, .noteClosed])]),
     (.any [.symbol .dot, .symbol .semi], .bump)]
    (errorToken .unitLevel)

/-- A whole unit: items up to the `end.` or the end of the tokens. -/
def unit : Step :=
  .loop (.not (.or .eof .closed)) (.ifMoved unitItem .skip (errorToken .unitLevel))

end PascalAtlas.Grammar
