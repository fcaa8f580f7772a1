import PascalAtlas.Text.Quoted

/-!
# Tokens

A source text is read as a list of **tokens**: reserved words, punctuation, names and literals, each
with the stretch of bytes that it covers. Reserved words are recognised without regard to ASCII
case; a name keeps its spelling. The list ends with one `eof` that covers nothing.
-/

namespace PascalAtlas

/-! ## Reserved words -/

/-- The **reserved words** of the language. -/
inductive Keyword where
  | kwUnit | kwProgram | kwLibrary | kwInterface | kwImplementation | kwUses | kwType | kwClass
  | kwRecord | kwBegin | kwEnd | kwProcedure | kwFunction | kwConstructor | kwDestructor
  | kwProperty | kwVar | kwConst | kwResourcestring | kwThreadvar | kwLabel | kwIf | kwThen
  | kwElse | kwWhile | kwDo | kwFor | kwTo | kwDownto | kwIn | kwWith | kwTry | kwExcept
  | kwFinally | kwCase | kwOf | kwRepeat | kwUntil | kwRaise | kwInherited | kwInitialization
  | kwFinalization | kwArray | kwSet | kwAsm | kwNil | kwAnd | kwOr | kwXor | kwNot | kwDiv
  | kwMod | kwShl | kwShr | kwIs | kwAs
  deriving DecidableEq

namespace Keyword

/-- Every reserved word, once. -/
def all : List Keyword :=
  [.kwUnit, .kwProgram, .kwLibrary, .kwInterface, .kwImplementation, .kwUses, .kwType, .kwClass,
   .kwRecord, .kwBegin, .kwEnd, .kwProcedure, .kwFunction, .kwConstructor, .kwDestructor,
   .kwProperty, .kwVar, .kwConst, .kwResourcestring, .kwThreadvar, .kwLabel, .kwIf, .kwThen,
   .kwElse, .kwWhile, .kwDo, .kwFor, .kwTo, .kwDownto, .kwIn, .kwWith, .kwTry, .kwExcept,
   .kwFinally, .kwCase, .kwOf, .kwRepeat, .kwUntil, .kwRaise, .kwInherited, .kwInitialization,
   .kwFinalization, .kwArray, .kwSet, .kwAsm, .kwNil, .kwAnd, .kwOr, .kwXor, .kwNot, .kwDiv,
   .kwMod, .kwShl, .kwShr, .kwIs, .kwAs]

/-- The reserved word in small letters. -/
def spelling : Keyword → String
  | .kwUnit => "unit"
  | .kwProgram => "program"
  | .kwLibrary => "library"
  | .kwInterface => "interface"
  | .kwImplementation => "implementation"
  | .kwUses => "uses"
  | .kwType => "type"
  | .kwClass => "class"
  | .kwRecord => "record"
  | .kwBegin => "begin"
  | .kwEnd => "end"
  | .kwProcedure => "procedure"
  | .kwFunction => "function"
  | .kwConstructor => "constructor"
  | .kwDestructor => "destructor"
  | .kwProperty => "property"
  | .kwVar => "var"
  | .kwConst => "const"
  | .kwResourcestring => "resourcestring"
  | .kwThreadvar => "threadvar"
  | .kwLabel => "label"
  | .kwIf => "if"
  | .kwThen => "then"
  | .kwElse => "else"
  | .kwWhile => "while"
  | .kwDo => "do"
  | .kwFor => "for"
  | .kwTo => "to"
  | .kwDownto => "downto"
  | .kwIn => "in"
  | .kwWith => "with"
  | .kwTry => "try"
  | .kwExcept => "except"
  | .kwFinally => "finally"
  | .kwCase => "case"
  | .kwOf => "of"
  | .kwRepeat => "repeat"
  | .kwUntil => "until"
  | .kwRaise => "raise"
  | .kwInherited => "inherited"
  | .kwInitialization => "initialization"
  | .kwFinalization => "finalization"
  | .kwArray => "array"
  | .kwSet => "set"
  | .kwAsm => "asm"
  | .kwNil => "nil"
  | .kwAnd => "and"
  | .kwOr => "or"
  | .kwXor => "xor"
  | .kwNot => "not"
  | .kwDiv => "div"
  | .kwMod => "mod"
  | .kwShl => "shl"
  | .kwShr => "shr"
  | .kwIs => "is"
  | .kwAs => "as"

/-- The reserved word that a text spells, ignoring ASCII case. -/
def ofWord? (word : Text) : Option Keyword :=
  all.find? fun k => k.spelling.toList == Text.lower word

/-- Whether the word opens the **heading of a routine**. -/
def isRoutine : Keyword → Bool
  | .kwProcedure | .kwFunction | .kwConstructor | .kwDestructor => true
  | _ => false

/-- Whether the word opens a **section of declarations**. -/
def isSection : Keyword → Bool
  | .kwType | .kwVar | .kwConst | .kwResourcestring | .kwThreadvar | .kwLabel => true
  | _ => false

/-- The name under which a message shows the word. -/
def name (k : Keyword) : String :=
  "Kw" ++ k.spelling.capitalize

end Keyword

/-! ## Punctuation -/

/-- Operators and punctuation. -/
inductive Symbol where
  | assign | colon | semi | comma | dot | dotDot | eq | neq | lt | gt | le | ge | plus | minus
  | star | slash | caret | at | lParen | rParen | lBracket | rBracket
  deriving DecidableEq

namespace Symbol

/-- The symbol as it is written. -/
def spelling : Symbol → String
  | .assign => ":="
  | .colon => ":"
  | .semi => ";"
  | .comma => ","
  | .dot => "."
  | .dotDot => ".."
  | .eq => "="
  | .neq => "<>"
  | .lt => "<"
  | .gt => ">"
  | .le => "<="
  | .ge => ">="
  | .plus => "+"
  | .minus => "-"
  | .star => "*"
  | .slash => "/"
  | .caret => "^"
  | .at => "@"
  | .lParen => "("
  | .rParen => ")"
  | .lBracket => "["
  | .rBracket => "]"

/-- Every symbol, the longer before its own beginnings, so that the **first** one with which a text
begins is the longest. -/
def all : List Symbol :=
  [.assign, .dotDot, .neq, .le, .ge, .colon, .semi, .comma, .dot, .eq, .lt, .gt, .plus, .minus,
   .star, .slash, .caret, .at, .lParen, .rParen, .lBracket, .rBracket]

/-- The name under which a message shows the symbol. -/
def name : Symbol → String
  | .assign => "Assign"
  | .colon => "Colon"
  | .semi => "Semi"
  | .comma => "Comma"
  | .dot => "Dot"
  | .dotDot => "DotDot"
  | .eq => "Eq"
  | .neq => "Neq"
  | .lt => "Lt"
  | .gt => "Gt"
  | .le => "Le"
  | .ge => "Ge"
  | .plus => "Plus"
  | .minus => "Minus"
  | .star => "Star"
  | .slash => "Slash"
  | .caret => "Caret"
  | .at => "At"
  | .lParen => "LParen"
  | .rParen => "RParen"
  | .lBracket => "LBracket"
  | .rBracket => "RBracket"

end Symbol

/-! ## Tokens -/

/-- What a token is. Names and literals carry a text: a name its spelling, a number and a character
code the text as written, a string literal the text that it denotes. -/
inductive TokenKind where
  | keyword (word : Keyword)
  | symbol (sign : Symbol)
  | ident (name : Text)
  | number (digits : Text)
  | str (value : Text)
  | charCode (code : Text)
  | eof
  deriving DecidableEq

namespace TokenKind

/-- Whether two kinds are the same **apart from the text they carry**. -/
def sameShape : TokenKind → TokenKind → Bool
  | .keyword a, .keyword b => a == b
  | .symbol a, .symbol b => a == b
  | .ident _, .ident _ => true
  | .number _, .number _ => true
  | .str _, .str _ => true
  | .charCode _, .charCode _ => true
  | .eof, .eof => true
  | _, _ => false

/-- Whether the kind is a name spelled as given, ignoring ASCII case. -/
def isWord (k : TokenKind) (word : Text) : Bool :=
  match k with
  | .ident name => Text.eqIgnoreCase name word
  | _ => false

/-- Whether the kind is a name that is one of some words, ignoring ASCII case. -/
def isOneOf (k : TokenKind) (words : List Text) : Bool :=
  match k with
  | .ident name => Text.isOneOf name words
  | _ => false

/-- Whether the kind is a name. -/
def isIdent : TokenKind → Bool
  | .ident _ => true
  | _ => false

/-- Whether the kind is a reserved word that opens the heading of a routine. -/
def isRoutine : TokenKind → Bool
  | .keyword k => k.isRoutine
  | _ => false

/-- Whether the kind is a reserved word that opens a section of declarations. -/
def isSection : TokenKind → Bool
  | .keyword k => k.isSection
  | _ => false

/-- The kind as messages show it. -/
def describe : TokenKind → String
  | .keyword k => k.name
  | .symbol s => s.name
  | .ident name => "Ident(" ++ Text.quoted name ++ ")"
  | .number digits => "Number(" ++ Text.quoted digits ++ ")"
  | .str value => "Str(" ++ Text.quoted value ++ ")"
  | .charCode code => "CharCode(" ++ Text.quoted code ++ ")"
  | .eof => "Eof"

end TokenKind

/-- A token with the bytes `start`, …, `stop - 1` that it covers. -/
structure Token where
  kind : TokenKind
  start : Nat
  stop : Nat
  deriving DecidableEq

end PascalAtlas
