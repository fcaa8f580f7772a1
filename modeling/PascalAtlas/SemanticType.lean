import PascalAtlas.Ordered
import PascalAtlas.Text.Blank

/-!
# Semantic types

What a declared type stands for. A name is **resolved** when a class of the batch goes by it, or
when the language defines it; otherwise it stays as it was written.
-/

namespace PascalAtlas

/-- What a declared type stands for. -/
inductive SemanticType where
  /-- A class of the batch under its qualified name, or a type of the language. -/
  | named (name : Text)
  | array (element : SemanticType)
  /-- A class itself: its name and the declared types of its fields. -/
  | class_ (name : Text) (fields : Table Text Text)
  | unresolved (declared : Text)
  deriving DecidableEq

/-- The part of a qualified name after its last dot. -/
def simpleName (qualified : Text) : Text :=
  match Text.cutAtLast? (· == '.') qualified with
  | some (_, name) => name
  | none => qualified

namespace SemanticType

/-- The types that the language defines. -/
def builtins : List Text :=
  ["Integer", "Cardinal", "ShortInt", "SmallInt", "LongInt", "Int64", "Byte", "Word", "LongWord",
   "UInt64", "NativeInt", "NativeUInt", "Boolean", "ByteBool", "WordBool", "LongBool", "Char",
   "AnsiChar", "WideChar", "String", "AnsiString", "WideString", "UnicodeString", "ShortString",
   "Real", "Single", "Double", "Extended", "Comp", "Currency", "TDateTime", "TDate", "TTime",
   "Variant", "OleVariant", "Pointer", "TObject", "TStrings", "TStringList"].map String.toList

/-- Whether the language defines a type, ignoring ASCII case. -/
def isBuiltin (name : Text) : Bool :=
  Text.isOneOf name builtins

/-- The name of a type in documents. A type that was not declared goes by `object`. -/
def typeName : SemanticType → Text
  | .named name => name
  | .array element => "array of ".toList ++ element.typeName
  | .class_ name _ => name
  | .unresolved declared => if declared.isEmpty then "object".toList else declared

/-- The name of a type without the unit it comes from. -/
def simpleTypeName (t : SemanticType) : Text :=
  simpleName t.typeName

/-- Whether a type, or the type of an array's items, is resolved. -/
def isResolved : SemanticType → Bool
  | .named _ | .class_ .. => true
  | .array element => element.isResolved
  | .unresolved _ => false

/-- The fields of a class. -/
def fields? : SemanticType → Option (Table Text Text)
  | .class_ _ fields => some fields
  | _ => none

end SemanticType

/-! ## Resolving names -/

/-- The classes of a batch under their qualified names. -/
abbrev Registry := Table Text SemanticType

namespace Registry

/-- The element type of `array of X` and `TArray<X>`. -/
def arrayElement? (declared : Text) : Option Text :=
  let lower := Text.lower declared
  if Text.startsWith lower "array of ".toList then
    some (Text.trim (declared.drop 9))
  else if Text.startsWith lower "tarray<".toList && declared.getLast? == some '>' then
    some (Text.trim (declared.drop 7).dropLast)
  else
    none

theorem length_trim_le (t : Text) : (Text.trim t).length ≤ t.length := by
  unfold Text.trim Text.trimEnd Text.trimStart
  simp only [List.length_reverse]
  exact Nat.le_trans (List.dropWhile_sublist _).length_le
    (by simpa using (List.dropWhile_sublist Text.isBlank).length_le)

theorem length_of_startsWith {t front : Text} (h : Text.startsWith t front = true) :
    front.length ≤ t.length := by
  unfold Text.startsWith at h
  fun_induction Text.dropPrefix? front t with
  | case1 => simp
  | case2 => simp at h
  | case3 ps c cs ih => simpa using ih h
  | case4 => simp at h

/-- The element of an array type is **shorter** than the type. -/
theorem length_arrayElement? {declared element : Text}
    (h : arrayElement? declared = some element) : element.length < declared.length := by
  unfold arrayElement? at h
  have len : (Text.lower declared).length = declared.length := List.length_map ..
  simp only at h
  split at h
  next hs =>
    have front := length_of_startsWith hs
    have nine : "array of ".toList.length = 9 := by decide
    obtain rfl := Option.some.inj h
    have bound := length_trim_le (declared.drop 9)
    simp only [List.length_drop] at bound
    omega
  next =>
    split at h
    next hs =>
      have front := length_of_startsWith (Bool.and_eq_true _ _ ▸ hs).1
      have seven : "tarray<".toList.length = 7 := by decide
      obtain rfl := Option.some.inj h
      have bound := length_trim_le (declared.drop 7).dropLast
      simp only [List.length_dropLast, List.length_drop] at bound
      omega
    next => simp at h

/-- The first class whose qualified name ends in a dot and a name. -/
def suffixMatch? (r : Registry) (name : Text) : Option (Text × SemanticType) :=
  r.entries.find? fun (q, _) => Text.endsWith q ('.' :: name)

/-- What a name that is not an array type stands for. -/
def resolveName (r : Registry) (declared : Text) : SemanticType :=
  match r.suffixMatch? declared with
  | some (qualified, _) => .named qualified
  | none => if SemanticType.isBuiltin declared then .named declared else .unresolved declared

/-- **Resolves** a declared type. A class of the batch comes before a type of the language, and of
several classes the first one registered. -/
def resolve (r : Registry) (declared : Text) : SemanticType :=
  let declared := Text.trim declared
  if declared.isEmpty then
    .unresolved []
  else
    match _h : arrayElement? declared with
    | some element => .array (r.resolve element)
    | none => r.resolveName declared
termination_by declared.length
decreasing_by exact Nat.lt_of_lt_of_le (length_arrayElement? _h) (length_trim_le _)

/-- Finds a class by its simple name, or else by any part of its qualified name. -/
def findClass? (r : Registry) (name : Text) : Option (Text × SemanticType) :=
  match r.suffixMatch? name with
  | some found => some found
  | none => r.entries.find? fun (q, _) => Text.contains q name

end Registry

end PascalAtlas
