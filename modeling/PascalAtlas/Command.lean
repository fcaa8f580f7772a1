import PascalAtlas.FilePath
import PascalAtlas.Frontend

/-!
# The command line

Arguments are options and **operands**. An option with a value takes it after `=`, from the same
argument, or from the next one, which must not look like an option; letters of options without a
value may share one argument. After `--` everything is an operand. No option may be given twice.
What does not fit is a usage error, and no difference is made between such errors.
-/

namespace PascalAtlas

/-! ## Options and operands -/

/-- An option that a command knows. -/
structure OptionSpec where
  long : String
  short : Option Char := none
  takesValue : Bool := false

/-- A part of the arguments. -/
inductive ArgPart where
  | option (long : String) (value : Option Text)
  | operand (text : Text)
  /-- Something that does not fit. -/
  | misfit
  deriving DecidableEq

namespace ArgPart

/-- Whether an argument can only be an option. -/
def looksLikeOption (arg : Text) : Bool :=
  arg.head? == some '-' && arg != ['-']

/-- The parts of an argument that begins with two dashes, without them, and the option that
still waits for a value. -/
def ofLong (specs : List OptionSpec) (body : Text) : List ArgPart × Option String :=
  let (name, value) :=
    match Text.cutAt? (· == '=') body with
    | some (name, value) => (name, some value)
    | none => (body, none)
  match specs.find? fun s => s.long.toList == name with
  | none => ([misfit], none)
  | some spec =>
    match spec.takesValue, value with
    | true, none => ([], some spec.long)
    | true, some v => ([option spec.long (some v)], none)
    | false, none => ([option spec.long none], none)
    | false, some _ => ([misfit], none)

/-- The parts of the letters after one dash, and the option that still waits for a value. -/
def ofLetters (specs : List OptionSpec) : Text → List ArgPart × Option String
  | [] => ([], none)
  | c :: cs =>
    match specs.find? fun s => s.short == some c with
    | none => ([misfit], none)
    | some spec =>
      if spec.takesValue then
        match cs with
        | [] => ([], some spec.long)
        | '=' :: value => ([option spec.long (some value)], none)
        | value => ([option spec.long (some value)], none)
      else
        let (parts, waiting) := ofLetters specs cs
        (option spec.long none :: parts, waiting)

/-- The **parts** of some arguments, while an option may wait for its value. -/
def ofArgs (specs : List OptionSpec) : Option String → List Text → List ArgPart
  | none, [] => []
  | some _, [] => [misfit]
  | some long, arg :: args =>
    if looksLikeOption arg then [misfit] else option long (some arg) :: ofArgs specs none args
  | none, arg :: args =>
    match arg with
    | ['-', '-'] => args.map operand
    | '-' :: '-' :: body =>
      let (parts, waiting) := ofLong specs body
      parts ++ ofArgs specs waiting args
    | '-' :: c :: cs =>
      let (parts, waiting) := ofLetters specs (c :: cs)
      parts ++ ofArgs specs waiting args
    | _ => operand arg :: ofArgs specs none args

end ArgPart

/-- The options and operands of a command. -/
structure Arguments where
  options : List (String × Option Text) := []
  operands : List Text := []

namespace Arguments

/-- The arguments with one more part. -/
def add? (a : Arguments) : ArgPart → Option Arguments
  | .misfit => none
  | .operand text => some { a with operands := a.operands ++ [text] }
  | .option long value =>
    if a.options.any fun (name, _) => name == long then none
    else some { a with options := a.options ++ [(long, value)] }

/-- Reads arguments for some options. -/
def ofArgs? (specs : List OptionSpec) (args : List Text) : Option Arguments :=
  (ArgPart.ofArgs specs none args).foldlM add? {}

/-- Whether an option was given. -/
def has (a : Arguments) (long : String) : Bool :=
  a.options.any fun (name, _) => name == long

/-- The value of an option, if it was given. -/
def value? (a : Arguments) (long : String) : Option Text :=
  (a.options.find? fun (name, _) => name == long).bind (·.2)

/-- A path, which must not be empty. -/
def path? (t : Text) : Option FilePath :=
  if t.isEmpty then none else some ⟨t⟩

/-- The path that an option gives, if it was given. -/
def pathOption? (a : Arguments) (long : String) : Option (Option FilePath) :=
  match a.value? long with
  | none => some none
  | some t => (path? t).map some

/-- The strategy that was asked for, if one was. Here its name must be exact. -/
def strategy? (a : Arguments) : Option (Option Strategy) :=
  match a.value? "strategy" with
  | none => some none
  | some t => ([Strategy.tree, .scan, .auto].find? fun s => s.name.toList == t).map some

/-- The paths of all operands, of which there must be one. -/
def inputs? (a : Arguments) : Option (List FilePath) :=
  if a.operands.isEmpty then none else a.operands.mapM path?

end Arguments

/-! ## Commands -/

/-- What a batch command works on. -/
structure BatchRequest where
  inputs : List FilePath
  config : Option FilePath := none
  strategy : Option Strategy := none
  deriving DecidableEq

/-- What is to be done. -/
inductive Command where
  | version
  /-- Write the documents of a batch, perhaps to a given directory and with a report. -/
  | build (request : BatchRequest) (out : Option FilePath) (report : Bool)
  /-- Print one unit. -/
  | ast (file : FilePath) (strategy : Strategy)
  /-- Print the report of a batch. -/
  | check (request : BatchRequest)
  deriving DecidableEq

namespace Command

/-- The option to say more. It changes nothing that is printed or written. -/
def verbose : OptionSpec :=
  { long := "verbose", short := some 'v' }

/-- The option to choose a configuration file. -/
def configOption : OptionSpec :=
  { long := "config", takesValue := true }

/-- The option to choose a strategy. -/
def strategyOption : OptionSpec :=
  { long := "strategy", takesValue := true }

/-- The batch that some arguments ask for. -/
def request? (a : Arguments) : Option BatchRequest := do
  return { inputs := ← a.inputs?, config := ← a.pathOption? "config", strategy := ← a.strategy? }

/-- Reads the arguments of `build`. -/
def build? (args : List Text) : Option Command := do
  let a ← Arguments.ofArgs?
    [verbose, { long := "out", short := some 'o', takesValue := true }, configOption,
      strategyOption, { long := "report" }] args
  return .build (← request? a) (← a.pathOption? "out") (a.has "report")

/-- Reads the arguments of `ast`. -/
def ast? (args : List Text) : Option Command := do
  let a ← Arguments.ofArgs? [verbose, strategyOption] args
  let [file] ← a.inputs? | none
  return .ast file ((← a.strategy?).getD .auto)

/-- Reads the arguments of `check`. -/
def check? (args : List Text) : Option Command := do
  let a ← Arguments.ofArgs? [verbose, configOption, strategyOption] args
  return .check (← request? a)

/-- Reads the arguments of a command with a name. -/
def named? (name : Text) (args : List Text) : Option Command :=
  if name = "build".toList then build? args
  else if name = "ast".toList then ast? args
  else if name = "check".toList then check? args
  else none

/-- The options before the name of a command. -/
def globalOptions : List OptionSpec :=
  [verbose, { long := "version", short := some 'V' }]

/-- What the parts of an argument before the name of a command come to: the arguments so far, or
that the version is asked for, which ends the reading. -/
def leading? (a : Arguments) : List ArgPart → Option (Arguments ⊕ Unit)
  | [] => some (.inl a)
  | part :: parts =>
    if part = .option "version" none then some (.inr ())
    else (a.add? part).bind fun a => leading? a parts

/-- Reads arguments after some that were options. -/
def afterOptions? (a : Arguments) : List Text → Option Command
  | [] => none
  | arg :: args =>
    if !ArgPart.looksLikeOption arg then
      named? arg args
    else if arg = ['-', '-'] then
      none
    else
      match leading? a (ArgPart.ofArgs globalOptions none [arg]) with
      | none => none
      | some (.inr ()) => some .version
      | some (.inl a) => afterOptions? a args

/-- **Reads** a command line. -/
def ofArgs? (args : List Text) : Option Command :=
  afterOptions? {} args

end Command

end PascalAtlas
