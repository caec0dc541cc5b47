import DocTypes.CommandLine.Arguments

/-!
# Commands

What can be asked for on the command line: to describe the classes of a manifest, to resolve a
declaration inside a class, or to check a value against the type of a member. `Command.ofArguments?`
reads a command line.
-/

namespace DocTypes.CommandLine

/-- The type that a value is checked against: that of a property, of a `parameter`, or what a method
returns. -/
inductive Target
  | property (name : String)
  | parameter (method name : String)
  | returnType (method : String)
deriving DecidableEq, Repr

/-- What is to be done with a manifest (`Commands`); without a `className` all classes are
described. -/
inductive Task
  | describe (className : Option String)
  | resolve (className declaration : String)
  | validate (className : String) (target : Target) (value : String) (isStatic : Bool)
deriving DecidableEq, Repr

/-- A `task` and the file of the manifest; a dash is the standard input. -/
structure Command where
  manifest : String
  task : Task
deriving DecidableEq, Repr

/-- The option to say more, which every command has. It changes nothing about the outcome. -/
def verboseOption : OptionSpec := ⟨"verbose", some 'v', false⟩

/-- The option that names a class, for some commands by need and for `describe` by choice. -/
def classOption : OptionSpec := ⟨"class", some 'c', true⟩

/-- The options of the commands that work in a class, `describe` and `resolve`. -/
def classOptions : List OptionSpec := [verboseOption, classOption]

/-- The options of the command that checks a value (`ValidateArgs`). -/
def validateOptions : List OptionSpec :=
  [verboseOption, classOption, ⟨"property", some 'p', true⟩, ⟨"method", some 'm', true⟩,
    ⟨"parameter", none, true⟩, ⟨"value", none, true⟩, ⟨"static", none, false⟩]

namespace Command

/-- Reads the arguments of the command `describe`. -/
def ofDescribe? (arguments : List String) : Option Command := do
  let a ← Arguments.ofList? classOptions arguments
  match a.positionals with
  | [manifest] => some ⟨manifest, .describe (a.value? "class")⟩
  | _ => none

/-- Reads the arguments of the command `resolve`, which needs the class. -/
def ofResolve? (arguments : List String) : Option Command := do
  let a ← Arguments.ofList? classOptions arguments
  match a.positionals with
  | [manifest, declaration] => some ⟨manifest, .resolve (← a.value? "class") declaration⟩
  | _ => none

/-- The target that the options name. A property stands alone, and a `parameter` belongs to a
`method`. -/
def target? (a : Arguments) : Option Target :=
  match a.value? "property", a.value? "method", a.value? "parameter" with
  | some name, none, none => some (.property name)
  | none, some method, some name => some (.parameter method name)
  | none, some method, none => some (.returnType method)
  | _, _, _ => none

/-- Reads the arguments of the command `validate`, which needs the class, a `target?` and the
value. -/
def ofValidate? (arguments : List String) : Option Command := do
  let a ← Arguments.ofList? validateOptions arguments
  match a.positionals with
  | [manifest] =>
    some ⟨manifest, .validate (← a.value? "class") (← target? a) (← a.value? "value")
      (a.has "static")⟩
  | _ => none

/-- Reads the arguments of the command called `name`. -/
def ofName? (name : String) (arguments : List String) : Option Command :=
  if name = "describe" then ofDescribe? arguments
  else if name = "resolve" then ofResolve? arguments
  else if name = "validate" then ofValidate? arguments
  else none

/-- Reads a command line. The `verboseOption` may stand once in front of the name of the command.
The name of a manifest is never empty. -/
def ofArguments? (arguments : List String) : Option Command := do
  let (name, rest) ← match arguments with
    | first :: name :: rest =>
      if first = "-v" ∨ first = "--verbose" then some (name, rest) else some (first, name :: rest)
    | [name] => some (name, [])
    | [] => none
  let command ← ofName? name rest
  if command.manifest = "" then none else some command

end Command

end DocTypes.CommandLine
