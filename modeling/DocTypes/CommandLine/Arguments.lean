/-!
# Command line arguments

How a list of arguments is told apart into options and positional arguments (`Arguments.ofList?`).
An option has a long name and perhaps a letter. Letters may be grouped behind one dash; the last of
a group may take a value. A value stands in the same argument, after an equals sign or right behind
a letter, or it is the next argument, which then must not look like an option
(`Arguments.isDashed`). A double dash ends the options, and a single dash is an ordinary argument.
No option may be given twice.
-/

namespace DocTypes.CommandLine

/-- An option that a command knows, by its `name` and perhaps a `letter`. -/
structure OptionSpec where
  name : String
  letter : Option Char := none
  takesValue : Bool := true

/-- Options with their values, if they take any, and positional arguments, in order. -/
structure Arguments where
  options : List (String × Option String) := []
  positionals : List String := []
deriving DecidableEq

namespace Arguments

/-- What one argument says: nothing about options, some `options`, or options that are not complete
yet. -/
inductive Item
  | positional
  | options (given : List (String × Option String))
  /-- Options of which the last one, `name`, has its value in the next argument. -/
  | awaiting (given : List (String × Option String)) (name : String)

/-- Whether an argument looks like an option, or ends the options. A single dash does not. -/
def isDashed (argument : String) : Bool := argument != "-" && argument.toList.head? == some '-'

/-- The name in front of the first equals sign of `text`, and the value behind it, if there is
one. -/
def splitValue (text : List Char) : List Char × Option (List Char) :=
  match text.dropWhile (· != '=') with
  | [] => (text, none)
  | _ :: value => (text.takeWhile (· != '='), some value)

/-- Reads an option by its long name, which has to be that of one of the `specs`. -/
def readLong? (specs : List OptionSpec) (text : List Char) : Option Item := do
  let (name, value) := splitValue text
  let spec ← specs.find? fun s => s.name == String.ofList name
  match spec.takesValue, value with
  | true, some v => some (.options [(spec.name, some (String.ofList v))])
  | true, none => some (.awaiting [] spec.name)
  | false, none => some (.options [(spec.name, none)])
  | false, some _ => none

/-- Reads a group of letters. An option that takes a value takes all that is left of the group. -/
def readLetters? (specs : List OptionSpec) : List Char → Option Item
  | [] => some (.options [])
  | c :: rest =>
    match specs.find? fun s => s.letter == some c with
    | none => none
    | some spec =>
      if spec.takesValue then
        match rest with
        | [] => some (.awaiting [] spec.name)
        | '=' :: value => some (.options [(spec.name, some (String.ofList value))])
        | value => some (.options [(spec.name, some (String.ofList value))])
      else
        match readLetters? specs rest with
        | some (.options given) => some (.options ((spec.name, none) :: given))
        | some (.awaiting given name) => some (.awaiting ((spec.name, none) :: given) name)
        | _ => none

/-- Reads one `argument` that is no double dash. -/
def readItem? (specs : List OptionSpec) (argument : String) : Option Item :=
  if isDashed argument then
    match argument.toList with
    | '-' :: '-' :: text => readLong? specs text
    | _ :: letters => readLetters? specs letters
    | [] => some .positional
  else some .positional

/-- The arguments with more options in front, those `given` before them. -/
def withOptions (given : List (String × Option String)) (a : Arguments) : Arguments :=
  { a with options := given ++ a.options }

/-- Reads all arguments by `readItem?`, up to a double dash, behind which all of them are
positional. -/
def read? (specs : List OptionSpec) : List String → Option Arguments
  | [] => some {}
  | argument :: rest =>
    if argument = "--" then some { positionals := rest }
    else
      match readItem? specs argument with
      | none => none
      | some .positional =>
        (read? specs rest).map fun a => { a with positionals := argument :: a.positionals }
      | some (.options given) => (read? specs rest).map (withOptions given)
      | some (.awaiting given name) =>
        match rest with
        | [] => none
        | value :: rest =>
          if isDashed value then none
          else (read? specs rest).map (withOptions (given ++ [(name, some value)]))

/-- Reads all arguments by `read?`, unless an option is given twice. -/
def ofList? (specs : List OptionSpec) (arguments : List String) : Option Arguments := do
  let a ← read? specs arguments
  if (a.options.map Prod.fst).Nodup then some a else none

/-- Whether the option `name` is given. -/
def has (a : Arguments) (name : String) : Bool := (a.options.lookup name).isSome

/-- The value of the option `name`, if it is given and has one. -/
def value? (a : Arguments) (name : String) : Option String := (a.options.lookup name).join

end Arguments

end DocTypes.CommandLine
