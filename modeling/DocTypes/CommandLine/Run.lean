import DocTypes.CommandLine.Command
import DocTypes.Descriptor.Json
import DocTypes.Json.Node
import DocTypes.MetadataFactory
import DocTypes.Validation
import DocTypes.Value.Json

/-!
# Running commands

A command reads its manifest, builds the metadata it needs and answers on standard output (`run`).
The exit status is 0 if it succeeds, 1 if a value is checked and found invalid, and 2 if anything
goes wrong; then nothing has been written.
-/

namespace DocTypes.CommandLine

/-- Why a command gives no answer; anything that `Task.perform` meets on its way. -/
inductive Failure
  | usage
  | unreadableManifest (name : String)
  | metadata (cause : MetadataError)
  | declaration (cause : ParseError)
  | unreadableValue
  | validation (cause : ValidationError)

/-- The wording of a failure: that of the `cause` if there is one. -/
def Failure.message : Failure → String
  | usage => "Usage: describe MANIFEST [--class CLASS] | " ++
    "resolve MANIFEST --class CLASS DECLARATION | validate MANIFEST --class CLASS " ++
    "(--property NAME | --method NAME [--parameter NAME]) --value JSON [--static]"
  | unreadableManifest name => s!"Manifest not found: {name}"
  | metadata cause => cause.diagnostic.message
  | declaration cause => cause.diagnostic.message
  | unreadableValue => "The value is no JSON text"
  | validation cause => cause.diagnostic.message

/-- What a successful command answers: the `text`, and whether a value that was checked is
`accepted`. -/
structure Answer where
  text : String
  accepted : Bool := true

/-- The factory for a manifest (`factory_from_json`), with the analyzers that commands use. -/
def factoryOf (text : String) : Except Failure MetadataFactory := do
  let manifest ← (Manifest.ofText text).mapError .metadata
  let registry ← manifest.registry.mapError fun e => .metadata (.registry e)
  return ⟨manifest.classes, registry, [Analyzer.objectProperties]⟩

/-- The descriptor of the class `className`, by `MetadataFactory.metadata` and an empty cache. -/
def descriptorOf (f : MetadataFactory) (className : String) : Except Failure ClassDescriptor :=
  ((f.metadata className {}).1.map (·.descriptor)).mapError .metadata

/-- Describes one class, or all classes as one object (`handle_describe_command`). For one class
`to_json_pretty` prints the record itself, and for all of them each record is turned into a tree
first. Both go through the same fields in the same order, so `ClassDescriptor.toJson` stands for the
two of them here, and `renderPretty_zip` compares what is shown. -/
def describe (f : MetadataFactory) : Option String → Except Failure String
  | some className => (descriptorOf f className).map (·.renderPretty)
  | none => do
    let shared ← ((f.metadataAll f.source.keys {}).1).mapError .metadata
    return (Json.object (f.source.keys.zip (shared.map (·.descriptor.toJson)))).renderPretty

/-- The text of a declaration inside a class, with full class names (`resolve_in_class`). -/
def resolve (f : MetadataFactory) (className declaration : String) : Except Failure String := do
  let descriptor ← descriptorOf f className
  let resolved ← ((descriptor.scope f.registry).resolve declaration).mapError .declaration
  return resolved.text

/-- Checks a value against the type of a member, in the registry `r` and the context `c`. -/
def check (d : ClassDescriptor) (r : TypeRegistry) (c : ObjectContext) (v : Value) :
    Target → Except ValidationError Bool
  | .property name => d.validateProperty r c name v
  | .parameter method name => d.validateParameter r c method name v
  | .returnType method => d.validateReturn r c method v

/-- Checks a JSON value against the type of a member (`handle_validate_command`), with a new
instance of the class as receiver or, if `isStatic`, without one. The receiver has the identity 0,
and instances in the value have others (`Value.ofJson` counts from 1). -/
def validate (f : MetadataFactory) (className : String) (target : Target) (value : String)
    (isStatic : Bool) : Except Failure Bool := do
  let descriptor ← descriptorOf f className
  match Json.parse? value with
  | none => .error .unreadableValue
  | some json =>
    let context : ObjectContext := if isStatic then .static className else .receiver 0 className
    (check descriptor f.registry context (Value.ofJson json 1).1 target).mapError .validation

/-- Performs a task on the text `manifest`, with the factory that `factoryOf` makes of it. -/
def Task.perform (task : Task) (manifest : String) : Except Failure Answer := do
  let f ← factoryOf manifest
  match task with
  | .describe className => return { text := ← CommandLine.describe f className }
  | .resolve className declaration =>
    return { text := ← CommandLine.resolve f className declaration }
  | .validate className target value isStatic =>
    let accepted ← CommandLine.validate f className target value isStatic
    return { text := if accepted then "valid" else "invalid", accepted := accepted }

/-- What a process shows: its exit status, what it writes as its `output`, and what it complains
of. -/
structure Outcome where
  exitStatus : Nat
  output : String := ""
  complaint : String := ""
deriving DecidableEq, Repr

/-- The outcome of an answer or a failure. A failure is all on the side of the `complaint`. -/
def Outcome.ofResult : Except Failure Answer → Outcome
  | .ok answer =>
    { exitStatus := if answer.accepted then 0 else 1, output := answer.text ++ "\n" }
  | .error failure => { exitStatus := 2, complaint := failure.message ++ "\n" }

/-- Runs a command line (`main`), given what can be read under the name of a manifest by
`manifest?`. -/
def run (arguments : List String) (manifest? : String → Option String) : Outcome :=
  Outcome.ofResult <|
    match Command.ofArguments? arguments with
    | none => .error .usage
    | some command =>
      match manifest? command.manifest with
      | none => .error (.unreadableManifest command.manifest)
      | some text => command.task.perform text

end DocTypes.CommandLine
