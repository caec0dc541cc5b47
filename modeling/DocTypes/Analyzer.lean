import DocTypes.Descriptor.Build

/-!
# Feature analyzers

An `Analyzer` extracts a feature of a class, a JSON value, from its descriptor. Several analyzers
run one after the other on a descriptor without features (`extractAll`), and the first that fails
ends the run. The feature of an analyzer is kept under its name; of two with one name the last one
counts.
-/

namespace DocTypes

/-- What an analyzer can look at: the `descriptor` so far, the declaration it was built from, and
the known types. -/
structure AnalysisContext where
  descriptor : ClassDescriptor
  declaration : ClassDeclaration
  registry : TypeRegistry

/-- A named way to extract a feature (`FeatureAnalyzer`). -/
structure Analyzer where
  name : String
  extract : AnalysisContext → Except ConstructionError Json

namespace Analyzer

/-- The features that `analyzers` extract, by their names (`extract_all`). -/
def extractAll (analyzers : List Analyzer) (context : AnalysisContext) :
    Except ConstructionError (OrderedMap String Json) :=
  analyzers.foldlM (fun features a => (a.extract context).map (features.insert a.name)) ∅

/-- The entry for a property that holds objects: their class, and whether they come in an array. A
property of any other type has none, and one without a type neither. An array of arrays would be
asked for the class of its elements, which `classOf` refuses (`isFlat_of_ofDeclaration` rules it
out). -/
def objectMember? (context : AnalysisContext) (p : PropertyDescriptor) :
    Except ConstructionError (Option (String × Json)) :=
  match p.declaration with
  | none => .ok none
  | some declaration =>
    match declaration.singleTerm? with
    | none => .ok none
    | some term =>
      if term.isObjectType context.registry then
        let (element, isArray) := match term with
          | .arrayOf element => (element, true)
          | _ => (term, false)
        match (context.descriptor.scope context.registry).classOf element with
        | .ok name =>
          .ok (some (p.name, .object [("class", .string name), ("is_array", .bool isArray)]))
        | .error e =>
          .error (.analyzerFailed "object_properties" context.descriptor.name e.diagnostic.message)
      else .ok none

/-- The properties that hold objects of a class, or arrays of them (`ObjectProperties`), each with
its `objectMember?`. -/
def objectProperties : Analyzer where
  name := "object_properties"
  extract context := do
    let entries ← context.descriptor.properties.values.mapM (objectMember? context)
    return .object (OrderedMap.ofList (entries.filterMap id)).entries

/-- The number of class annotations with the tag `tag`, in 64 bits. -/
def tagCount (tag : String) : Analyzer where
  name := "tag_count"
  extract context :=
    .ok (.ofInt (UInt64.ofNat (context.descriptor.annotations.byTag tag).length).toNat)

/-- An analyzer that fails with the given `message`. -/
def failing (message : String) : Analyzer where
  name := "failing"
  extract context := .error (.analyzerFailed "failing" context.declaration.name message)

end Analyzer

/-- The descriptor of a declared class (`build`), with the features that analyzers extract from what
`ofDeclaration` has made. -/
def ClassDescriptor.build (c : ClassDeclaration) (r : TypeRegistry) (analyzers : List Analyzer) :
    Except ConstructionError ClassDescriptor := do
  let descriptor ← ClassDescriptor.ofDeclaration c r
  let features ← Analyzer.extractAll analyzers ⟨descriptor, c, r⟩
  return { descriptor with features := features }

end DocTypes
