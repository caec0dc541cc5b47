import DocTypes.Analyzer
import DocTypes.Manifest

/-!
# The metadata factory

A `MetadataFactory` builds the descriptors of declared classes on demand and keeps each one it has
built. The cache is a value that goes through every request. A descriptor that is handed out carries
the serial number it was built under, so two answers are the same shared descriptor if their serials
are equal. A serial is never used again, also not after the cache has been cleared (`clear_cache`).
A failed build leaves nothing behind.
-/

namespace DocTypes

/-- Why there is no metadata for a class, or for a manifest. Only the first two causes come from a
factory. -/
inductive MetadataError
  /-- The class `className` is not declared. -/
  | classNotFound (className : String)
  /-- The declaration of the class is at fault; `cause` says how. -/
  | construction (cause : ConstructionError)
  /-- The types of the manifest are at fault; `cause` says how. -/
  | registry (cause : RegistryError)
  /-- A text that holds no manifest, or no descriptor. -/
  | unreadable
deriving DecidableEq

/-- The wording of the error as a `Diagnostic`; a cause of another type words itself. -/
def MetadataError.diagnostic : MetadataError → Diagnostic
  | classNotFound className =>
    { message := s!"No declaration found for class {className}"
      code := "docmeta::metadata::class_not_found"
      help := some "Is the class part of the declaration source?" }
  | construction cause => cause.diagnostic
  | registry cause => cause.diagnostic
  | unreadable =>
    { message := "Class metadata could not be (de)serialized"
      code := "docmeta::metadata::serialization" }

/-- Reads a manifest (`from_json`): its `parts?`, and then the classes by name. -/
def Manifest.ofText (text : String) : Except MetadataError Manifest :=
  match Manifest.parts? text with
  | none => .error .unreadable
  | some (types, classes) => (Manifest.ofParts types classes).mapError .registry

/-- A `descriptor` that is shared by all who asked for it. The `serial` tells it apart from an equal
one that was built at another time. -/
structure SharedDescriptor where
  serial : Nat
  descriptor : ClassDescriptor

/-- The descriptors that have been built, and the next serial number. Clearing leaves `nextSerial`
as it is. -/
structure DescriptorCache where
  entries : OrderedMap String SharedDescriptor := ∅
  nextSerial : Nat := 0

namespace DescriptorCache

/-- Whether the descriptor of a class is at hand (`is_cached`). -/
def contains (cache : DescriptorCache) (className : String) : Bool :=
  cache.entries.contains className

/-- The cache without any descriptor (`clear_cache`). -/
def clear (cache : DescriptorCache) : DescriptorCache := { cache with entries := ∅ }

end DescriptorCache

/-- What descriptors are built from: the declared classes, the known types, and the `analyzers` in
order. -/
structure MetadataFactory where
  source : ClassSource
  registry : TypeRegistry
  analyzers : List Analyzer

namespace MetadataFactory

/-- A freshly built descriptor. Only a class that the `source` declares has one. -/
def build (f : MetadataFactory) (className : String) : Except MetadataError ClassDescriptor :=
  match f.source.get? className with
  | none => .error (.classNotFound className)
  | some declaration =>
    (ClassDescriptor.build declaration f.registry f.analyzers).mapError .construction

/-- The descriptor of a class (`metadata_for_class`): the one at hand, else a new one by `build`,
which is kept. -/
def metadata (f : MetadataFactory) (className : String) (cache : DescriptorCache) :
    Except MetadataError SharedDescriptor × DescriptorCache :=
  match cache.entries.get? className with
  | some shared => (.ok shared, cache)
  | none =>
    match f.build className with
    | .error e => (.error e, cache)
    | .ok descriptor =>
      let shared : SharedDescriptor := ⟨cache.nextSerial, descriptor⟩
      (.ok shared, ⟨cache.entries.insert className shared, cache.nextSerial + 1⟩)

/-- The descriptors of several classes by `metadata`, up to the first failure. What has been built
by then is kept. -/
def metadataAll (f : MetadataFactory) :
    List String → DescriptorCache → Except MetadataError (List SharedDescriptor) × DescriptorCache
  | [], cache => (.ok [], cache)
  | className :: rest, cache =>
    match f.metadata className cache with
    | (.error e, cache) => (.error e, cache)
    | (.ok shared, cache) =>
      let (others, cache) := f.metadataAll rest cache
      (others.map (shared :: ·), cache)

/-- The descriptors of a class and of the declared classes above it, root first
(`hierarchy_for_class`). Above a class is its `parentChain`, whether or not the classes in between
are declared. -/
def hierarchy (f : MetadataFactory) (className : String) (cache : DescriptorCache) :
    Except MetadataError (List SharedDescriptor) × DescriptorCache :=
  if f.source.contains className then
    f.metadataAll ((f.registry.parentChain className).reverse.filter f.source.contains) cache
  else (.error (.classNotFound className), cache)

end MetadataFactory

end DocTypes
