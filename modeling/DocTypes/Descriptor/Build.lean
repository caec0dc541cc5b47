import DocTypes.Descriptor.Basic

/-!
# Building descriptors

`ofDeclaration` builds the descriptor of a class from its declaration in a fixed order: the imports,
the properties, then the virtual methods with their parameters and return types. The first fault on
this way is reported. A property that is declared again replaces the earlier one in its place; a
virtual method must not be declared again.
-/

namespace DocTypes

namespace Scope

/-- What the type of a member stands for (`resolve_member`), nothing if it has none. A text that
cannot be read is reported for the `member`. -/
def resolveMember (s : Scope) (member : Member) :
    Option String → Except ConstructionError (Option TypeDeclaration)
  | none => .ok none
  | some raw =>
    match s.resolve raw with
    | .error cause => .error (.invalidDeclaration s.className member cause)
    | .ok declaration => .ok (some declaration)

/-- The descriptor of a property, which may have one type (`build_property`): that of its `var`
annotation. -/
def describeProperty (s : Scope) (p : PropertyDeclaration) :
    Except ConstructionError PropertyDescriptor :=
  let types := p.annotations.vars
  if 1 < types.length then .error (.multipleTypes s.className p.name types.length)
  else do
    let declaration ← s.resolveMember (.property p.name) types.head?
    return ⟨s.className, p.name, p.annotations, declaration⟩

/-- The type of a parameter of the virtual method `method`, which may have no default value. -/
def describeParameter (s : Scope) (method : String) (parameter : String × ParameterAnnotation) :
    Except ConstructionError (String × Option TypeDeclaration) :=
  if parameter.2.hasDefault then .error (.defaultValue s.className method parameter.1)
  else do
    let declaration ← s.resolveMember (.parameter method parameter.1) parameter.2.type
    return (parameter.1, declaration)

/-- The descriptor of a virtual method (`build_virtual_method`): first its parameters in order, then
its return type. -/
def describeMethod (s : Scope) (m : MethodAnnotation) :
    Except ConstructionError MethodDescriptor := do
  let parameters ← m.parameters.entries.mapM (s.describeParameter m.name)
  let returnType ← s.resolveMember (.returnType m.name) m.returnType
  return ⟨s.className, m.name, OrderedMap.ofList parameters, returnType, m.isStatic⟩

/-- The descriptors of virtual methods, after those that are `done` already. A name that is among
these is reported before the method is looked at. -/
def describeMethods (s : Scope) (done : OrderedMap String MethodDescriptor) :
    List MethodAnnotation → Except ConstructionError (OrderedMap String MethodDescriptor)
  | [] => .ok done
  | m :: rest =>
    if done.contains m.name then .error (.duplicateMethod s.className m.name)
    else do
      let method ← s.describeMethod m
      s.describeMethods (done.insert m.name method) rest

end Scope

/-- The descriptor of a declared class, without features (`from_declaration`). The types are
resolved in the scope of the class, with the imports that have just been read. -/
def ClassDescriptor.ofDeclaration (c : ClassDeclaration) (r : TypeRegistry) :
    Except ConstructionError ClassDescriptor := do
  let imports ← ImportTable.ofStatements c.name c.imports
  let s : Scope := ⟨c.name, Lexeme.namespaceOf c.name, imports, r⟩
  let properties ← c.properties.mapM s.describeProperty
  let methods ← s.describeMethods ∅ c.annotations.methods
  return {
    name := c.name
    inNamespace := s.inNamespace
    imports := imports
    annotations := c.annotations
    properties := OrderedMap.ofList (properties.map fun p => (p.name, p))
    methods := methods
    features := ∅ }

end DocTypes
