import DocTypes.Grammar.Matching
import DocTypes.Import.Statement
import DocTypes.TypeExpr.Basic

/-!
# The grammar of declarations and import statements

The two grammars as parsing expressions, `declaration` and `importStatement`, and what the nodes of
a match say. As `parse_declaration` and `parse_import_statement` do, `termsOf` goes over the members
of a declaration and `statementOf` over the parts of a statement. If there is no match, `advice`
words what was tried at the furthest place, as `from_pest_error` does.

A member may be empty, and it may be the array suffix alone. Both are errors, but of a member and
not of the grammar (`termOf`).
-/

namespace DocTypes.Grammar

open Lexeme TypeExpr

/-- The rules that may leave a node or be tracked. Those that never do, such as `padding`, are
expressions only. -/
inductive Rule
  | endOfInput
  | declaration
  | alternative
  | term
  | arraySuffix
  | resourceClosed
  | thisMarker
  | qualifiedName
  | namePath
  | identifier
  | importStatement
  | importPath
  | importAlias
  | keywordAs
deriving DecidableEq, Repr

/-- All rules, in the order in which a message names them (`advice`). -/
def Rule.all : List Rule :=
  [endOfInput, declaration, alternative, term, arraySuffix, resourceClosed, thisMarker,
    qualifiedName, namePath, identifier, importStatement, importPath, importAlias, keywordAs]

/-- What a rule stands for, in the words of a message (`rule_to_user_friendly_description`). -/
def Rule.description : Rule → String
  | alternative | term => "a type (like int, string[] or \\DateTime)"
  | arraySuffix => "the array suffix `[]`"
  | namePath | identifier => "a type name"
  | qualifiedName | importPath => "a qualified type name"
  | thisMarker => "`$this`"
  | importAlias | keywordAs => "`as`"
  | endOfInput => "`|` or the end of the declaration"
  | declaration | resourceClosed | importStatement => "a type"

/-- What a message advises if the given `rules` were tried at the furthest place. If none was, the
characters of names are explained instead. -/
def advice (rules : List Rule) : String :=
  match Rule.all.filter (· ∈ rules) with
  | [] => "Type names may only contain letters, digits, `_` and `\\`"
  | tried => "Expected " ++ " or ".intercalate (tried.map Rule.description)

/-! ## The rules -/

/-- The end of the text, `EOI`. -/
def endOfInput : Expr Rule := .rule .endOfInput .normal .stop

/-- Spaces and tabs, if there are any (`padding`). -/
def padding : Expr Rule := .many (.char isPadding)

/-- Spaces and tabs, at least one of them (`separator`). -/
def gap : Expr Rule := .seq (.char isPadding) padding

/-- An identifier (`identifier`), atomic, so that the blanks inside a text end it. -/
def identifier : Expr Rule :=
  .rule .identifier .atomic (.seq (.char isIdentifierStart) (.many (.char isIdentifierContinue)))

/-- Identifiers with separators between them (`name_path`). -/
def namePath : Expr Rule :=
  .rule .namePath .atomic (.seq identifier (.many (.seq (.word "\\") identifier)))

/-- A `namePath` behind a separator (`qualified_name`). -/
def qualifiedName : Expr Rule := .rule .qualifiedName .compound (.seq (.word "\\") namePath)

/-- The name with a space in it (`resource_closed`). -/
def resourceClosed : Expr Rule := .rule .resourceClosed .atomic (.word "resource (closed)")

/-- The receiver (`this_marker`). -/
def thisMarker : Expr Rule := .rule .thisMarker .atomic (.word "$this")

/-- The name of a type (`type_name`). The order matters: `resourceClosed` starts like a
`namePath`. -/
def typeName : Expr Rule :=
  .choice resourceClosed (.choice thisMarker (.choice qualifiedName namePath))

/-- The suffix of an array (`array_suffix`). -/
def arraySuffix : Expr Rule := .rule .arraySuffix .atomic (.word "[]")

/-- A `typeName` that may have the `arraySuffix`, or the suffix alone (`term`). -/
def term : Expr Rule :=
  .rule .term .compound (.choice (.seq typeName (.optional arraySuffix)) arraySuffix)

/-- A member of a union, with the blanks around it (`alternative`). The `term` may be missing. -/
def alternative : Expr Rule :=
  .rule .alternative .normal (.seq padding (.seq (.optional term) padding))

/-- The further members of a union, each an `alternative` behind a bar. -/
def furtherAlternatives : Expr Rule := .many (.seq (.word "|") alternative)

/-- A declaration (`declaration`), up to the end of the text. -/
def declaration : Expr Rule :=
  .rule .declaration .normal (.seq alternative (.seq furtherAlternatives endOfInput))

/-- A `namePath`, with or without a separator in front (`import_path`). -/
def importPath : Expr Rule := .rule .importPath .compound (.seq (.optional (.word "\\")) namePath)

/-- The word in front of a short name (`keyword_as`). -/
def keywordAs : Expr Rule := .rule .keywordAs .atomic (.word "as")

/-- The short name of an import, behind the path and a `gap` on either side of `keywordAs`
(`import_alias`). -/
def importAlias : Expr Rule :=
  .rule .importAlias .compound (.seq gap (.seq keywordAs (.seq gap identifier)))

/-- The parts of an `importStatement`, between blanks and up to the end of the text. -/
def statementBody : Expr Rule :=
  .seq padding (.seq importPath (.seq (.optional importAlias) (.seq padding endOfInput)))

/-- An import statement (`import_statement`). -/
def importStatement : Expr Rule := .rule .importStatement .normal statementBody

/-! ## What a match says -/

/-- The place of a part of `source`, given by what is `left` there. -/
def placeOf (source : String) (left : List Char) : Nat :=
  byteLength source.toList - byteLength left

/-- The range of the match `t` in `source` (`span_from_pair`). -/
def spanOf (source : String) (t : Tree Rule) : Span :=
  ⟨placeOf source t.start, placeOf source t.stop⟩

/-- The name that a node inside a `term` stands for (`parse_type_name`). -/
def nameOf (t : Tree Rule) : Name :=
  match t.rule with
  | .thisMarker => .this
  | .qualifiedName => .className (String.ofList (dropSeparator t.text)) true
  | _ => .ofWord (String.ofList t.text)

/-- The term of an `alternative` (`parse_alternative`). One without a `term` is empty, and a `term`
without a name is a bare suffix. -/
def termOf (source : String) (t : Tree Rule) : Except ParseError Term :=
  match t.children with
  | [] => .error (.emptyMember source (spanOf source t))
  | u :: _ =>
    match (u.children.filter (·.rule ≠ .arraySuffix)).getLast? with
    | none => .error (.bareArraySuffix source (spanOf source u))
    | some name => .ok ⟨nameOf name, u.children.any (·.rule = .arraySuffix), spanOf source u⟩

/-- The terms of a `declaration`, or the error of the first member that has none. -/
def termsOf (source : String) (t : Tree Rule) : Except ParseError (List Term) :=
  (t.children.filter (·.rule = .alternative)).mapM (termOf source)

/-- The parts of an `importStatement`. Without an `importAlias` the short name is not given. -/
def statementOf (source : String) (t : Tree Rule) : ImportStatement where
  path := match (t.children.filter (·.rule = .importPath)).getLast? with
    | none => ""
    | some path => String.ofList (dropSeparator path.text)
  explicitAlias := match (t.children.filter (·.rule = .importAlias)).getLast? with
    | none => none
    | some a => (a.children.find? (·.rule = .identifier)).map fun name => String.ofList name.text
  span := spanOf source t

end DocTypes.Grammar
