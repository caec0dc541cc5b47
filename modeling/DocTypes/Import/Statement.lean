import DocTypes.ParseError
import DocTypes.Text.Lexeme

/-!
# Import statements

An import statement names a class by its path and may give it another short name:
`Vendor\Package\Name` or `Vendor\Package\Name as Alias`. The path may have a leading separator,
which is not part of it. Spaces and tabs may stand around the statement and separate its words.

`readParts` reads a statement part by part. `Grammar.parse_of_statement` and
`Grammar.parse_of_no_statement` say that this is what matching the rule `importStatement` of the
grammar comes to.
-/

namespace DocTypes

/-- A class `path` that is imported under a short name, with the range of the statement. -/
structure ImportStatement where
  path : String
  explicitAlias : Option String
  span : Span
deriving DecidableEq, Repr

namespace ImportStatement

open Lexeme

/-- The short name of the import (`alias`): the one it gives as `explicitAlias`, else the last
segment of its path. -/
def shortName (s : ImportStatement) : String := s.explicitAlias.getD (lastSegment s.path)

/-- The word between a path and the alias for it, the `keyword_as` of the grammar. -/
def aliasWord : String := "as"

/-- Reads blanks, the `aliasWord` and blanks again. Blanks are required on both sides, so what
`skipPadding` leaves has to be shorter each time. -/
def readAliasWord? (cs : List Char) : Option (List Char) := do
  let word := skipPadding cs
  let left ← afterWord? aliasWord word
  if word.length < cs.length && (skipPadding left).length < left.length then
    return skipPadding left
  else none

/-- Reads the parts of a statement: the path, and the short name if one is given. On failure the
answer is what is left of the text at the furthest place that could not be read. -/
def readParts (cs : List Char) : Except (List Char) (List Char × Option (List Char)) :=
  let body := skipPadding cs
  let start := match body with
    | '\\' :: rest => rest
    | _ => body
  match path? start with
  | none => .error start
  | some (path, afterPath) =>
    match readAliasWord? afterPath with
    | none =>
      match skipPadding afterPath with
      | [] => .ok (path, none)
      | left => .error left
    | some afterWord =>
      match identifier? afterWord with
      | none => .error afterWord
      | some (shortName, afterShortName) =>
        match skipPadding afterShortName with
        | [] => .ok (path, some shortName)
        | left => .error left

/-- Reads an import statement (`parse_import_statement`). Its range is the whole text, and a failure
is reported at the place where `readParts` stopped. -/
def parse (source : String) : Except ParseError ImportStatement :=
  let cs := source.toList
  match readParts cs with
  | .ok (path, shortName) =>
    .ok ⟨String.ofList path, shortName.map String.ofList, 0, byteLength cs⟩
  | .error left => .error (.malformedImport source (byteLength cs - byteLength left))

end ImportStatement

end DocTypes
