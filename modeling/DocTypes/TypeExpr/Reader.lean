import DocTypes.ParseError
import DocTypes.Text.Lexeme
import DocTypes.TypeExpr.Basic

/-!
# Reading type expressions

`parse` cuts a declaration at every bar into pieces, and `readPiece` reads each of them by itself:
padding, a name, the array suffix at once after it or not at all, padding. No name, no suffix and no
padding takes a bar (`readName?_append_of_endsPiece`), so this is what matching the `declaration` of
the grammar from left to right comes to (`Grammar.parse_of_declaration`).

Several pieces may be faulty. A `malformed` piece has a character that has no place in it. It stops
the reading and is reported before anything else, at the furthest place where a rule of the grammar
was tried (`Grammar.parse_of_no_declaration`). Of the pieces that are `empty` or a `bareSuffix`, the
first one is reported, as `parse_declaration` does when it goes over the alternatives of a match.
-/

namespace DocTypes.TypeExpr

open Lexeme

/-- The mark between the members of a union, at which `splitPieces` cuts. -/
def bar : Char := '|'

/-- The pieces between the bars of a text. There is always at least one (`splitPieces_ne_nil`). -/
def splitPieces : List Char → List (List Char)
  | [] => [[]]
  | c :: rest =>
    match c == bar, splitPieces rest with
    | true, pieces => [] :: pieces
    | false, piece :: pieces => (c :: piece) :: pieces
    | false, [] => [[c]]

/-- Each piece with the place of its first byte, if the first piece starts at `start`. Behind every
piece the `bar` is counted. -/
def locatePieces (start : Nat) : List (List Char) → List (Nat × List Char)
  | [] => []
  | piece :: pieces =>
    (start, piece) :: locatePieces (start + byteLength piece + bar.utf8Size) pieces

/-- The name at the front of `cs`, and the rest: the `type_name` of the grammar. The two names that
are no identifiers, `Keyword.closedResource` and `thisMarker`, are tried before name paths. -/
def readName? (cs : List Char) : Option (Name × List Char) :=
  match afterWord? Keyword.closedResource cs with
  | some rest => some (.ofWord Keyword.closedResource, rest)
  | none =>
    match afterWord? thisMarker cs with
    | some rest => some (.this, rest)
    | none =>
      match cs with
      | '\\' :: rest => (path? rest).map fun (name, left) =>
        (.className (String.ofList name) true, left)
      | _ => (path? cs).map fun (word, left) => (.ofWord (String.ofList word), left)

/-- What a piece of a declaration turned out to be: a `term`, one of the two faults that a whole
member may have, or `malformed`. -/
inductive Piece
  | term (t : Term)
  | empty (span : Span)
  | bareSuffix (span : Span)
  | malformed (position : Nat) (expected : Expectation)
deriving DecidableEq, Repr

/-- Reads the piece that starts at byte `start`, as `parse_alternative` reads the match of an
`alternative`. Every place in it is found from what is left of the piece at that place. -/
def readPiece (start : Nat) (piece : List Char) : Piece :=
  let stop := start + byteLength piece
  let place (left : List Char) : Nat := stop - byteLength left
  let body := skipPadding piece
  match readName? body with
  | some (name, afterName) =>
    match afterWord? arraySuffix afterName with
    | some afterSuffix =>
      match skipPadding afterSuffix with
      | [] => .term ⟨name, true, place body, place afterSuffix⟩
      | left => .malformed (place left) .memberEnd
    | none =>
      match skipPadding afterName with
      | [] => .term ⟨name, false, place body, place afterName⟩
      | left =>
        .malformed (place left) (if left = afterName then .suffixOrEnd else .memberEnd)
  | none =>
    match body with
    | [] => .empty ⟨start, stop⟩
    | '\\' :: left => .malformed (place left) .typeName
    | _ =>
      match afterWord? arraySuffix body with
      | some afterSuffix =>
        match skipPadding afterSuffix with
        | [] => .bareSuffix ⟨place body, place afterSuffix⟩
        | left => .malformed (place left) .memberEnd
      | none => .malformed (place body) (if place body = 0 then .type else .typeOrEnd)

/-- Where a piece could not be read on, if it is `malformed`, and what was expected there. -/
def Piece.malformation? : Piece → Option (Nat × Expectation)
  | malformed position expected => some (position, expected)
  | _ => none

/-- The term of a piece of `source`, or why it has none, as a `ParseError` that quotes the
source. -/
def Piece.toTerm (source : String) : Piece → Except ParseError Term
  | term t => .ok t
  | empty span => .error (.emptyMember source span)
  | bareSuffix span => .error (.bareArraySuffix source span)
  | malformed position expected => .error (.malformedDeclaration source position expected)

/-- The pieces of a declaration, each read by `readPiece` at its place. -/
def readPieces (source : String) : List Piece :=
  (locatePieces 0 (splitPieces source.toList)).map fun (start, piece) => readPiece start piece

/-- Cutting `cs` leaves at least one piece. -/
theorem splitPieces_ne_nil (cs : List Char) : splitPieces cs ≠ [] := by
  fun_induction splitPieces cs <;> simp

/-- So there is at least one piece to read in `source`. -/
theorem readPieces_ne_nil (source : String) : readPieces source ≠ [] := by
  unfold readPieces
  cases h : splitPieces source.toList with
  | nil => exact absurd h (splitPieces_ne_nil _)
  | cons piece pieces => simp [locatePieces]

/-- If every piece has a term and there are pieces (`hp`), there are terms. -/
theorem ne_nil_of_mapM_toTerm {source : String} {pieces : List Piece} {terms : List Term}
    (hp : pieces ≠ []) (h : pieces.mapM (Piece.toTerm source) = .ok terms) : terms ≠ [] := by
  cases pieces with
  | nil => exact absurd rfl hp
  | cons piece rest =>
    rintro rfl
    rw [List.mapM_cons] at h
    cases ht : piece.toTerm source with
    | error e => simp [ht, bind, Except.bind] at h
    | ok term =>
      cases hr : rest.mapM (Piece.toTerm source) with
      | error e => simp [ht, hr, bind, Except.bind] at h
      | ok terms => simp [ht, hr, bind, Except.bind, pure, Except.pure] at h

/-- Reads a declaration (`parse_declaration`). The first `malformation?` of any piece is reported
before the first piece without a term. -/
def parse (source : String) : Except ParseError TypeExpr :=
  match (readPieces source).findSome? Piece.malformation? with
  | some (position, expected) => .error (.malformedDeclaration source position expected)
  | none =>
    match h : (readPieces source).mapM (Piece.toTerm source) with
    | .error e => .error e
    | .ok terms => .ok ⟨source, terms, ne_nil_of_mapM_toTerm (readPieces_ne_nil source) h⟩

end DocTypes.TypeExpr
