/-!
# Diagnostics

What a reader of an error is told: a `message`, a `code` by which the kind of error is known, `help`
where there is any, and `labels` that point into the text in question. Each error type of the
library names a cause and has one function that words it as a `Diagnostic`, such as
`ParseError.diagnostic`.
-/

namespace DocTypes

/-- A remark `text` about `length` bytes of a text from `offset` on. -/
structure Label where
  text : String
  offset : Nat
  length : Nat
deriving DecidableEq, Repr

/-- The wording of an error, with the `labels` that mark the faulty parts of its source. -/
structure Diagnostic where
  message : String
  code : String
  help : Option String := none
  labels : List Label := []
deriving DecidableEq, Repr

end DocTypes
