import InputDetail.Document.Reader
import InputDetail.Name.Table

/-!
# Documentation blocks

Parsing a block gives its statements as expressions of a store. Every identifier up to the place
where reading stops is interned, in the order of the text, also when the block is refused.
-/
namespace InputDetail

/-- Why a documentation block could not be parsed, and where. -/
structure ParseFailure where
  message : String
  span : Span
deriving DecidableEq

/-- The expressions of a block and the statements among them, in the order of the text. -/
structure Document where
  store : ExprStore
  roots : List ExprId

namespace Document

/-- The identifiers that begin before `limit`. -/
def identifiers (tokens : List Token) (limit : Nat) : List String :=
  tokens.filterMap fun token =>
    if token.span.start < limit then token.word?.map String.ofList else none

def internAll (names : NameTable) (identifiers : List String) : NameTable :=
  identifiers.foldl (fun names identifier => (names.internWords identifier).2) names

/-- The statements as terms, and how far the text was read. -/
def readTerms (source : String) : Except ParseFailure (List (Term String)) × List String :=
  let stop := source.utf8ByteSize
  let tokens := scan 0 source.toList
  match Reader.readAll stop .initial tokens with
  | .ok terms => (.ok terms, identifiers tokens stop)
  | .error (expected, offset) =>
    (.error ⟨expected.message, .point offset⟩, identifiers tokens offset)

/-- Parses a documentation block. -/
def parse (source : String) (names : NameTable) : Except ParseFailure Document × NameTable :=
  let (result, identifiers) := readTerms source
  let names := internAll names identifiers
  let document := result.map fun terms =>
    let (roots, store) := Term.storeAll (Term.mapAll (fun text => (names.internWords text).1) terms)
      .empty
    (⟨store, roots⟩ : Document)
  (document, names)

end Document

end InputDetail
