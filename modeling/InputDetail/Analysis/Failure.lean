import InputDetail.Diagnostic
import InputDetail.Document
import InputDetail.Forest.Edit
import InputDetail.Types.Lookup
import InputDetail.Types.Text

/-!
# Why documentation is refused

A failure is a defect of the documented model, with the place where it was noticed. It has a short
message about numbers, and a diagnostic that spells out names and types.
-/
namespace InputDetail

/-- Why an expression is no documented path. -/
inductive Unsupported where
  | markerOnReceiver
  | markerArity
  | callWithArguments
  | indexedNonCall
  | bareIdentifier
  /-- Any other reason, in words. -/
  | other (reason : String)
deriving DecidableEq

def Unsupported.reason : Unsupported → String
  | markerOnReceiver => "`mandatory` and `optional` cannot be called on a receiver"
  | markerArity => "`mandatory` and `optional` take exactly one path"
  | callWithArguments => "accessor calls take no arguments"
  | indexedNonCall => "only the result of an accessor call can be indexed"
  | bareIdentifier => "expected an accessor call, found a bare identifier"
  | other reason => reason

/-- What is wrong with an alternation. -/
inductive AlternationDefect where
  | wrongArity (found : Nat)
  | receiver
  | missingMarker
  | mixedMarkers
  | simpleParameter
  | secondaryHasChildren
  | identicalSides
deriving DecidableEq

def AlternationDefect.message : AlternationDefect → String
  | wrongArity found => s!"`or` takes two arguments, found {found}"
  | receiver => "`or` cannot be called on a receiver"
  | missingMarker => "each side must be wrapped in `mandatory(...)` or `optional(...)`"
  | mixedMarkers => "one side is mandatory and the other optional"
  | simpleParameter => "a simple parameter cannot be an alternative"
  | secondaryHasChildren => "the second side has members of its own"
  | identicalSides => "both sides name the same member"

inductive AnalysisError where
  | parse (failure : ParseFailure)
  | unsupportedExpression (span : Span) (cause : Unsupported)
  | invalidCollectionIndex (span : Span)
  | malformedAlternation (span : Span) (defect : AlternationDefect)
  | unknownParameter (name : Name) (span : Span)
  | structuralMismatch (parameter : Name) (path : List Name) (cause : MemberError) (span : Span)
  | simpleParameterExpected (parameter : Name) (span : Span)
  | conflictingStatus (parameter : Name) (path : List Name) (span : Span)
  | internal (error : ForestError)
deriving DecidableEq

/-- The name of a parameter and of members below it, with points between them. -/
def NameTable.qualified? (names : NameTable) (parameter : Name) (path : List Name) :
    Option String := do
  return String.intercalate "." (← (parameter :: path).mapM names.text?)

/-- A type has no such member, said to the author of the model. -/
def MemberError.note? (types : TypeTable) (names : NameTable) : MemberError → Option String
  | notStructured type kind => do
    let type ← types.write? names type
    return s!"`{type}` is a {kind} and has no members"
  | listOfNonStruct list kind => do
    let list ← types.write? names list
    return s!"`{list}` is a list of {kind} values, which have no members"
  | unknownMember type member => do
    let type ← types.write? names type
    let member ← names.text? member
    return s!"type `{type}` has no member `{member}`"
  | unknownType type => some s!"type {type} is not part of the model"

namespace AnalysisError

def message : AnalysisError → String
  | parse failure => s!"cannot parse live documentation: {failure.message}"
  | unsupportedExpression _ cause => s!"unsupported expression: {cause.reason}"
  | invalidCollectionIndex _ => "collection index other than `COLLECTION`"
  | malformedAlternation _ defect => s!"malformed alternation: {defect.message}"
  | unknownParameter name _ => s!"unknown parameter {name}"
  | structuralMismatch parameter path cause _ =>
    s!"path {Name.pathText path} does not fit parameter {parameter}: {cause.message}"
  | simpleParameterExpected parameter _ =>
    s!"parameter {parameter} is structured and must be documented through its members"
  | conflictingStatus parameter path _ =>
    s!"member {Name.pathText path} of parameter {parameter} is declared both mandatory and optional"
  | internal error => s!"internal error: {error.message}"

/-- The place of the offending expression. An internal error has none. -/
def span? : AnalysisError → Option Span
  | parse failure => some failure.span
  | unsupportedExpression span _ => some span
  | invalidCollectionIndex span => some span
  | malformedAlternation span _ => some span
  | unknownParameter _ span => some span
  | structuralMismatch _ _ _ span => some span
  | simpleParameterExpected _ span => some span
  | conflictingStatus _ _ span => some span
  | internal _ => none

def code : AnalysisError → ErrorCode
  | parse _ => .E0001
  | unsupportedExpression _ _ => .E1001
  | invalidCollectionIndex _ => .E1002
  | malformedAlternation _ _ => .E1003
  | unknownParameter _ _ => .E2001
  | structuralMismatch _ _ _ _ => .E2002
  | simpleParameterExpected _ _ => .E2003
  | conflictingStatus _ _ _ => .E2004
  | internal _ => .E9001

/-- The message, the label and the advice for the author of the model. There is none if a name that
has to be spelled out is unknown. -/
def diagnostic? (error : AnalysisError) (types : TypeTable) (names : NameTable) :
    Option Diagnostic :=
  let blank := Diagnostic.ofCode error.code
  match error with
  | parse failure =>
    some <| blank
      |>.withMessage s!"cannot parse live documentation: {failure.message}"
      |>.addLabel failure.span "parsing stopped here"
  | unsupportedExpression span cause =>
    some <| blank
      |>.withMessage "unsupported expression in live documentation"
      |>.addLabel span cause.reason
      |>.addSuggestion "write member paths as chains of calls, like `host().address()`"
  | invalidCollectionIndex span =>
    some <| blank
      |>.withMessage "invalid collection index"
      |>.addLabel span "expected `COLLECTION`"
      |>.addSuggestion "use `[COLLECTION]` to refer to every element of a list"
  | malformedAlternation span defect =>
    some <| blank
      |>.withMessage s!"malformed `or` expression: {defect.message}"
      |>.addLabel span "in this alternation"
      |>.addSuggestion "write alternatives as `or(mandatory(a().b()), mandatory(a().c()))`"
  | unknownParameter name span => do
    let name ← names.text? name
    return blank
      |>.withMessage s!"unknown parameter `{name}`"
      |>.addLabel span "not a parameter of this method"
  | structuralMismatch parameter path cause span => do
    let member ← names.qualified? parameter path
    let parameter ← names.text? parameter
    return blank
      |>.withMessage s!"`{member}` does not match the type of parameter `{parameter}`"
      |>.addLabel span "in this path"
      |>.addNote (← cause.note? types names)
  | simpleParameterExpected parameter span => do
    let name ← names.text? parameter
    return blank
      |>.withMessage s!"parameter `{name}` cannot be declared mandatory or optional as a whole"
      |>.addLabel span "struct or list parameter"
      |>.addSuggestion
        s!"declare the members that must be supplied, like `mandatory({name}().id())`"
  | conflictingStatus parameter path span => do
    let member ← names.qualified? parameter path
    return blank
      |>.withMessage s!"`{member}` is declared both mandatory and optional"
      |>.addLabel span "conflicting declaration"
  | internal error =>
    some <| blank
      |>.withMessage s!"internal analyzer error: {error.message}"
      |>.addNote "this is a bug in the analyzer, not in the model"

end AnalysisError

/-- A failure in the documentation of one method. -/
structure MethodError where
  method : Name
  cause : AnalysisError
deriving DecidableEq

namespace MethodError

def message (error : MethodError) : String := s!"method {error.method}: {error.cause.message}"

/-- The diagnostic of the cause, with a note that names the method. -/
def diagnostic? (error : MethodError) (types : TypeTable) (names : NameTable) :
    Option Diagnostic := do
  let diagnostic ← error.cause.diagnostic? types names
  let method ← names.text? error.method
  return diagnostic.addNote s!"while analyzing the live documentation of method `{method}`"

end MethodError

end InputDetail
