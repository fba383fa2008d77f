import InputDetail.Name.Table
import InputDetail.Parameter

/-!
# Methods of an API service

A method with several signatures is one method per signature, and each of them names the same base
method.
-/
namespace InputDetail

structure Method where
  name : Name
  base : Option Name
  parameters : List Parameter

namespace Method

/-- The names of methods that only manage a collection. -/
def managing : List String := ["add", "get", "list", "update", "remove"]

/-- Whether the method does something other than managing a collection, going by its own name and
then by that of its base. There is no answer if a name that has to be looked at is unknown. -/
def isAction? (method : Method) (names : NameTable) : Option Bool := do
  let own ← names.text? method.name
  if own ∈ managing then return false
  match method.base with
  | none => return true
  | some base => return (← names.text? base) ∉ managing

/-- The simple parameters that must be supplied. -/
def mandatoryParameters (method : Method) : List Parameter :=
  method.parameters.filter (·.isMandatory)

/-- The members that must be supplied, each with its parameter. -/
def mandatoryMembers (method : Method) : List (Parameter × NodeId) :=
  method.parameters.flatMap fun parameter => parameter.mandatoryMembers.map (parameter, ·)

/-- Whether anything must be supplied. -/
def demandsInput (method : Method) : Bool :=
  method.parameters.any fun parameter =>
    parameter.isMandatory || !parameter.mandatoryMembers.isEmpty

end Method

end InputDetail
