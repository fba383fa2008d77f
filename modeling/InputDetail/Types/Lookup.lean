import InputDetail.Types.Table

/-!
# Members along a path

A path descends from a struct to one of its members, and from a list of structs to a member of the
elements. Nothing else has members.
-/
namespace InputDetail

/-- Why a type has no member of some name. A type that is of the wrong kind comes with the word for
its kind, which messages repeat as it is. -/
inductive MemberError where
  | notStructured (type : TypeId) (kind : String)
  | listOfNonStruct (list : TypeId) (kind : String)
  | unknownMember (type : TypeId) (member : Name)
  | unknownType (type : TypeId)
deriving DecidableEq

def MemberError.message : MemberError → String
  | notStructured type kind => s!"type {type} is a {kind}, not a struct or a list of structs"
  | listOfNonStruct list kind => s!"list {list} has {kind} elements, not structs"
  | unknownMember type member => s!"struct {type} has no member {member}"
  | unknownType type => s!"type {type} is not in the pool"

namespace TypeTable

/-- The struct whose members a path from `type` may name: the type itself, or the element type of a
list. -/
def structOf (table : TypeTable) (type : TypeId) : Except MemberError TypeId :=
  match table.get? type with
  | none => .error (.unknownType type)
  | some (.struct _ _) => .ok type
  | some (.list element) => match table.get? element with
    | none => .error (.unknownType element)
    | some (.struct _ _) => .ok element
    | some other => .error (.listOfNonStruct type other.kind.word)
  | some other => .error (.notStructured type other.kind.word)

/-- The type of the member `name`, reached from `type`. -/
def resolve (table : TypeTable) (type : TypeId) (name : Name) : Except MemberError TypeId := do
  let owner ← table.structOf type
  match table.member? owner name with
  | some member => .ok member
  | none => .error (.unknownMember owner name)

end TypeTable

end InputDetail
