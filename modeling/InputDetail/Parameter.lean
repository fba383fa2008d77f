import InputDetail.Forest

/-!
# Parameters of a method

A simple parameter (of a primitive or enum type) has one status. What must be supplied of a
structured parameter is recorded member by member in its forest.
-/
namespace InputDetail

inductive Direction where
  | input | output | both
deriving DecidableEq

def Direction.isInput : Direction → Bool
  | output => false
  | _ => true

def Direction.isOutput : Direction → Bool
  | input => false
  | _ => true

structure Parameter where
  name : Name
  type : TypeId
  direction : Direction
  /-- Says something for a simple parameter only. -/
  status : Status
  forest : Forest
deriving DecidableEq

namespace Parameter

/-- A parameter about which nothing is documented yet. -/
def new (name : Name) (type : TypeId) (direction : Direction) : Parameter :=
  ⟨name, type, direction, .optional, .empty⟩

def isMandatory (parameter : Parameter) : Bool := parameter.status == .mandatory

/-- The members that must be supplied, in the order of the walk. -/
def mandatoryMembers (parameter : Parameter) : List NodeId :=
  parameter.forest.select (·.isMandatory)

/-- Position of the first parameter of that name. -/
def position? (parameters : List Parameter) (name : Name) : Option Nat :=
  parameters.findIdx? (·.name == name)

/-- The first parameter of that name. -/
def byName? (parameters : List Parameter) (name : Name) : Option Parameter :=
  parameters.find? (·.name == name)

/-- The first parameter of that name with its position. -/
def locate? (parameters : List Parameter) (name : Name) : Option (Nat × Parameter) := do
  let position ← position? parameters name
  let parameter ← parameters[position]?
  return (position, parameter)

/-- The node that a link leads to. -/
def linked? (parameters : List Parameter) (link : Link) : Option Node :=
  (byName? parameters link.parameter).bind (·.forest.node? link.node)

end Parameter

end InputDetail
