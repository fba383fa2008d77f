import InputDetail.Types

/-!
# The table of types

Types are added at the end and keep their numbers. Enums and structs are unique by name, lists by
element type; both are found by looking through the definitions. A pool that finds them by maps,
`TypeTable.Indexed`, gives the same answers. A struct is declared first, so that types can refer to it,
and its members are defined once. There may be any number of types.
-/
namespace InputDetail

structure TypeTable where
  defs : Array TypeDef

/-- Why a type could not be added or completed. -/
inductive TypeError where
  | duplicateType (name : Name)
  | notAStruct (type : TypeId)
  | alreadyDefined (type : TypeId)
  | duplicateMember (type : TypeId) (member : Name)
deriving DecidableEq

def TypeError.message : TypeError → String
  | duplicateType name => s!"a type named {name} is already declared"
  | notAStruct type => s!"{type} is not a struct type"
  | alreadyDefined type => s!"members of struct {type} are already defined"
  | duplicateMember type member => s!"struct {type} declares member {member} twice"

namespace TypeTable

/-- The table that holds the primitive types alone. -/
def initial : TypeTable := ⟨(Primitive.all.map TypeDef.primitive).toArray⟩

def size (table : TypeTable) : Nat := table.defs.size

def get? (table : TypeTable) (type : TypeId) : Option TypeDef := table.defs[type.index]?

/-- The first type whose definition satisfies `p`. -/
def find? (table : TypeTable) (p : TypeDef → Bool) : Option TypeId :=
  (table.defs.findIdx? p).map TypeId.mk

/-- The enum or struct of that name. -/
def byName? (table : TypeTable) (name : Name) : Option TypeId :=
  table.find? (·.name? == some name)

def isSimple (table : TypeTable) (type : TypeId) : Bool := (table.get? type).any (·.isSimple)

def isStructured (table : TypeTable) (type : TypeId) : Bool :=
  (table.get? type).any (·.isStructured)

/-- The element type of a list. -/
def element? (table : TypeTable) (type : TypeId) : Option TypeId :=
  match table.get? type with
  | some (.list element) => some element
  | _ => none

/-- The type of a struct's member. A list has no members of its own. -/
def member? (table : TypeTable) (type : TypeId) (name : Name) : Option TypeId :=
  (table.get? type).bind fun definition =>
    (definition.members.find? (·.name == name)).map (·.type)

/-- Appends a definition. -/
def push (table : TypeTable) (definition : TypeDef) : TypeId × TypeTable :=
  (⟨table.size⟩, ⟨table.defs.push definition⟩)

@[simp] theorem get?_push_self (table : TypeTable) (definition : TypeDef) :
    (table.push definition).2.get? (table.push definition).1 = some definition := by
  simp [push, get?, size]

/-- A new type changes no other. -/
theorem get?_push_of_some {table : TypeTable} {type : TypeId} {known : TypeDef}
    (h : table.get? type = some known) (definition : TypeDef) :
    (table.push definition).2.get? type = some known := by
  obtain ⟨hlt, -⟩ := Array.getElem?_eq_some_iff.1 h
  simp only [push, get?, Array.getElem?_push]
  rw [if_neg (Nat.ne_of_lt hlt)]
  exact h

/-- The list type with that element type, which is added if there is none. -/
def list (table : TypeTable) (element : TypeId) : TypeId × TypeTable :=
  match table.find? (· == .list element) with
  | some type => (type, table)
  | none => table.push (.list element)

/-- Appends an enum or a struct, whose name must be new. -/
def pushNamed (table : TypeTable) (name : Name) (definition : TypeDef) :
    Except TypeError (TypeId × TypeTable) :=
  if (table.byName? name).isSome then .error (.duplicateType name)
  else .ok (table.push definition)

def enum (table : TypeTable) (name : Name) (values : List Name) :
    Except TypeError (TypeId × TypeTable) :=
  table.pushNamed name (.enum name values)

/-- Adds a struct whose members are defined later. -/
def declare (table : TypeTable) (name : Name) : Except TypeError (TypeId × TypeTable) :=
  table.pushNamed name (.struct name none)

/-- The first name that occurs for the second time. -/
def repeatedName? : List Name → List Member → Option Name
  | _, [] => none
  | seen, member :: members =>
    if member.name ∈ seen then some member.name else repeatedName? (member.name :: seen) members

/-- Defines the members of a declared struct. A repeated member is refused before the type is
looked at. -/
def define (table : TypeTable) (type : TypeId) (members : List Member) :
    Except TypeError TypeTable :=
  match repeatedName? [] members with
  | some member => .error (.duplicateMember type member)
  | none => match table.get? type with
    | some (.struct _ (some _)) => .error (.alreadyDefined type)
    | some (.struct name none) =>
      .ok ⟨table.defs.setIfInBounds type.index (.struct name (some members))⟩
    | _ => .error (.notAStruct type)

/-- Declares a struct and defines its members. The declaration stays when the members are refused;
the table is part of the result in either case. -/
def struct (table : TypeTable) (name : Name) (members : List Member) :
    Except TypeError TypeId × TypeTable :=
  match table.declare name with
  | .error e => (.error e, table)
  | .ok (type, declared) => match declared.define type members with
    | .error e => (.error e, declared)
    | .ok defined => (.ok type, defined)

end TypeTable

end InputDetail
