import InputDetail.Name

/-!
# Types of an API model

A type is a number in a table of definitions. The five primitive types have fixed numbers, so that
they can be named without a table.
-/
namespace InputDetail

structure TypeId where
  index : Nat
deriving DecidableEq, Hashable

/-- Built-in scalar types, in the order of their numbers. -/
inductive Primitive where
  | boolean | integer | decimal | string | date
deriving DecidableEq

namespace Primitive

def all : List Primitive := [boolean, integer, decimal, string, date]

def word : Primitive → String
  | boolean => "boolean"
  | integer => "integer"
  | decimal => "decimal"
  | string => "string"
  | date => "date"

/-- The word in capitals, as messages about type numbers show it. -/
def capitals : Primitive → String
  | boolean => "BOOLEAN"
  | integer => "INTEGER"
  | decimal => "DECIMAL"
  | string => "STRING"
  | date => "DATE"

/-- The fixed number of a primitive type. -/
def type : Primitive → TypeId
  | boolean => ⟨0⟩
  | integer => ⟨1⟩
  | decimal => ⟨2⟩
  | string => ⟨3⟩
  | date => ⟨4⟩

end Primitive

namespace TypeId

/-- The primitive type with this number, if there is one. -/
def primitive? (type : TypeId) : Option Primitive := Primitive.all[type.index]?

instance : ToString TypeId where
  toString type := match type.primitive? with
    | some kind => "Idx::" ++ kind.capitals
    | none => s!"Idx({type.index})"

end TypeId

theorem Primitive.primitive?_type (kind : Primitive) : kind.type.primitive? = some kind := by
  cases kind <;> rfl

/-- A name with a type: a member of a struct, or a step of a path below a parameter. -/
structure Member where
  name : Name
  type : TypeId
deriving DecidableEq

/-- Definition of a type. A struct has no members until they are defined. -/
inductive TypeDef where
  | primitive (kind : Primitive)
  | enum (name : Name) (values : List Name)
  | struct (name : Name) (members : Option (List Member))
  | list (element : TypeId)
deriving DecidableEq

inductive TypeKind where
  | primitive | enum | struct | list
deriving DecidableEq

def TypeKind.word : TypeKind → String
  | primitive => "primitive"
  | enum => "enum"
  | struct => "struct"
  | list => "list"

namespace TypeDef

def kind : TypeDef → TypeKind
  | primitive _ => .primitive
  | enum _ _ => .enum
  | struct _ _ => .struct
  | list _ => .list

/-- The name of an enum or a struct. -/
def name? : TypeDef → Option Name
  | enum name _ => some name
  | struct name _ => some name
  | _ => none

/-- A primitive or an enum: a value with nothing inside. -/
def isSimple (definition : TypeDef) : Bool :=
  definition.kind == .primitive || definition.kind == .enum

/-- A struct or a list: a value that is described by its members. -/
def isStructured (definition : TypeDef) : Bool :=
  definition.kind == .struct || definition.kind == .list

/-- The members of a struct, none as long as they are not defined. -/
def members : TypeDef → List Member
  | struct _ (some members) => members
  | _ => []

theorem isStructured_eq_not_isSimple (definition : TypeDef) :
    definition.isStructured = !definition.isSimple := by
  cases definition <;> rfl

end TypeDef

end InputDetail
