import InputDetail.Name.Table
import InputDetail.Types.Table

/-!
# Written types

A primitive type is written as its word, an enum or a struct as its name, and a list as its element
type followed by `[]`. A number outside the table is written `<unknown>`.
-/
namespace InputDetail.TypeTable

/-- Follows at most `fuel` list elements. -/
def writeWithin (table : TypeTable) (names : NameTable) : Nat → TypeId → Option String
  | 0, _ => none
  | fuel + 1, type => match table.get? type with
    | none => some "<unknown>"
    | some (.primitive kind) => some kind.word
    | some (.enum name _) => names.text? name
    | some (.struct name _) => names.text? name
    | some (.list element) => (table.writeWithin names fuel element).map (· ++ "[]")

/-- The written form of a type. There is none for a list that contains itself, or for a type whose
name is not in the table of names. -/
def write? (table : TypeTable) (names : NameTable) (type : TypeId) : Option String :=
  table.writeWithin names (table.size + 1) type

end InputDetail.TypeTable
