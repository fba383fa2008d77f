/-!
# Names

A name is a number that stands for a text in a table of names. The first five numbers are fixed:
the empty text and the four keywords of the documentation language.
-/
namespace InputDetail

structure Name where
  index : Nat
deriving DecidableEq, Hashable

namespace Name

/-- The name of the empty text. -/
def empty : Name := ⟨0⟩

/-- Keyword of a path that must be supplied. -/
def mandatory : Name := ⟨1⟩

/-- Keyword of a path that may be supplied. -/
def optional : Name := ⟨2⟩

/-- The index that stands for every element of a list. -/
def collection : Name := ⟨3⟩

/-- Keyword of two paths of which exactly one is supplied. -/
def or : Name := ⟨4⟩

/-- The texts of the reserved names, in the order of their numbers. -/
def reserved : List String := ["", "mandatory", "optional", "collection", "or"]

def isMarker (name : Name) : Bool := name == mandatory || name == optional

instance : ToString Name := ⟨fun name => s!"Name({name.index})"⟩

/-- A member path in brackets, as messages show it. -/
def pathText (path : List Name) : String :=
  "[" ++ String.intercalate ", " (path.map toString) ++ "]"

end Name

end InputDetail
