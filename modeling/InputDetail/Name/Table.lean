import InputDetail.Name
import InputDetail.Text.Words

/-!
# The table of names

Texts get consecutive numbers in the order of their first use, and keep them. A name can be made
from a text as it stands, or from the canonical spelling of an identifier. A table that finds texts by
a map, `NameTable.Indexed`, gives the same answers.
-/
namespace InputDetail

/-- Texts by number. No operation changes or removes an entry. -/
structure NameTable where
  texts : Array String

namespace NameTable

/-- The table that holds the reserved names alone. -/
def initial : NameTable := ⟨Name.reserved.toArray⟩

def size (table : NameTable) : Nat := table.texts.size

/-- The text of a name, if the table has it. -/
def text? (table : NameTable) (name : Name) : Option String := table.texts[name.index]?

/-- The name of a text that has been used before. -/
def name? (table : NameTable) (text : String) : Option Name :=
  (table.texts.findIdx? (· == text)).map Name.mk

/-- The name of a text, which becomes the next free number if the text is new. -/
def intern (table : NameTable) (text : String) : Name × NameTable :=
  match table.name? text with
  | some name => (name, table)
  | none => (⟨table.size⟩, ⟨table.texts.push text⟩)

theorem text?_of_name? {table : NameTable} {text : String} {name : Name}
    (h : table.name? text = some name) : table.text? name = some text := by
  obtain ⟨i, hi, rfl⟩ := Option.map_eq_some_iff.1 h
  obtain ⟨hlt, hfound, -⟩ := Array.findIdx?_eq_some_iff_getElem.1 hi
  simpa [text?, hlt] using hfound

/-- Interning gives the name of the text. -/
@[simp] theorem text?_intern (table : NameTable) (text : String) :
    (table.intern text).2.text? (table.intern text).1 = some text := by
  unfold intern
  split
  · next name h => exact text?_of_name? h
  · simp [text?, size]

/-- Interning keeps the texts of all names. -/
theorem text?_intern_of_some {table : NameTable} {name : Name} {known : String}
    (h : table.text? name = some known) (text : String) :
    (table.intern text).2.text? name = some known := by
  unfold intern
  split
  · exact h
  · obtain ⟨hlt, hget⟩ := Array.getElem?_eq_some_iff.1 h
    simp only [text?, Array.getElem?_push]
    rw [if_neg (Nat.ne_of_lt hlt)]
    exact h

/-- The name of an identifier, whichever way its words are spelled. -/
def internWords (table : NameTable) (identifier : String) : Name × NameTable :=
  table.intern (Text.canonical identifier)

/-- The number of the last name a table may hold. -/
def lastIndex : Nat := 4294967295

/-- All numbers are in use: the table holds `count` texts. -/
inductive CapacityError where
  | overflow (count : Nat)

def CapacityError.message : CapacityError → String
  | .overflow count => s!"interner exceeded capacity: {count} strings, max is {lastIndex}"

/-- As `intern`, but refuses a new text when every number is taken. -/
def tryIntern (table : NameTable) (text : String) : Except CapacityError (Name × NameTable) :=
  if (table.name? text).isNone && lastIndex < table.size then .error (.overflow table.size)
  else .ok (table.intern text)

end NameTable

end InputDetail
