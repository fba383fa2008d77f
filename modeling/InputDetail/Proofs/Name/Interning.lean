import InputDetail.Name.Table
import Mathlib.Tactic.SplitIfs

/-!
# Names that are known

A text that has a name keeps it, whatever else is interned, and interning it again changes nothing. If
no text stands in the table twice, then the name of a text and the text of a name are inverse to each
other.
-/
namespace InputDetail.NameTable

variable {table : NameTable} {text : String} {name : Name}

theorem intern_of_name? (h : table.name? text = some name) : table.intern text = (name, table) := by
  rw [intern, h]

theorem intern_of_new (h : table.name? text = none) :
    table.intern text = (⟨table.size⟩, ⟨table.texts.push text⟩) := by
  rw [intern, h]

theorem name?_intern (table : NameTable) (text : String) :
    (table.intern text).2.name? text = some (table.intern text).1 := by
  cases h : table.name? text with
  | some name => rw [intern_of_name? h, h]
  | none =>
    have hnew : table.texts.findIdx? (· == text) = none := by simpa [name?] using h
    rw [intern_of_new h]
    simp [name?, Array.findIdx?_push, hnew, size]

theorem name?_intern_of_some (h : table.name? text = some name) (other : String) :
    (table.intern other).2.name? text = some name := by
  cases hother : table.name? other with
  | some known => rwa [intern_of_name? hother]
  | none =>
    obtain ⟨i, hi, rfl⟩ := Option.map_eq_some_iff.1 h
    rw [intern_of_new hother]
    simp [name?, Array.findIdx?_push, hi]

theorem name?_eq_none_iff : table.name? text = none ↔ ∀ name, table.text? name ≠ some text := by
  rw [name?, Option.map_eq_none_iff, Array.findIdx?_eq_none_iff]
  constructor
  · intro h name hname
    simpa using h text (Array.mem_of_getElem? hname)
  · intro h known hmem
    obtain ⟨index, hindex⟩ := Array.mem_iff_getElem?.1 hmem
    have hne : known ≠ text := fun heq => h ⟨index⟩ (heq ▸ hindex)
    simpa using hne

/-- No text has two names. -/
def Distinct (names : NameTable) : Prop :=
  ∀ ⦃a b : Name⦄ ⦃text : String⦄, names.text? a = some text → names.text? b = some text → a = b

theorem distinct_of_nodup {names : NameTable} (h : names.texts.toList.Nodup) : names.Distinct := by
  rintro ⟨a⟩ ⟨b⟩ text ha hb
  simp only [text?, ← Array.getElem?_toList] at ha hb
  have hlt := (List.getElem?_eq_some_iff.1 ha).1
  have hindex := (List.getElem?_inj hlt h).1 (ha.trans hb.symm)
  exact congrArg Name.mk hindex

/-- The name of a text is the one whose text it is. -/
theorem Distinct.name?_eq_some_iff (h : table.Distinct) :
    table.name? text = some name ↔ table.text? name = some text := by
  refine ⟨text?_of_name?, fun htext => ?_⟩
  cases hname : table.name? text with
  | none => exact absurd htext (name?_eq_none_iff.1 hname name)
  | some other => rw [h (text?_of_name? hname) htext]

/-- Names are the same if and only if their texts are. -/
theorem Distinct.eq_iff (h : table.Distinct) {other : Name} {known : String}
    (htext : table.text? name = some text) (hknown : table.text? other = some known) :
    name = other ↔ text = known := by
  constructor
  · rintro rfl
    exact Option.some_inj.1 (htext.symm.trans hknown)
  · rintro rfl
    exact h htext hknown

variable {larger largest : NameTable} {identifier : String}

/-- Every text that has a name in the first table has it in the second. -/
def Extends (table larger : NameTable) : Prop :=
  ∀ text name, table.name? text = some name → larger.name? text = some name

theorem Extends.refl (table : NameTable) : table.Extends table := fun _ _ hname => hname

theorem Extends.trans (h : table.Extends larger) (h' : larger.Extends largest) :
    table.Extends largest := fun text name hname => h' text name (h text name hname)

theorem extends_internWords (table : NameTable) (identifier : String) :
    table.Extends (table.internWords identifier).2 :=
  fun _ _ hname => name?_intern_of_some hname _

theorem internWords_of_name? (h : table.name? (Text.canonical identifier) = some name) :
    table.internWords identifier = (name, table) := intern_of_name? h

/-- An identifier has a name that is known if and only if it has the canonical spelling. -/
theorem internWords_eq_iff (h : table.name? text = some name) :
    (table.internWords identifier).1 = name ↔ Text.canonical identifier = text := by
  constructor
  · intro hname
    have hkept := text?_intern_of_some (text?_of_name? h) (Text.canonical identifier)
    have hback := table.text?_intern (Text.canonical identifier)
    rw [show (table.intern (Text.canonical identifier)).1 = name from hname, hkept] at hback
    exact (Option.some.inj hback).symm
  · rintro rfl
    rw [internWords_of_name? h]

/-- What has been interned has the same name in all later tables. -/
theorem Extends.internWords_eq (h : (table.internWords identifier).2.Extends larger) :
    (larger.internWords identifier).1 = (table.internWords identifier).1 := by
  have hname : larger.name? (Text.canonical identifier) = some (table.internWords identifier).1 :=
    h _ _ (name?_intern table (Text.canonical identifier))
  rw [internWords_of_name? hname]

/-- Both are earlier states of one table, which began with the reserved names. -/
def Compatible (table other : NameTable) : Prop :=
  ∃ final, initial.Extends final ∧ table.Extends final ∧ other.Extends final

end InputDetail.NameTable
