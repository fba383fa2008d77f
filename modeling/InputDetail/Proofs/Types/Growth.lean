import InputDetail.Proofs.Types.Members
import Mathlib.Logic.Relation
import Mathlib.Tactic.SplitIfs

/-!
# Tables of types grow

No construction takes a type back. A table grows by new types, and by the members of structs that
had none. So a member that resolves keeps its type in every later table.
-/
namespace InputDetail

/-- The definition is the same, or it is a struct that has got its members. -/
inductive TypeDef.Grows : TypeDef → TypeDef → Prop
  | same (definition : TypeDef) : Grows definition definition
  | defined (name : Name) (members : List Member) :
    Grows (.struct name none) (.struct name (some members))

/-- What a table looks a type up by. -/
inductive TypeKey where
  | name (name : Name)
  | element (element : TypeId)
deriving DecidableEq

/-- An enum or a struct is looked up by its name, and a list by its element type. -/
def TypeDef.key? : TypeDef → Option TypeKey
  | primitive _ => none
  | enum name _ => some (.name name)
  | struct name _ => some (.name name)
  | list element => some (.element element)

theorem TypeDef.name?_eq_some_iff {definition : TypeDef} {name : Name} :
    definition.name? = some name ↔ definition.key? = some (.name name) := by
  cases definition <;> simp [name?, key?]

theorem TypeDef.eq_list_iff {definition : TypeDef} {element : TypeId} :
    definition = .list element ↔ definition.key? = some (.element element) := by
  cases definition <;> simp [key?]

namespace TypeTable

/-- All types stay, with definitions that have grown at most. -/
def Extends (table table' : TypeTable) : Prop :=
  ∀ ⦃type known⦄, table.get? type = some known →
    ∃ definition, table'.get? type = some definition ∧ known.Grows definition

variable {table table' table'' : TypeTable} {type : TypeId} {name : Name}

namespace Extends

theorem refl (table : TypeTable) : table.Extends table :=
  fun _ known hget => ⟨known, hget, .same known⟩

theorem trans (h : table.Extends table') (h' : table'.Extends table'') : table.Extends table'' := by
  intro type known hget
  obtain ⟨middle, hmiddle, hgrows⟩ := h hget
  obtain ⟨definition, hdefinition, hgrows'⟩ := h' hmiddle
  refine ⟨definition, hdefinition, ?_⟩
  cases hgrows with
  | same => exact hgrows'
  | defined name members =>
    cases hgrows'
    exact .defined name members

/-- Whose members a path may name stays the same, once all types that are looked at are there. -/
theorem structOf_eq (h : table.Extends table')
    (hknown : ∀ unknown, table.structOf type ≠ .error (.unknownType unknown)) :
    table'.structOf type = table.structOf type := by
  unfold TypeTable.structOf at hknown ⊢
  cases hget : table.get? type with
  | none => exact absurd (by simp [hget]) (hknown type)
  | some definition =>
  obtain ⟨_, hget', hgrows⟩ := h hget
  cases hgrows with
  | defined name members => simp [hget']
  | same =>
    cases definition with
    | list element =>
      cases helement : table.get? element with
      | none => exact absurd (by simp [hget, helement]) (hknown element)
      | some inner =>
        obtain ⟨_, helement', hgrows⟩ := h helement
        cases hgrows <;> simp [hget', helement, helement']
    | primitive kind => simp [hget']
    | enum name values => simp [hget']
    | struct name members => simp [hget']

theorem structOf (h : table.Extends table') {owner : TypeId}
    (hstruct : table.structOf type = .ok owner) : table'.structOf type = .ok owner :=
  (h.structOf_eq (by simp [hstruct])).trans hstruct

theorem member? (h : table.Extends table') {member : TypeId}
    (hmember : table.member? type name = some member) : table'.member? type name = some member := by
  obtain ⟨known, hget, hfind⟩ := Option.bind_eq_some_iff.1 hmember
  obtain ⟨definition, hget', hgrows⟩ := h hget
  rw [TypeTable.member?, hget', Option.bind_some]
  cases hgrows with
  | same => exact hfind
  | defined => simp [TypeDef.members] at hfind

/-- Members that resolve keep their types. -/
theorem resolve (h : table.Extends table') {member : TypeId}
    (hresolve : table.resolve type name = .ok member) : table'.resolve type name = .ok member := by
  obtain ⟨owner, hstruct, hmember⟩ := resolve_eq_ok_iff.1 hresolve
  exact resolve_eq_ok_iff.2 ⟨owner, h.structOf hstruct, h.member? hmember⟩

end Extends

variable {p : TypeDef → Bool}

theorem find?_eq_none_iff : table.find? p = none ↔
    ∀ ⦃type known⦄, table.get? type = some known → p known = false := by
  rw [find?, Option.map_eq_none_iff, Array.findIdx?_eq_none_iff]
  constructor
  · intro h type known hget
    exact h known (Array.mem_of_getElem? hget)
  · intro h known hmem
    obtain ⟨index, hget⟩ := Array.mem_iff_getElem?.1 hmem
    exact @h ⟨index⟩ known hget

theorem get?_of_find? (h : table.find? p = some type) :
    ∃ known, table.get? type = some known ∧ p known = true := by
  obtain ⟨index, hindex, rfl⟩ := Option.map_eq_some_iff.1 h
  obtain ⟨hlt, hknown, -⟩ := Array.findIdx?_eq_some_iff_getElem.1 hindex
  exact ⟨table.defs[index], Array.getElem?_eq_getElem hlt, hknown⟩

/-- A new type is found if no older one is. -/
theorem find?_push (table : TypeTable) (definition : TypeDef) : (table.push definition).2.find? p =
    (table.find? p).or (if p definition then some ⟨table.size⟩ else none) := by
  rw [find?, push, Array.findIdx?_push, Option.map_or, find?]
  split <;> rfl

/-- The first name that occurs twice, unless all names are different. -/
theorem repeatedName?_eq_none_iff {seen : List Name} {members : List Member} :
    repeatedName? seen members = none ↔
      (members.map (·.name)).Nodup ∧ ∀ member ∈ members, member.name ∉ seen := by
  induction members generalizing seen with
  | nil => simp [repeatedName?]
  | cons member members ih =>
    rw [repeatedName?]
    split
    · next hseen => simp [hseen]
    · next hseen =>
      rw [ih]
      simp only [List.map_cons, List.nodup_cons, List.mem_map, List.mem_cons]
      grind

/-- A single addition to a table: a type without members, which is looked up by something new, or the
members of a declared struct, which have different names. -/
inductive Adds (table : TypeTable) : TypeTable → Prop
  | type {definition : TypeDef} (bare : definition.members = [])
      (new : ∀ ⦃type known⦄, table.get? type = some known → known.key? ≠ definition.key?) :
      Adds table (table.push definition).2
  | members {type : TypeId} {name : Name} {members : List Member}
      (declared : table.get? type = some (.struct name none))
      (distinct : (members.map (·.name)).Nodup) :
      Adds table ⟨table.defs.setIfInBounds type.index (.struct name (some members))⟩

theorem adds_pushNamed {definition : TypeDef} (bare : definition.members = [])
    (hname : definition.name? = some name)
    (h : table.pushNamed name definition = .ok (type, table')) : table.Adds table' := by
  unfold pushNamed at h
  split_ifs at h with hnew
  cases h
  refine .type bare fun type known hget hkey => ?_
  rw [Option.not_isSome_iff_eq_none, byName?, find?_eq_none_iff] at hnew
  have hknown : known.name? = some name := by
    rw [TypeDef.name?_eq_some_iff, hkey, ← TypeDef.name?_eq_some_iff]
    exact hname
  simpa [hknown] using hnew hget

theorem adds_define {members : List Member} (h : table.define type members = .ok table') :
    table.Adds table' := by
  unfold define at h
  split at h
  · cases h
  · next hdistinct =>
    split at h
    · cases h
    · next name hget =>
      cases h
      exact .members hget (repeatedName?_eq_none_iff.1 hdistinct).1
    · cases h

/-- A construction of types, which may be refused. -/
inductive Construction where
  | list (element : TypeId)
  | enum (name : Name) (values : List Name)
  | declare (name : Name)
  | define (type : TypeId) (members : List Member)
  | struct (name : Name) (members : List Member)

/-- The table that a construction leaves. A refused one leaves it as it was, but a struct whose members
are refused stays declared. -/
def construct (table : TypeTable) : Construction → TypeTable
  | .list element => (table.list element).2
  | .enum name values => match table.enum name values with
    | .ok (_, table') => table'
    | .error _ => table
  | .declare name => match table.declare name with
    | .ok (_, table') => table'
    | .error _ => table
  | .define type members => match table.define type members with
    | .ok table' => table'
    | .error _ => table
  | .struct name members => (table.struct name members).2

open Relation (ReflTransGen)

/-- Whatever a construction does is a number of additions, two at most. -/
theorem adds_construct (table : TypeTable) (construction : Construction) :
    ReflTransGen Adds table (table.construct construction) := by
  cases construction with
  | list element =>
    simp only [construct, list]
    cases hfind : table.find? (· == .list element) with
    | some type => exact .refl
    | none =>
      refine .single (.type rfl fun type known hget hkey => ?_)
      have hknown : known = .list element := TypeDef.eq_list_iff.2 hkey
      simpa [hknown] using find?_eq_none_iff.1 hfind hget
  | enum name values =>
    simp only [construct]
    cases henum : table.enum name values with
    | error e => exact .refl
    | ok result => exact .single (adds_pushNamed rfl rfl henum)
  | declare name =>
    simp only [construct]
    cases hdeclare : table.declare name with
    | error e => exact .refl
    | ok result => exact .single (adds_pushNamed rfl rfl hdeclare)
  | define type members =>
    simp only [construct]
    cases hdefine : table.define type members with
    | error e => exact .refl
    | ok defined => exact .single (adds_define hdefine)
  | struct name members =>
    simp only [construct, struct]
    cases hdeclare : table.declare name with
    | error e => exact .refl
    | ok declared =>
      have hdeclared : ReflTransGen Adds table declared.2 := .single (adds_pushNamed rfl rfl hdeclare)
      cases hdefine : declared.2.define declared.1 members with
      | error e => simpa [hdefine] using hdeclared
      | ok defined => simpa [hdefine] using hdeclared.tail (adds_define hdefine)

theorem get?_members {members : List Member} (declared : table.get? type = some (.struct name none))
    (other : TypeId) :
    get? ⟨table.defs.setIfInBounds type.index (.struct name (some members))⟩ other =
      if other = type then some (.struct name (some members)) else table.get? other := by
  obtain ⟨index⟩ := type
  obtain ⟨other⟩ := other
  simp only [get?, Array.getElem?_setIfInBounds, TypeId.mk.injEq, eq_comm (a := index)]
  split
  · next heq =>
    subst heq
    simpa using (Array.getElem?_eq_some_iff.1 declared).1
  · rfl

theorem Adds.extends (h : table.Adds table') : table.Extends table' := by
  cases h with
  | type bare new => exact fun type known hget => ⟨known, get?_push_of_some hget _, .same known⟩
  | members declared distinct =>
    intro other known hknown
    rw [get?_members declared]
    split
    · next hother =>
      subst hother
      rw [declared] at hknown
      cases hknown
      exact ⟨_, rfl, .defined _ _⟩
    · exact ⟨known, hknown, .same known⟩

theorem extends_of_adds (h : ReflTransGen Adds table table') : table.Extends table' := by
  induction h with
  | refl => exact .refl table
  | tail _ hadds ih => exact ih.trans hadds.extends

/-- Whatever a construction does, no type is taken back. -/
theorem extends_construct (table : TypeTable) (construction : Construction) :
    table.Extends (table.construct construction) := extends_of_adds (table.adds_construct construction)

end TypeTable

end InputDetail
