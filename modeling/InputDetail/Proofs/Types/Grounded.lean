import InputDetail.Types.Text
import InputDetail.Proofs.Types.Members
import Mathlib.Tactic.SplitIfs

/-!
# Lists are younger than their elements

A list type is added when its element type has a number already. So following list elements leads to
ever smaller numbers. Writing a type and resolving a path meet names only that some definition has.
-/
namespace InputDetail.TypeTable

/-- The element type of every list is older than the list. -/
def Grounded (types : TypeTable) : Prop :=
  ∀ ⦃type element : TypeId⦄, types.get? type = some (.list element) → element.index < type.index

theorem grounded_initial : initial.Grounded := by
  rintro ⟨index⟩ element h
  have hmem := Array.mem_of_getElem? h
  simp [initial, Primitive.all] at hmem

/-- A new definition may refer to older types only, if it is a list. -/
theorem Grounded.push {types : TypeTable} (h : types.Grounded) {definition : TypeDef}
    (hold : ∀ element, definition = .list element → element.index < types.size) :
    (types.push definition).2.Grounded := by
  rintro ⟨index⟩ element hget
  simp only [TypeTable.push, get?, Array.getElem?_push] at hget
  split_ifs at hget with hindex
  · cases hget
    subst hindex
    exact hold element rfl
  · exact h hget

theorem Grounded.list {types : TypeTable} (h : types.Grounded) {element : TypeId}
    (hold : element.index < types.size) : (types.list element).2.Grounded := by
  unfold TypeTable.list
  split
  · exact h
  · refine h.push fun other hother => ?_
    cases hother
    exact hold

theorem Grounded.pushNamed {types types' : TypeTable} (h : types.Grounded) {name : Name}
    {definition : TypeDef} (hlist : ∀ element, definition ≠ .list element) {type : TypeId}
    (hpush : types.pushNamed name definition = .ok (type, types')) : types'.Grounded := by
  unfold TypeTable.pushNamed at hpush
  split_ifs at hpush
  cases hpush
  exact h.push fun element heq => absurd heq (hlist element)

theorem Grounded.enum {types types' : TypeTable} (h : types.Grounded) {name : Name}
    {values : List Name} {type : TypeId} (henum : types.enum name values = .ok (type, types')) :
    types'.Grounded := h.pushNamed (by simp) henum

theorem Grounded.declare {types types' : TypeTable} (h : types.Grounded) {name : Name} {type : TypeId}
    (hdeclare : types.declare name = .ok (type, types')) : types'.Grounded :=
  h.pushNamed (by simp) hdeclare

/-- Defining the members of a struct touches no list. -/
theorem Grounded.define {types types' : TypeTable} (h : types.Grounded) {type : TypeId}
    {members : List Member} (hdefine : types.define type members = .ok types') : types'.Grounded := by
  unfold TypeTable.define at hdefine
  split at hdefine
  · cases hdefine
  · split at hdefine
    · cases hdefine
    · cases hdefine
      rintro ⟨index⟩ element hget
      simp only [get?, Array.getElem?_setIfInBounds] at hget
      split_ifs at hget
      · cases hget
      · exact h hget
    · cases hdefine

/-- The names of all types are known, and the names of all members. -/
structure Named (types : TypeTable) (names : NameTable) : Prop where
  type : ∀ {type definition}, types.get? type = some definition →
    ∀ name ∈ definition.name?, (names.text? name).isSome
  member : ∀ {type definition}, types.get? type = some definition →
    ∀ member ∈ definition.members, (names.text? member.name).isSome

/-- A path that resolves ends with a known name. -/
theorem Named.text?_isSome_of_resolve {types : TypeTable} {names : NameTable}
    (h : types.Named names) {current type : TypeId} {name : Name}
    (hresolve : types.resolve current name = .ok type) : (names.text? name).isSome := by
  obtain ⟨owner, -, hmember⟩ := resolve_eq_ok_iff.1 hresolve
  obtain ⟨definition, hget, hfind⟩ := Option.bind_eq_some_iff.1 hmember
  obtain ⟨found, hfound, -⟩ := Option.map_eq_some_iff.1 hfind
  have hname : found.name = name := by simpa using List.find?_some hfound
  exact hname ▸ h.member hget found (List.mem_of_find?_eq_some hfound)

end InputDetail.TypeTable
