import InputDetail.Proofs.Types.Growth

/-!
# Consistent tables of types

Whatever is constructed, and whatever is refused, the primitive types have their numbers, no two types
are looked up by the same name or the same element type, and the members of a struct have different
names. So looking through the definitions finds the only type there is, and finds it ever after.
-/
namespace InputDetail.TypeTable

open Relation (ReflTransGen)

variable {table table' : TypeTable} {type element : TypeId} {name : Name} {definition : TypeDef}

/-- What constructions keep, besides the types themselves. -/
structure Consistent (table : TypeTable) : Prop where
  primitive : ∀ kind : Primitive, table.get? kind.type = some (.primitive kind)
  unique : ∀ ⦃type other known definition key⦄, table.get? type = some known →
    table.get? other = some definition → known.key? = some key → definition.key? = some key →
    type = other
  distinct : ∀ ⦃type definition⦄, table.get? type = some definition →
    (definition.members.map (·.name)).Nodup

theorem exists_primitive_of_initial (h : initial.get? type = some definition) :
    ∃ kind, definition = .primitive kind := by
  have hmem := Array.mem_of_getElem? h
  simp only [initial, List.mem_toArray, List.mem_map] at hmem
  obtain ⟨kind, -, rfl⟩ := hmem
  exact ⟨kind, rfl⟩

theorem consistent_initial : initial.Consistent := by
  constructor
  case primitive =>
    intro kind
    cases kind <;> rfl
  case unique =>
    intro type other known definition key hknown _ hkey _
    obtain ⟨kind, rfl⟩ := exists_primitive_of_initial hknown
    cases hkey
  case distinct =>
    intro type definition hget
    obtain ⟨kind, rfl⟩ := exists_primitive_of_initial hget
    exact List.nodup_nil

theorem get?_push_cases (h : (table.push definition).2.get? type = some known) :
    table.get? type = some known ∨ type = ⟨table.size⟩ ∧ known = definition := by
  obtain ⟨index⟩ := type
  simp only [push, get?, Array.getElem?_push] at h
  split at h
  · next hindex =>
    cases h
    exact Or.inr ⟨congrArg TypeId.mk hindex, rfl⟩
  · exact Or.inl h

/-- Defining members changes no key. -/
theorem Adds.members_cases {type other : TypeId} {name : Name} {members : List Member} {known : TypeDef}
    (declared : table.get? type = some (.struct name none))
    (h : get? ⟨table.defs.setIfInBounds type.index (.struct name (some members))⟩ other = some known) :
    ∃ old, table.get? other = some old ∧ old.key? = known.key? ∧
      (old = known ∨ known.members = members) := by
  rw [get?_members declared] at h
  split at h
  · next hother =>
    subst hother
    cases h
    exact ⟨_, declared, rfl, Or.inr rfl⟩
  · exact ⟨known, h, rfl, Or.inl rfl⟩

theorem Consistent.of_adds (h : table.Consistent) (hadds : table.Adds table') : table'.Consistent := by
  constructor
  case primitive =>
    intro kind
    obtain ⟨definition, hget, hgrows⟩ := hadds.extends (h.primitive kind)
    cases hgrows
    exact hget
  case unique =>
    intro type other known definition key hknown hdefinition hkey hkey'
    cases hadds with
    | type bare new =>
      obtain hold | ⟨rfl, rfl⟩ := get?_push_cases hknown
      · obtain hold' | ⟨rfl, rfl⟩ := get?_push_cases hdefinition
        · exact h.unique hold hold' hkey hkey'
        · exact absurd (hkey.trans hkey'.symm) (new hold)
      · obtain hold' | ⟨rfl, -⟩ := get?_push_cases hdefinition
        · exact absurd (hkey'.trans hkey.symm) (new hold')
        · rfl
    | members declared distinct =>
      obtain ⟨old, hold, heq, -⟩ := Adds.members_cases declared hknown
      obtain ⟨old', hold', heq', -⟩ := Adds.members_cases declared hdefinition
      exact h.unique hold hold' (heq.trans hkey) (heq'.trans hkey')
  case distinct =>
    intro type definition hget
    cases hadds with
    | type bare new =>
      obtain hold | ⟨rfl, rfl⟩ := get?_push_cases hget
      · exact h.distinct hold
      · rw [bare]
        exact List.nodup_nil
    | members declared distinct =>
      obtain ⟨old, hold, -, rfl | hmembers⟩ := Adds.members_cases declared hget
      · exact h.distinct hold
      · rw [hmembers]
        exact distinct

theorem Consistent.of_additions (h : table.Consistent) (hadds : ReflTransGen Adds table table') :
    table'.Consistent := by
  induction hadds with
  | refl => exact h
  | tail _ hadds ih => exact ih.of_adds hadds

/-- Looking up by a key finds the only type with that key. -/
theorem Consistent.find?_eq_some_iff (h : table.Consistent) {key : TypeKey} {p : TypeDef → Bool}
    (hp : ∀ definition, p definition = true ↔ definition.key? = some key) :
    table.find? p = some type ↔
      ∃ definition, table.get? type = some definition ∧ definition.key? = some key := by
  constructor
  · intro hfind
    obtain ⟨known, hget, hknown⟩ := get?_of_find? hfind
    exact ⟨known, hget, (hp known).1 hknown⟩
  · rintro ⟨definition, hget, hkey⟩
    cases hfind : table.find? p with
    | none =>
      have hfalse := find?_eq_none_iff.1 hfind hget
      rw [(hp definition).2 hkey] at hfalse
      cases hfalse
    | some other =>
      obtain ⟨known, hknown, hholds⟩ := get?_of_find? hfind
      rw [h.unique hknown hget ((hp known).1 hholds) hkey]

theorem Consistent.byName?_eq_some_iff (h : table.Consistent) : table.byName? name = some type ↔
    ∃ definition, table.get? type = some definition ∧ definition.name? = some name := by
  simp only [TypeDef.name?_eq_some_iff]
  exact h.find?_eq_some_iff fun definition => by rw [beq_iff_eq, TypeDef.name?_eq_some_iff]

theorem Consistent.find?_list_eq_some_iff (h : table.Consistent) :
    table.find? (· == .list element) = some type ↔ table.get? type = some (.list element) := by
  rw [h.find?_eq_some_iff fun definition => by rw [beq_iff_eq, TypeDef.eq_list_iff]]
  simp [← TypeDef.eq_list_iff]

theorem get?_list_self (table : TypeTable) (element : TypeId) :
    (table.list element).2.get? (table.list element).1 = some (.list element) := by
  unfold list
  split
  · next type hfind =>
    obtain ⟨known, hget, hknown⟩ := get?_of_find? hfind
    rwa [beq_iff_eq.1 hknown] at hget
  · exact get?_push_self table _

/-- There is one list type with an element type, once there is any. -/
theorem Consistent.list_fst_eq_iff (h : table.Consistent) :
    (table.list element).1 = type ↔ (table.list element).2.get? type = some (.list element) := by
  have hself := get?_list_self table element
  constructor
  · rintro rfl
    exact hself
  · intro hget
    have hafter : (table.list element).2.Consistent :=
      h.of_additions (table.adds_construct (.list element))
    exact hafter.unique hself hget rfl rfl

/-- The table that constructions leave, one after the other. -/
def constructAll (table : TypeTable) (history : List Construction) : TypeTable :=
  history.foldl construct table

theorem constructAll_append (table : TypeTable) (history later : List Construction) :
    table.constructAll (history ++ later) = (table.constructAll history).constructAll later :=
  List.foldl_append

theorem adds_constructAll (table : TypeTable) (history : List Construction) :
    ReflTransGen Adds table (table.constructAll history) := by
  induction history generalizing table with
  | nil => exact .refl
  | cons construction history ih =>
    exact (table.adds_construct construction).trans (ih (table.construct construction))

theorem consistent_constructAll (history : List Construction) :
    (initial.constructAll history).Consistent :=
  consistent_initial.of_additions (initial.adds_constructAll history)

end InputDetail.TypeTable
