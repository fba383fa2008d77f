import InputDetail.Types.Lookup

/-!
# Looking up members

A path may name the members of a struct, or of the elements of a list. So a member is looked up in two
steps: whose members the path may name, and which of them has the name. The first step fails for a type
that is missing or no struct, the second one for a name that is missing.
-/
namespace InputDetail.TypeTable

variable {table : TypeTable} {type owner member : TypeId} {name : Name} {e : MemberError}

/-- What `structOf` finds is a struct, and what it misses is not in the table. -/
theorem structOf_spec (table : TypeTable) (type : TypeId) :
    match table.structOf type with
    | .ok owner => ∃ struct members, table.get? owner = some (.struct struct members)
    | .error (.unknownType unknown) => table.get? unknown = none
    | .error (.unknownMember _ _) => False
    | .error _ => True := by
  rw [structOf]
  cases hget : table.get? type with
  | none => exact hget
  | some definition =>
  cases definition with
  | struct struct members => exact ⟨struct, members, hget⟩
  | primitive kind => trivial
  | enum name values => trivial
  | list element =>
    cases helement : table.get? element with
    | none => simp [helement]
    | some inner => cases inner <;> simp [helement]

theorem resolve_of_error (h : table.structOf type = .error e) (name : Name) :
    table.resolve type name = .error e := by
  rw [resolve, h]
  rfl

theorem resolve_of_owner (h : table.structOf type = .ok owner) (name : Name) :
    table.resolve type name = match table.member? owner name with
      | some member => .ok member
      | none => .error (.unknownMember owner name) := by
  rw [resolve, h]
  rfl

/-- A member resolves if both steps find something. -/
theorem resolve_eq_ok_iff : table.resolve type name = .ok member ↔
    ∃ owner, table.structOf type = .ok owner ∧ table.member? owner name = some member := by
  cases hstruct : table.structOf type with
  | error e => simp [resolve_of_error hstruct]
  | ok owner =>
    rw [resolve_of_owner hstruct]
    cases hmember : table.member? owner name <;> simp [hmember]

/-- What has members is not simple. -/
theorem isSimple_eq_false (h : table.resolve type name = .ok member) : table.isSimple type = false := by
  obtain ⟨owner, hstruct, -⟩ := resolve_eq_ok_iff.1 h
  rw [structOf] at hstruct
  rw [isSimple]
  cases hget : table.get? type with
  | none => rfl
  | some definition =>
    rw [hget] at hstruct
    cases definition with
    | struct struct members => rfl
    | list element => rfl
    | primitive kind => cases hstruct
    | enum name values => cases hstruct

/-- Only a struct that is found can be without a member. -/
theorem structOf_of_error (h : table.resolve type name = .error e) : match e with
    | .unknownMember owner missing =>
      table.structOf type = .ok owner ∧ table.member? owner name = none ∧ missing = name
    | e => table.structOf type = .error e := by
  have hspec := table.structOf_spec type
  cases hstruct : table.structOf type with
  | error cause =>
    rw [hstruct] at hspec
    rw [resolve_of_error hstruct] at h
    cases h
    cases e with
    | unknownMember owner missing => exact hspec.elim
    | _ => rfl
  | ok owner =>
    rw [resolve_of_owner hstruct] at h
    cases hmember : table.member? owner name with
    | some member => simp [hmember] at h
    | none =>
      rw [hmember] at h
      cases h
      exact ⟨rfl, hmember, rfl⟩

end InputDetail.TypeTable
