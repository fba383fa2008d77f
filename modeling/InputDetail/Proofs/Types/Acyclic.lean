import InputDetail.Proofs.Types.Grounded
import Mathlib.Data.List.Perm.Subperm
import Mathlib.Logic.Relation

/-!
# Lists that do not contain themselves

Writing a type follows list elements. It meets no list twice unless a list contains itself, so it ends
within as many steps as there are types. What is wrong with a member can then be written, too.
-/
namespace InputDetail

open Relation

namespace TypeTable

/-- The first type is a list of the second. -/
def Element (types : TypeTable) (list element : TypeId) : Prop :=
  types.get? list = some (.list element)

/-- No list contains itself, neither directly nor through other lists. -/
def Acyclic (types : TypeTable) : Prop := ∀ type, ¬ TransGen types.Element type type

variable {types : TypeTable} {names : NameTable}

/-- Lists that are younger than their elements do not contain themselves. -/
theorem Grounded.acyclic (h : types.Grounded) : types.Acyclic := by
  have hlt : ∀ {list element}, TransGen types.Element list element → element.index < list.index := by
    intro list element hway
    induction hway with
    | single helement => exact h helement
    | tail _ helement ih => exact Nat.lt_trans (h helement) ih
  exact fun type hway => Nat.lt_irrefl _ (hlt hway)

/-- There are no more types than the table holds. -/
theorem length_le_size {visited : List TypeId} (hnodup : visited.Nodup)
    (hknown : ∀ type ∈ visited, type.index < types.size) : visited.length ≤ types.size := by
  have hsubset : visited ⊆ (List.range types.size).map TypeId.mk := fun type hmem =>
    List.mem_map.2 ⟨type.index, List.mem_range.2 (hknown type hmem), rfl⟩
  simpa using (List.subperm_of_subset hnodup hsubset).length_le

/-- The lists on the way to a type are all different, so that the fuel left is enough for the rest. -/
theorem Acyclic.writeWithin_isSome (h : types.Acyclic) (hnamed : types.Named names) {fuel : Nat}
    {type : TypeId} {visited : List TypeId} (hnodup : visited.Nodup)
    (hknown : ∀ list ∈ visited, list.index < types.size)
    (hway : ∀ list ∈ visited, TransGen types.Element list type)
    (hfuel : types.size < fuel + visited.length) : (types.writeWithin names fuel type).isSome := by
  induction fuel generalizing type visited with
  | zero =>
    have hle := length_le_size hnodup hknown
    omega
  | succ fuel ih =>
    rw [writeWithin]
    cases hget : types.get? type with
    | none => rfl
    | some definition =>
    cases definition with
    | primitive kind => rfl
    | enum name values => exact hnamed.type hget name rfl
    | struct name members => exact hnamed.type hget name rfl
    | list element =>
      rw [Option.isSome_map]
      refine @ih element (type :: visited) ?_ ?_ ?_ ?_
      · exact List.nodup_cons.2 ⟨fun hmem => h type (hway type hmem), hnodup⟩
      · exact List.forall_mem_cons.2 ⟨(Array.getElem?_eq_some_iff.1 hget).1, hknown⟩
      · exact List.forall_mem_cons.2 ⟨.single hget, fun list hmem => (hway list hmem).tail hget⟩
      · rw [List.length_cons]
        omega

/-- Every type can be written. -/
theorem Acyclic.write?_isSome (h : types.Acyclic) (hnamed : types.Named names) (type : TypeId) :
    (types.write? names type).isSome :=
  h.writeWithin_isSome hnamed List.nodup_nil (by simp) (by simp) (by simp)

/-- Later names serve as well. -/
theorem Named.mono {names' : NameTable} (h : types.Named names)
    (hkeeps : ∀ name, (names.text? name).isSome → (names'.text? name).isSome) :
    types.Named names' :=
  ⟨fun hget name hname => hkeeps name (h.type hget name hname),
    fun hget member hmember => hkeeps member.name (h.member hget member hmember)⟩

end TypeTable

end InputDetail
