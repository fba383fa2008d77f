import InputDetail.Proofs.Types.Consistency
import Mathlib.Data.Set.Finite.Basic

/-!
# Final answers

A member that is looked up in a table has a type, or an error says why not. Most answers are final:
whatever is constructed afterwards, and whatever is refused, the same lookup has the same answer. Two
errors are not. A type that is missing may be added, and a struct without members may get them.
-/
namespace InputDetail.TypeTable

variable {table table' : TypeTable} {type owner unknown : TypeId} {name struct : Name}
  {answer : Except MemberError TypeId} {e : MemberError}

/-- What is looked up is there, or it is missing from a definition that does not change any more. -/
inductive Final (table : TypeTable) : Except MemberError TypeId → Prop
  | member (type : TypeId) : table.Final (.ok type)
  | notStructured (type : TypeId) (kind : String) : table.Final (.error (.notStructured type kind))
  | listOfNonStruct (list : TypeId) (kind : String) :
    table.Final (.error (.listOfNonStruct list kind))
  | unknownMember {owner : TypeId} {struct : Name} {members : List Member}
    (defined : table.get? owner = some (.struct struct (some members))) (name : Name) :
    table.Final (.error (.unknownMember owner name))

/-- What is looked up is missing as long as a type, or the members of a struct, are. -/
inductive Open (table : TypeTable) : Except MemberError TypeId → Prop
  | unknownType {unknown : TypeId} (missing : table.get? unknown = none) :
    table.Open (.error (.unknownType unknown))
  | unknownMember {owner : TypeId} {struct : Name}
    (undefined : table.get? owner = some (.struct struct none)) (name : Name) :
    table.Open (.error (.unknownMember owner name))

/-- Every answer is of one of the two kinds. -/
theorem final_or_open (table : TypeTable) (type : TypeId) (name : Name) :
    table.Final (table.resolve type name) ∨ table.Open (table.resolve type name) := by
  have hspec := table.structOf_spec type
  cases hstruct : table.structOf type with
  | error e =>
    rw [hstruct] at hspec
    rw [resolve_of_error hstruct]
    cases e with
    | notStructured type kind => exact Or.inl (.notStructured type kind)
    | listOfNonStruct list kind => exact Or.inl (.listOfNonStruct list kind)
    | unknownType unknown => exact Or.inr (.unknownType hspec)
    | unknownMember owner name => exact hspec.elim
  | ok owner =>
    rw [hstruct] at hspec
    obtain ⟨struct, members, hget⟩ := hspec
    rw [resolve_of_owner hstruct]
    cases table.member? owner name with
    | some member => exact Or.inl (.member member)
    | none =>
      cases members with
      | none => exact Or.inr (.unknownMember hget name)
      | some members => exact Or.inl (.unknownMember hget name)

/-- What an answer misses is missing from the table. -/
theorem get?_of_unknownType (h : table.resolve type name = .error (.unknownType unknown)) :
    table.get? unknown = none := by
  have hkind := table.final_or_open type name
  rw [h] at hkind
  obtain hkind | hkind := hkind <;> cases hkind
  assumption

/-- Defined members stay as they are. -/
theorem Extends.member?_eq {members : List Member} (h : table.Extends table')
    (hget : table.get? owner = some (.struct struct (some members))) (name : Name) :
    table'.member? owner name = table.member? owner name := by
  obtain ⟨_, hget', hgrows⟩ := h hget
  cases hgrows
  rw [TypeTable.member?, TypeTable.member?, hget, hget']

/-- A final answer comes again. Only a missing type would keep `structOf` from coming to the same end. -/
theorem Extends.resolve_eq (h : table.Extends table') (hfinal : table.Final (table.resolve type name)) :
    table'.resolve type name = table.resolve type name := by
  generalize hanswer : table.resolve type name = answer at hfinal
  have herror : ∀ e, table.structOf type = .error e → (∀ unknown, e ≠ .unknownType unknown) →
      table'.resolve type name = .error e := by
    intro e hstruct hknown
    refine resolve_of_error ((h.structOf_eq fun unknown hunknown => ?_).trans hstruct) name
    exact hknown unknown (Except.error.inj (hstruct.symm.trans hunknown))
  cases hfinal with
  | member type => exact h.resolve hanswer
  | notStructured _ kind => exact herror _ (structOf_of_error hanswer) nofun
  | listOfNonStruct _ kind => exact herror _ (structOf_of_error hanswer) nofun
  | unknownMember defined missing =>
    obtain ⟨hstruct, hmember, rfl⟩ := structOf_of_error hanswer
    rw [resolve_of_owner (h.structOf hstruct), h.member?_eq defined, hmember]

/-- There is always a list that the table does not have. -/
theorem exists_find?_list_eq_none (table : TypeTable) :
    ∃ element, table.find? (· == .list element) = none := by
  have hinjective : Function.Injective fun index => TypeDef.list ⟨index⟩ := by
    intro index other heq
    cases heq
    rfl
  obtain ⟨_, ⟨index, rfl⟩, hnew⟩ :=
    (Set.infinite_range_of_injective hinjective).exists_notMem_finset table.defs.toList.toFinset
  refine ⟨⟨index⟩, find?_eq_none_iff.2 fun type known hget => beq_false_of_ne ?_⟩
  rintro rfl
  exact hnew (by simpa using Array.mem_of_getElem? hget)

/-- A table can grow to any size. -/
theorem exists_le_size (table : TypeTable) (n : Nat) :
    ∃ later, n ≤ (table.constructAll later).size := by
  induction n with
  | zero => exact ⟨[], Nat.zero_le _⟩
  | succ n ih =>
    obtain ⟨later, hsize⟩ := ih
    obtain ⟨element, hnew⟩ := (table.constructAll later).exists_find?_list_eq_none
    refine ⟨later ++ [.list element], ?_⟩
    have hgrown : ((table.constructAll later).construct (.list element)).size =
        (table.constructAll later).size + 1 := by
      rw [construct, list, hnew]
      exact Array.size_push _
    rw [constructAll_append]
    exact hgrown ▸ Nat.succ_le_succ hsize

/-- A struct without members can get the member that is looked up. -/
theorem resolve_construct_define (hstruct : table.structOf type = .ok owner)
    (undefined : table.get? owner = some (.struct struct none)) (name : Name) (member : TypeId) :
    (table.construct (.define owner [⟨name, member⟩])).resolve type name = .ok member := by
  have hextends := table.extends_construct (.define owner [⟨name, member⟩])
  have hget : (table.construct (.define owner [⟨name, member⟩])).get? owner =
      some (.struct struct (some [⟨name, member⟩])) := by
    simp only [construct, define, repeatedName?, undefined, List.not_mem_nil, if_false]
    rw [get?_members undefined, if_pos rfl]
  rw [resolve_of_owner (hextends.structOf hstruct), member?, hget]
  simp [TypeDef.members]

theorem Open.exists_changed (h : table.Open (table.resolve type name)) :
    ∃ later, (table.constructAll later).resolve type name ≠ table.resolve type name := by
  generalize hanswer : table.resolve type name = answer at h
  cases h with
  | @unknownType unknown missing =>
    obtain ⟨later, hsize⟩ := table.exists_le_size (unknown.index + 1)
    refine ⟨later, fun hsame => ?_⟩
    have hmissing : (table.constructAll later).size ≤ unknown.index :=
      Array.getElem?_eq_none_iff.1 (get?_of_unknownType hsame)
    omega
  | @unknownMember owner struct undefined missing =>
    obtain ⟨hstruct, -, rfl⟩ := structOf_of_error hanswer
    refine ⟨[.define owner [⟨missing, type⟩]], fun hsame => ?_⟩
    have hfound : (table.constructAll [.define owner [⟨missing, type⟩]]).resolve type missing =
        .ok type := resolve_construct_define hstruct undefined missing type
    rw [hfound] at hsame
    cases hsame

/-- Whatever was constructed, an answer is final if and only if it stays the same whatever is
constructed later, and open if and only if there is something to construct that changes it. -/
theorem resolve_constructAll (history : List Construction) (type : TypeId) (name : Name) :
    let table := initial.constructAll history
    (table.Final (table.resolve type name) ↔
      ∀ later, (table.constructAll later).resolve type name = table.resolve type name) ∧
    (table.Open (table.resolve type name) ↔
      ∃ later, (table.constructAll later).resolve type name ≠ table.resolve type name) := by
  intro table
  have hstays : table.Final (table.resolve type name) →
      ∀ later, (table.constructAll later).resolve type name = table.resolve type name :=
    fun hfinal later => (extends_of_adds (table.adds_constructAll later)).resolve_eq hfinal
  have hchanges : table.Open (table.resolve type name) →
      ∃ later, (table.constructAll later).resolve type name ≠ table.resolve type name :=
    Open.exists_changed
  refine ⟨⟨hstays, fun hsame => ?_⟩, hchanges, fun ⟨later, hchanged⟩ => ?_⟩
  · refine (table.final_or_open type name).resolve_right fun hopen => ?_
    obtain ⟨later, hchanged⟩ := hchanges hopen
    exact hchanged (hsame later)
  · exact (table.final_or_open type name).resolve_left fun hfinal =>
      hchanged (hstays hfinal later)

/-- A struct is only declared, another one has a member; there are lists of it, of integers and of a
type that is missing. -/
theorem resolve_constructAll_sample :
    let table := initial.constructAll
      [.declare ⟨5⟩, .struct ⟨6⟩ [⟨⟨7⟩, ⟨3⟩⟩], .list ⟨6⟩, .list ⟨1⟩, .list ⟨10⟩]
    (∀ later, (table.constructAll later).resolve ⟨7⟩ ⟨7⟩ = .ok ⟨3⟩) ∧
    (∀ later, (table.constructAll later).resolve ⟨3⟩ ⟨7⟩ =
      .error (.notStructured ⟨3⟩ "primitive")) ∧
    (∀ later, (table.constructAll later).resolve ⟨8⟩ ⟨7⟩ =
      .error (.listOfNonStruct ⟨8⟩ "primitive")) ∧
    (∀ later, (table.constructAll later).resolve ⟨7⟩ ⟨8⟩ = .error (.unknownMember ⟨6⟩ ⟨8⟩)) ∧
    (∃ later, (table.constructAll later).resolve ⟨5⟩ ⟨7⟩ ≠ .error (.unknownMember ⟨5⟩ ⟨7⟩)) ∧
    ∃ later, (table.constructAll later).resolve ⟨9⟩ ⟨7⟩ ≠ .error (.unknownType ⟨10⟩) := by
  intro table
  have hstays : ∀ {type name answer}, table.resolve type name = answer → table.Final answer →
      ∀ later, (table.constructAll later).resolve type name = answer := by
    rintro type name _ rfl
    exact (resolve_constructAll _ type name).1.1
  have hchanges : ∀ {type name answer}, table.resolve type name = answer → table.Open answer →
      ∃ later, (table.constructAll later).resolve type name ≠ answer := by
    rintro type name _ rfl
    exact (resolve_constructAll _ type name).2.1
  have hdefined : table.get? ⟨6⟩ = some (.struct ⟨6⟩ (some [⟨⟨7⟩, ⟨3⟩⟩])) := by decide +kernel
  have hundefined : table.get? ⟨5⟩ = some (.struct ⟨5⟩ none) := by decide +kernel
  have hmissing : table.get? ⟨10⟩ = none := by decide +kernel
  exact ⟨hstays (by decide +kernel) (.member _), hstays (by decide +kernel) (.notStructured _ _),
    hstays (by decide +kernel) (.listOfNonStruct _ _),
    hstays (by decide +kernel) (.unknownMember hdefined _),
    hchanges (by decide +kernel) (.unknownMember hundefined _),
    hchanges (by decide +kernel) (.unknownType hmissing)⟩

end InputDetail.TypeTable
