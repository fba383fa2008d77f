import InputDetail.Proofs.Types.Growth

/-!
# Refused constructions

A refused construction leaves the table as it was, with one exception. A struct is declared before its
members are looked at: if its name is new and its members are refused, it stays declared. Then its name
is taken, and a corrected attempt is refused as well. Defining the members of the struct that stayed
leads to the table that the corrected attempt would have led to.
-/
namespace InputDetail.TypeTable

variable {table : TypeTable} {type : TypeId} {name : Name} {members : List Member}
  {construction : Construction} {e : TypeError}

/-- Why a result is not there, if it is not. -/
def refusalOf {α : Type} : Except TypeError α → Option TypeError
  | .ok _ => none
  | .error e => some e

/-- Why a construction is refused, if it is. -/
def refusal? (table : TypeTable) : Construction → Option TypeError
  | .list _ => none
  | .enum name values => refusalOf (table.enum name values)
  | .declare name => refusalOf (table.declare name)
  | .define type members => refusalOf (table.define type members)
  | .struct name members => refusalOf (table.struct name members).1

theorem declare_of_new (h : table.byName? name = none) :
    table.declare name = .ok (table.push (.struct name none)) := by
  rw [declare, pushNamed, h]
  rfl

/-- A struct whose name is taken is refused at once. -/
theorem struct_of_taken (h : table.byName? name = some type) (members : List Member) :
    table.struct name members = (.error (.duplicateType name), table) := by
  rw [struct, declare, pushNamed, h]
  rfl

/-- A struct whose name is new is declared, and its members are looked at afterwards. -/
theorem struct_of_new (h : table.byName? name = none) (members : List Member) :
    table.struct name members = match repeatedName? [] members with
      | some member =>
        (.error (.duplicateMember ⟨table.size⟩ member), (table.push (.struct name none)).2)
      | none => (.ok ⟨table.size⟩, ⟨(table.push (.struct name none)).2.defs.setIfInBounds table.size
          (.struct name (some members))⟩) := by
  have hself : (table.push (.struct name none)).2.get? ⟨table.size⟩ = some (.struct name none) :=
    get?_push_self table _
  rw [struct, declare_of_new h]
  simp only [push, define] at hself ⊢
  cases repeatedName? [] members with
  | some member => rfl
  | none => rw [hself]

/-- If the name is new, the struct is refused for a member that is named twice, or not at all. -/
theorem refusal?_struct_of_new (h : table.byName? name = none) (members : List Member) :
    table.refusal? (.struct name members) =
      (repeatedName? [] members).map (.duplicateMember ⟨table.size⟩) := by
  rw [refusal?, struct_of_new h]
  cases repeatedName? [] members <;> rfl

theorem refusal?_struct_of_taken (h : table.byName? name = some type) (members : List Member) :
    table.refusal? (.struct name members) = some (.duplicateType name) := by
  rw [refusal?, struct_of_taken h]
  rfl

theorem construct_declare_of_new (h : table.byName? name = none) :
    table.construct (.declare name) = (table.push (.struct name none)).2 := by
  rw [construct, declare_of_new h]

theorem size_push (table : TypeTable) (definition : TypeDef) :
    (table.push definition).2.size = table.size + 1 := Array.size_push ..

theorem push_ne (table : TypeTable) (definition : TypeDef) : (table.push definition).2 ≠ table := by
  intro h
  have hsize := size_push table definition
  rw [h] at hsize
  omega

theorem get?_push (table : TypeTable) (definition : TypeDef) (type : TypeId) :
    (table.push definition).2.get? type =
      if type = ⟨table.size⟩ then some definition else table.get? type := by
  obtain ⟨index⟩ := type
  simp only [push, get?, size, Array.getElem?_push, TypeId.mk.injEq]

theorem byName?_push_struct (h : table.byName? name = none) (other : Name) :
    (table.push (.struct name none)).2.byName? other =
      if other = name then some ⟨table.size⟩ else table.byName? other := by
  rw [byName?, find?_push, ← byName?]
  by_cases hother : other = name
  · subst hother
    simp [h, TypeDef.name?]
  · simp [hother, TypeDef.name?, Ne.symm hother]

/-- A refused construction is no struct with a new name, or it leaves the table as it was. -/
theorem construct_eq_of_refused (h : table.refusal? construction = some e)
    (hold : ∀ name members, construction = .struct name members → table.byName? name ≠ none) :
    table.construct construction = table := by
  cases construction with
  | list element => cases h
  | enum name values =>
    rw [refusal?] at h
    rw [construct]
    cases henum : table.enum name values with
    | ok result => rw [henum] at h; cases h
    | error e => rfl
  | declare name =>
    rw [refusal?] at h
    rw [construct]
    cases hdeclare : table.declare name with
    | ok result => rw [hdeclare] at h; cases h
    | error e => rfl
  | define type members =>
    rw [refusal?] at h
    rw [construct]
    cases hdefine : table.define type members with
    | ok result => rw [hdefine] at h; cases h
    | error e => rfl
  | struct name members =>
    obtain ⟨type, htaken⟩ := Option.ne_none_iff_exists'.1 (hold name members rfl)
    rw [construct, struct_of_taken htaken]

/-- A refused struct with a new name stays declared. -/
theorem construct_struct_of_refused (hnew : table.byName? name = none)
    (h : table.refusal? (.struct name members) = some e) :
    table.construct (.struct name members) = (table.push (.struct name none)).2 ∧
      ∃ member, repeatedName? [] members = some member ∧ e = .duplicateMember ⟨table.size⟩ member := by
  rw [refusal?_struct_of_new hnew] at h
  obtain ⟨member, hmember, rfl⟩ := Option.map_eq_some_iff.1 h
  refine ⟨?_, member, hmember, rfl⟩
  rw [construct, struct_of_new hnew, hmember]

/-- Defining the members of a struct that was declared completes it. -/
theorem construct_define_push (hnew : table.byName? name = none)
    (hmembers : repeatedName? [] members = none) :
    (table.push (.struct name none)).2.construct (.define ⟨table.size⟩ members) =
      table.construct (.struct name members) := by
  have hself : (table.push (.struct name none)).2.get? ⟨table.size⟩ = some (.struct name none) :=
    get?_push_self table _
  rw [construct, construct, struct_of_new hnew, define, hmembers]
  simp only [hself]

/-- A refused construction leaves the table as it was, unless it is a struct with a new name. Then a
member was named twice, and the struct stays behind as if it had only been declared. Its name is taken,
so it is refused ever after, however its members are corrected; defining corrected members of the struct
that stayed leads to the table that the corrected construction would have led to. -/
theorem refused_construction (h : table.refusal? construction = some e) :
    (table.construct construction = table ↔
      ∀ name members, construction = .struct name members → table.byName? name ≠ none) ∧
    ∀ name members, construction = .struct name members → table.byName? name = none →
      (∃ member, repeatedName? [] members = some member ∧
        e = .duplicateMember ⟨table.size⟩ member) ∧
      let left := table.construct construction
      left = table.construct (.declare name) ∧ left.size = table.size + 1 ∧
        (∀ type, left.get? type =
          if type = ⟨table.size⟩ then some (.struct name none) else table.get? type) ∧
        (∀ other, left.byName? other =
          if other = name then some ⟨table.size⟩ else table.byName? other) ∧
        ∀ corrected, left.refusal? (.struct name corrected) = some (.duplicateType name) ∧
          (repeatedName? [] corrected = none →
            table.refusal? (.struct name corrected) = none ∧
              left.construct (.define ⟨table.size⟩ corrected) =
                table.construct (.struct name corrected)) := by
  refine ⟨⟨?_, construct_eq_of_refused h⟩, ?_⟩
  · rintro hsame name members rfl hnew
    rw [(construct_struct_of_refused hnew h).1] at hsame
    exact push_ne table _ hsame
  · rintro name members rfl hnew
    obtain ⟨hleft, hmember⟩ := construct_struct_of_refused hnew h
    have hfound : (table.push (.struct name none)).2.byName? name = some ⟨table.size⟩ := by
      rw [byName?_push_struct hnew, if_pos rfl]
    refine ⟨hmember, ?_⟩
    rw [hleft]
    refine ⟨(construct_declare_of_new hnew).symm, size_push table _, get?_push table _,
      byName?_push_struct hnew, fun corrected => ⟨refusal?_struct_of_taken hfound corrected, ?_⟩⟩
    intro hcorrected
    refine ⟨?_, construct_define_push hnew hcorrected⟩
    rw [refusal?_struct_of_new hnew, hcorrected]
    rfl

/-- A struct with a member that is named twice, and then with the member named once. -/
theorem refused_construction_sample :
    let construction : Construction := .struct ⟨5⟩ [⟨⟨6⟩, ⟨3⟩⟩, ⟨⟨6⟩, ⟨3⟩⟩]
    let left := initial.construct construction
    initial.refusal? construction = some (.duplicateMember ⟨5⟩ ⟨6⟩) ∧ left ≠ initial ∧
      left.size = 6 ∧ left.byName? ⟨5⟩ = some ⟨5⟩ ∧
      left.refusal? (.struct ⟨5⟩ [⟨⟨6⟩, ⟨3⟩⟩]) = some (.duplicateType ⟨5⟩) ∧
      initial.refusal? (.struct ⟨5⟩ [⟨⟨6⟩, ⟨3⟩⟩]) = none := by
  intro construction left
  have hrefused : initial.refusal? construction = some (.duplicateMember ⟨5⟩ ⟨6⟩) := by
    decide +kernel
  have hnew : initial.byName? ⟨5⟩ = none := by decide +kernel
  obtain ⟨hsame, hstruct⟩ := refused_construction hrefused
  obtain ⟨-, -, hsize, -, hname, hretry⟩ := hstruct _ _ rfl hnew
  obtain ⟨hagain, hbefore⟩ := hretry [⟨⟨6⟩, ⟨3⟩⟩]
  exact ⟨hrefused, fun h => hsame.1 h _ _ rfl hnew, hsize, hname ⟨5⟩, hagain, (hbefore rfl).1⟩

end InputDetail.TypeTable
