import InputDetail.Proofs.Types.Acyclic
import InputDetail.Proofs.Types.Consistency

/-!
# Written lists

Writing a list goes on with its element, until a type comes that is no list. If every list was made of a
type that the table held by then, elements have smaller numbers than their lists, so such a type comes.
It is written, and then brackets for every list on the way. So lists are written alike if and only if
their elements are.
-/
namespace InputDetail.TypeTable

variable {types : TypeTable} {names : NameTable} {type base list element : TypeId} {depth : Nat}

/-- A list is made of a type that the table holds. -/
def Admits (types : TypeTable) : Construction → Prop
  | .list element => element.index < types.size
  | _ => True

/-- Every list is made of a type that the table holds by then. -/
def AdmitsAll (types : TypeTable) : List Construction → Prop
  | [] => True
  | construction :: history =>
    types.Admits construction ∧ (types.construct construction).AdmitsAll history

instance (types : TypeTable) : DecidablePred types.Admits
  | .list element => inferInstanceAs (Decidable (element.index < types.size))
  | .enum _ _ | .declare _ | .define _ _ | .struct _ _ => isTrue trivial

instance decidableAdmitsAll : (types : TypeTable) → DecidablePred types.AdmitsAll
  | _, [] => isTrue trivial
  | types, construction :: history =>
    have := decidableAdmitsAll (types.construct construction) history
    inferInstanceAs (Decidable
      (types.Admits construction ∧ (types.construct construction).AdmitsAll history))

theorem Grounded.construct (h : types.Grounded) {construction : Construction}
    (hadmits : types.Admits construction) : (types.construct construction).Grounded := by
  cases construction with
  | list element => exact h.list hadmits
  | enum name values =>
    simp only [TypeTable.construct]
    cases henum : types.enum name values with
    | error e => exact h
    | ok result => exact h.enum henum
  | declare name =>
    simp only [TypeTable.construct]
    cases hdeclare : types.declare name with
    | error e => exact h
    | ok result => exact h.declare hdeclare
  | define type members =>
    simp only [TypeTable.construct]
    cases hdefine : types.define type members with
    | error e => exact h
    | ok defined => exact h.define hdefine
  | struct name members =>
    simp only [TypeTable.construct, struct]
    cases hdeclare : types.declare name with
    | error e => exact h
    | ok declared =>
      have hdeclared : declared.2.Grounded := h.declare hdeclare
      cases hdefine : declared.2.define declared.1 members with
      | error e => simpa [hdefine] using hdeclared
      | ok defined => simpa [hdefine] using hdeclared.define hdefine

theorem Grounded.constructAll {history : List Construction} (h : types.Grounded)
    (hadmits : types.AdmitsAll history) : (types.constructAll history).Grounded := by
  induction history generalizing types with
  | nil => exact h
  | cons construction history ih => exact ih (h.construct hadmits.1) hadmits.2

/-- Following list elements `depth` times leads from `type` to `base`, which is no list. -/
inductive Innermost (types : TypeTable) : TypeId → Nat → TypeId → Prop
  | plain {type : TypeId} (plain : ∀ element, ¬ types.Element type element) :
    types.Innermost type 0 type
  | list {type element base : TypeId} {depth : Nat} (outer : types.Element type element)
    (inside : types.Innermost element depth base) : types.Innermost type (depth + 1) base

/-- What is written for a type that is no list. -/
def plainText? (types : TypeTable) (names : NameTable) (type : TypeId) : Option String :=
  match types.get? type with
  | none => some "<unknown>"
  | some (.primitive kind) => some kind.word
  | some definition => definition.name?.bind names.text?

/-- The brackets of so many lists. -/
def brackets : Nat → String
  | 0 => ""
  | depth + 1 => brackets depth ++ "[]"

theorem Grounded.exists_innermost (h : types.Grounded) (type : TypeId) :
    ∃ depth base, types.Innermost type depth base := by
  obtain ⟨index⟩ := type
  induction index using Nat.strongRecOn with
  | ind index ih =>
    by_cases hlist : ∃ element, types.Element ⟨index⟩ element
    · obtain ⟨⟨older⟩, helement⟩ := hlist
      obtain ⟨depth, base, hinside⟩ := ih older (h helement)
      exact ⟨depth + 1, base, .list helement hinside⟩
    · exact ⟨0, ⟨index⟩, .plain (not_exists.1 hlist)⟩

/-- Each list on the way has another number, below that of the type. -/
theorem Innermost.le_index (h : types.Innermost type depth base) (hgrounded : types.Grounded) :
    depth ≤ type.index := by
  induction h with
  | plain _ => exact Nat.zero_le _
  | list outer inside ih => exact Nat.succ_le_of_lt (Nat.lt_of_le_of_lt ih (hgrounded outer))

theorem Innermost.le_size (h : types.Innermost type depth base) (hgrounded : types.Grounded) :
    depth ≤ types.size := by
  have hle := h.le_index hgrounded
  cases h with
  | plain _ => exact Nat.zero_le _
  | list outer inside =>
    have hlt : type.index < types.size := (Array.getElem?_eq_some_iff.1 outer).1
    omega

/-- A step for each list and one more are enough. -/
theorem Innermost.writeWithin_eq (h : types.Innermost type depth base) (names : NameTable) {fuel : Nat}
    (hfuel : depth < fuel) : types.writeWithin names fuel type =
      (types.plainText? names base).map (· ++ brackets depth) := by
  obtain ⟨fuel, rfl⟩ : ∃ left, fuel = left + 1 := ⟨fuel - 1, by omega⟩
  induction h generalizing fuel with
  | @plain type plain =>
    rw [writeWithin, plainText?]
    cases hget : types.get? type with
    | none => rfl
    | some definition =>
      cases definition with
      | list element => exact absurd hget (plain element)
      | primitive kind => simp [brackets]
      | enum name values => simp [brackets, TypeDef.name?]
      | struct name members => simp [brackets, TypeDef.name?]
  | list outer inside ih =>
    obtain ⟨fuel, rfl⟩ : ∃ left, fuel = left + 1 := ⟨fuel - 1, by omega⟩
    rw [writeWithin, outer]
    simp only [ih fuel (Nat.lt_of_succ_lt_succ hfuel), Option.map_map]
    congr 1
    funext text
    exact String.append_assoc

theorem Innermost.write?_eq (h : types.Innermost type depth base) (hgrounded : types.Grounded)
    (names : NameTable) :
    types.write? names type = (types.plainText? names base).map (· ++ brackets depth) :=
  h.writeWithin_eq names (Nat.lt_succ_of_le (h.le_size hgrounded))

/-- A list is written as its element with brackets. -/
theorem Grounded.write?_of_element (h : types.Grounded) (names : NameTable)
    (helement : types.Element list element) :
    types.write? names list = (types.write? names element).map (· ++ "[]") := by
  obtain ⟨depth, base, hinside⟩ := h.exists_innermost element
  rw [hinside.write?_eq h, (Innermost.list helement hinside).write?_eq h, Option.map_map]
  congr 1
  funext text
  exact String.append_assoc.symm

theorem Innermost.plainText?_isSome (h : types.Innermost type depth base)
    (hnamed : ∀ type definition, types.get? type = some definition →
      ∀ name ∈ definition.name?, (names.text? name).isSome) :
    (types.plainText? names base).isSome := by
  induction h with
  | list outer inside ih => exact ih
  | @plain type plain =>
    rw [plainText?]
    cases hget : types.get? type with
    | none => rfl
    | some definition =>
      cases definition with
      | list element => exact absurd hget (plain element)
      | primitive kind => rfl
      | enum name values => exact hnamed type _ hget name rfl
      | struct name members => exact hnamed type _ hget name rfl

/-- If every list was made of a type that was there, and the names of the types are known, then every
type is written, as the first type that is no list among its elements, their elements and so on, with
brackets for each list before it. This takes a step for each of these lists and one more, and a larger
bound on the steps changes nothing. Two lists are written alike if and only if their elements are. -/
theorem write?_constructAll {history : List Construction} {names : NameTable}
    (hadmits : initial.AdmitsAll history)
    (hnamed : ∀ type definition, (initial.constructAll history).get? type = some definition →
      ∀ name ∈ definition.name?, (names.text? name).isSome) :
    let types := initial.constructAll history
    (∀ type, ∃ depth base text, types.Innermost type depth base ∧
      types.plainText? names base = some text ∧
      types.write? names type = some (text ++ brackets depth) ∧
      ∀ fuel, depth < fuel → types.writeWithin names fuel type = some (text ++ brackets depth)) ∧
    ∀ list element list' element', types.get? list = some (.list element) →
      types.get? list' = some (.list element') →
        (types.write? names list = types.write? names list' ↔
          types.write? names element = types.write? names element') := by
  intro types
  have hgrounded : types.Grounded := grounded_initial.constructAll hadmits
  constructor
  · intro type
    obtain ⟨depth, base, hinnermost⟩ := hgrounded.exists_innermost type
    obtain ⟨text, htext⟩ := Option.isSome_iff_exists.1 (hinnermost.plainText?_isSome hnamed)
    refine ⟨depth, base, text, hinnermost, htext, ?_, fun fuel hfuel => ?_⟩
    · rw [hinnermost.write?_eq hgrounded, htext]
      rfl
    · rw [hinnermost.writeWithin_eq names hfuel, htext]
      rfl
  · intro list element list' element' helement helement'
    have hinjective : Function.Injective fun text : String => text ++ "[]" :=
      fun _ _ => (String.append_left_inj "[]").1
    rw [hgrounded.write?_of_element names helement, hgrounded.write?_of_element names helement']
    exact (Option.map_injective hinjective).eq_iff

/-- A struct is declared, lists are made, the struct gets a list of itself as a member, an enum of the
same name is refused, and one of the lists is made again. -/
theorem write?_constructAll_sample :
    let history : List Construction := [.declare ⟨5⟩, .list ⟨5⟩, .define ⟨5⟩ [⟨⟨6⟩, ⟨6⟩⟩], .enum ⟨5⟩ [],
      .list ⟨6⟩, .list ⟨5⟩, .list ⟨1⟩]
    let names := (NameTable.initial.internWords "HostNic").2
    let types := initial.constructAll history
    (initial.AdmitsAll history ∧ ∀ type definition, types.get? type = some definition →
      ∀ name ∈ definition.name?, (names.text? name).isSome) ∧
    (∃ depth base text, types.Innermost ⟨7⟩ depth base ∧ types.plainText? names base = some text ∧
      text ++ brackets depth = "host_nic[][]") ∧
    types.write? names ⟨7⟩ ≠ types.write? names ⟨8⟩ := by
  intro history names types
  have hadmits : initial.AdmitsAll history := by decide +kernel
  have hnamed : ∀ type definition, types.get? type = some definition →
      ∀ name ∈ definition.name?, (names.text? name).isSome := by
    have hall : types.defs.all fun definition =>
        definition.name?.all fun name => (names.text? name).isSome := by decide +kernel
    intro type definition hget name hname
    have hdefinition := Array.all_eq_true_iff_forall_mem.1 hall _ (Array.mem_of_getElem? hget)
    simpa [Option.mem_def.1 hname] using hdefinition
  have hlist : types.write? names ⟨7⟩ = some "host_nic[][]" := by decide +kernel
  obtain ⟨hwritten, hlists⟩ := write?_constructAll hadmits hnamed
  obtain ⟨depth, base, text, hinnermost, htext, hwrite, -⟩ := hwritten ⟨7⟩
  refine ⟨⟨hadmits, hnamed⟩, ⟨depth, base, text, hinnermost, htext, ?_⟩, ?_⟩
  · exact Option.some.inj (hwrite.symm.trans hlist)
  · rw [Ne, hlists ⟨7⟩ ⟨6⟩ ⟨8⟩ ⟨1⟩ (by decide +kernel) (by decide +kernel)]
    decide +kernel

end InputDetail.TypeTable
