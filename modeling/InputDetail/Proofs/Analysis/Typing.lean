import InputDetail.Proofs.Analysis.Execution
import InputDetail.Proofs.Types.Members

/-!
# Types of documented members

The type of a member follows from the type of its parameter and the path to it. As long as all nodes
hold these types, planning finds the members that it finds before anything is recorded, whatever was
recorded in between.
-/
namespace InputDetail

/-- The type at the end of a path below a value of type `current`. -/
def TypeTable.along (types : TypeTable) : TypeId → List Name → Option TypeId
  | current, [] => some current
  | current, name :: rest => match types.resolve current name with
    | .error _ => none
    | .ok type => types.along type rest

theorem TypeTable.along_concat (types : TypeTable) (current : TypeId) (path : List Name)
    (name : Name) : types.along current (path ++ [name]) =
      (types.along current path).bind fun type => (types.resolve type name).toOption := by
  induction path generalizing current with
  | nil =>
    simp only [List.nil_append, along, Option.bind_some]
    cases types.resolve current name <;> rfl
  | cons first rest ih =>
    simp only [List.cons_append, along]
    cases types.resolve current first with
    | error e => rfl
    | ok type => exact ih type

namespace Analysis

open Parameter

variable {model : Model} {store : ExprStore} {base parameters after : List Parameter}

/-- The type of a path of the parameter at position `owner`, from its type alone. -/
def staticType (types : TypeTable) (base : List Parameter) (owner : Nat) (path : List Name) :
    Option TypeId :=
  base[owner]?.bind fun parameter => types.along parameter.type path

theorem typeFrom_empty (types : TypeTable) (position : Option (Option NodeId)) (current : TypeId)
    (path : List Name) :
    Forest.empty.typeFrom types position current path = types.along current path := by
  induction path generalizing position current with
  | nil => rfl
  | cons name rest ih =>
    have hnode : position.bind (Forest.empty.child? · name) = none := by
      cases position <;> rfl
    simp only [Forest.typeFrom, TypeTable.along, hnode, memberType, Option.bind_none]
    cases types.resolve current name with
    | error e => rfl
    | ok type => exact ih _ type

/-- In a forest whose nodes have the types that follow from the type at the top, planning finds
what it finds in the empty forest. -/
theorem resolveMembers_eq {types : TypeTable} {forest : Forest} {root : TypeId}
    (htyped : ∀ {path id node}, forest.find? path = some id → forest.node? id = some node →
      ∃ type, node.type = some type ∧ types.along root path = some type)
    {path : List Name} {current : TypeId} (hcurrent : types.along root path = some current)
    (name : Name) (rest : List Name) (position : Option (Option NodeId)) :
    resolveMembers types forest (forest.seek path) current name rest =
      resolveMembers types .empty position current name rest := by
  have hmember : ∀ {path current}, types.along root path = some current → ∀ name,
      memberType types forest ((forest.seek path).bind (forest.child? · name)) current name =
        types.resolve current name := by
    intro path current hcurrent name
    rw [← Forest.find?_concat]
    cases hfind : forest.find? (path ++ [name]) with
    | none => rfl
    | some id =>
      obtain ⟨node, hnode, -⟩ := Forest.node?_of_find? hfind
      obtain ⟨type, htype, halong⟩ := htyped hfind hnode
      rw [TypeTable.along_concat, hcurrent, Option.bind_some] at halong
      simp only [memberType, Option.bind_some, hnode, htype]
      cases hresolve : types.resolve current name with
      | error e =>
        rw [hresolve] at halong
        cases halong
      | ok found =>
        rw [hresolve] at halong
        exact congrArg Except.ok (Option.some.inj halong).symm
  have hempty : ∀ (position : Option (Option NodeId)) current name, memberType types .empty
      (position.bind (Forest.empty.child? · name)) current name = types.resolve current name := by
    intro position current name
    cases position <;> rfl
  induction rest generalizing path current name position with
  | nil =>
    rw [resolveMembers_nil, resolveMembers_nil, hmember hcurrent, hempty]
  | cons next rest ih =>
    rw [resolveMembers_cons, resolveMembers_cons, hmember hcurrent, hempty]
    cases hresolve : types.resolve current name with
    | error e => rfl
    | ok type =>
      have halong : types.along root (path ++ [name]) = some type := by
        rw [TypeTable.along_concat, hcurrent, Option.bind_some, hresolve]
        rfl
      simp only [← Forest.seek_concat]
      rw [ih halong]

/-- What analyses never change of a parameter. -/
def bare (parameter : Parameter) : Parameter := .new parameter.name parameter.type parameter.direction

/-- The parameters are those of `base`, and all members that a path leads to have the types that
follow from their paths. -/
structure Typed (types : TypeTable) (base parameters : List Parameter) : Prop where
  bare : parameters.map bare = base.map bare
  node : ∀ {owner path id node}, found? parameters owner path = some id →
    nodeAt? parameters owner id = some node →
    ∃ type, node.type = some type ∧ staticType types base owner path = some type

/-- Nothing is found before anything is recorded. -/
theorem found?_of_empty (hempty : ∀ parameter ∈ base, parameter.forest = .empty) (owner : Nat)
    (path : List Name) : found? base owner path = none := by
  rw [found?]
  cases hparam : base[owner]? with
  | none => rfl
  | some parameter =>
    rw [Option.bind_some, hempty parameter (List.mem_of_getElem? hparam)]
    cases path <;> rfl

/-- There are no nodes before anything is recorded. -/
theorem nodeAt?_of_empty (hempty : ∀ parameter ∈ base, parameter.forest = .empty) (owner : Nat)
    (id : NodeId) : nodeAt? base owner id = none := by
  rw [nodeAt?]
  cases hparam : base[owner]? with
  | none => rfl
  | some parameter =>
    rw [Option.bind_some, hempty parameter (List.mem_of_getElem? hparam)]
    rfl

theorem typed_of_empty (hempty : ∀ parameter ∈ base, parameter.forest = .empty) (types : TypeTable) :
    Typed types base base where
  bare := rfl
  node hfind := by simp [found?_of_empty hempty] at hfind

theorem names_of_bare {parameters parameters' : List Parameter}
    (h : parameters'.map bare = parameters.map bare) :
    parameters'.map (·.name) = parameters.map (·.name) := by
  have hname := congrArg (List.map (·.name)) h
  simp only [List.map_map] at hname
  exact hname

theorem getElem?_of_bare {parameters parameters' : List Parameter}
    (h : parameters'.map bare = parameters.map bare) {owner : Nat} {parameter : Parameter}
    (hparam : parameters[owner]? = some parameter) :
    ∃ parameter', parameters'[owner]? = some parameter' ∧ parameter'.name = parameter.name ∧
      parameter'.type = parameter.type := by
  have hget := congrArg (·[owner]?) h
  simp only [List.getElem?_map, hparam, Option.map_some] at hget
  obtain ⟨parameter', hparam', hsame⟩ := Option.map_eq_some_iff.1 hget
  exact ⟨parameter', hparam', congrArg (·.name) hsame, congrArg (·.type) hsame⟩

theorem locate_of_bare {parameters parameters' : List Parameter}
    (h : parameters'.map bare = parameters.map bare) {name : Name} {owner : Nat}
    {parameter : Parameter} (hlocate : locate? parameters name = some (owner, parameter)) :
    ∃ parameter', locate? parameters' name = some (owner, parameter') ∧
      parameter'.type = parameter.type := by
  obtain ⟨parameter', hlocate'⟩ := locate?_isSome_of_names (names_of_bare h) hlocate
  obtain ⟨known, hknown, -, htype⟩ := getElem?_of_bare h (getElem?_of_locate? hlocate).1
  rw [(getElem?_of_locate? hlocate').1] at hknown
  cases hknown
  exact ⟨parameter', hlocate', htype⟩

/-- Every path that a sound change goes down has the types that `types` tells. -/
theorem Change.Sound.along {types : Nat → List Name → Option TypeId} {change : Change}
    (h : change.Sound types parameters) : ∀ plan ∈ change.recorded, plan.Along types parameters := by
  intro plan hplan
  cases change with
  | flag owner status => cases hplan
  | record plan' =>
    obtain rfl := List.mem_singleton.1 hplan
    exact h
  | link primary secondary =>
    obtain ⟨hprimary, hsecondary, -⟩ := h
    simp only [Change.recorded, List.mem_cons, List.not_mem_nil, or_false] at hplan
    obtain rfl | rfl := hplan
    · exact hprimary
    · exact hsecondary
  | relink primary secondary linked =>
    obtain rfl := List.mem_singleton.1 hplan
    exact h.1

/-- A sound change documents nothing at or below the path that it excludes. -/
theorem Change.Sound.not_heads {types : Nat → List Name → Option TypeId} {change : Change}
    (h : change.Sound types parameters) {primary secondary : MemberPlan}
    (hprimary : primary ∈ change.primary?) (hsecondary : secondary ∈ change.excluded?) :
    ¬ secondary.Heads primary.owner primary.path := by
  cases change with
  | flag owner status => cases hprimary
  | record plan => cases hsecondary
  | link primary' secondary' =>
    cases hprimary
    cases hsecondary
    exact h.2.2
  | relink primary' secondary' linked => cases hsecondary

theorem bare_of_effect {types : Nat → List Name → Option TypeId} {change : Change}
    (heffect : Effect types change parameters after) : after.map bare = parameters.map bare := by
  have hbare := congrArg (List.map bare) heffect.blank
  simp only [List.map_map] at hbare
  refine Eq.trans hbare ?_
  cases change with
  | flag owner status =>
    apply List.ext_getElem?
    intro index
    simp only [Change.flags, List.getElem?_map, List.getElem?_modify]
    cases parameters[index]? with
    | none => rfl
    | some parameter => split_ifs <;> rfl
  | record plan => rfl
  | link primary secondary => rfl
  | relink primary secondary linked => rfl

/-- What becomes of the status of a whole parameter. -/
theorem flag_of_effect {types : Nat → List Name → Option TypeId} {change : Change}
    (heffect : Effect types change parameters after) (owner : Nat) :
    (∃ status, change = .flag owner status ∧
      after[owner]?.map Parameter.status = parameters[owner]?.map fun _ => status) ∨
    (∀ status, change ≠ .flag owner status) ∧
      after[owner]?.map Parameter.status = parameters[owner]?.map Parameter.status := by
  have hget := congrArg (·[owner]?.map (·.status)) heffect.blank
  simp only [List.getElem?_map, Option.map_map] at hget
  change after[owner]?.map (·.status) = (change.flags parameters)[owner]?.map (·.status) at hget
  by_cases hflag : ∃ status, change = .flag owner status
  · obtain ⟨status, rfl⟩ := hflag
    refine Or.inl ⟨status, rfl, hget.trans ?_⟩
    simp only [Change.flags, List.getElem?_modify_eq, Option.map_eq_map, Option.map_map]
    rfl
  · refine Or.inr ⟨fun status heq => hflag ⟨status, heq⟩, hget.trans ?_⟩
    cases change with
    | flag other status =>
      have hother : other ≠ owner := fun heq => hflag ⟨status, heq ▸ rfl⟩
      simp only [Change.flags, List.getElem?_modify_ne _ _ hother]
    | record plan => rfl
    | link primary secondary => rfl
    | relink primary secondary linked => rfl

namespace Typed

/-- A parameter with members is not simple. -/
theorem isSimple_eq_false {types : TypeTable} (h : Typed types base parameters) {owner : Nat}
    {path : List Name} {id : NodeId} {parameter : Parameter}
    (hfind : found? parameters owner path = some id) (hparam : parameters[owner]? = some parameter) :
    types.isSimple parameter.type = false := by
  obtain ⟨node, hnode, -⟩ := nodeAt?_of_found? hfind
  obtain ⟨type, -, hstatic⟩ := h.node hfind hnode
  obtain ⟨original, horiginal, -, htype⟩ := getElem?_of_bare h.bare.symm hparam
  rw [staticType, horiginal, Option.bind_some, htype] at hstatic
  obtain _ | ⟨name, rest⟩ := path
  · rw [found?_eq hparam] at hfind
    cases hfind
  · rw [TypeTable.along] at hstatic
    cases hresolve : types.resolve parameter.type name with
    | error e =>
      rw [hresolve] at hstatic
      cases hstatic
    | ok member => exact TypeTable.isSimple_eq_false hresolve

section

variable (h : Typed model.types base parameters)
include h

/-- Members resolve as they do where nothing is recorded. -/
theorem resolveMembers_eq {owner : Nat} {parameter original : Parameter}
    (hparam : parameters[owner]? = some parameter) (hbase : base[owner]? = some original)
    (name : Name) (rest : List Name) :
    resolveMembers model.types parameter.forest (some none) original.type name rest =
      resolveMembers model.types .empty (some none) original.type name rest := by
  rw [← Forest.seek_nil parameter.forest]
  refine Analysis.resolveMembers_eq (fun {path id node} hfind hnode => ?_) rfl name rest (some none)
  obtain ⟨type, hknown, hstatic⟩ := h.node (by rw [found?_eq hparam, hfind])
    (by rw [nodeAt?_eq hparam, hnode])
  rw [staticType, hbase, Option.bind_some] at hstatic
  exact ⟨type, hknown, hstatic⟩

theorem fits : Fits (staticType model.types base) parameters := by
  intro owner parameter hparam path id node known expected hfind hnode hknown hexpected
  obtain ⟨type, htype, hstatic⟩ := h.node (by rw [found?_eq hparam, hfind])
    (by rw [nodeAt?_eq hparam, hnode])
  rw [hknown] at htype
  rw [hexpected] at hstatic
  exact Option.some.inj (htype.trans hstatic.symm)

/-- Planned members have the types that follow from their paths. -/
theorem along {status : Status} {id : ExprId} {plan : MemberPlan}
    (hplan : planPath model store parameters status id = .ok (.members plan)) :
    plan.Along (staticType model.types base) parameters := by
  obtain ⟨path, owner, parameter, -, hlocate, ⟨-, -, heq⟩ |
    ⟨name, rest, first, later, -, hresolve, -, heq⟩⟩ := planPath_cases hplan
  · cases heq
  · cases heq
    obtain ⟨hparam, -⟩ := getElem?_of_locate? hlocate
    obtain ⟨original, hbase, -, htype⟩ := getElem?_of_bare h.bare.symm hparam
    rw [← htype, h.resolveMembers_eq hparam hbase] at hresolve
    obtain ⟨-, -, halong⟩ := resolveMembers_along hresolve
    refine ⟨(List.getElem?_eq_some_iff.1 hparam).1, ?_⟩
    have hstatic : staticType model.types base owner =
        Forest.empty.typeFrom model.types (some none) original.type := by
      funext path
      rw [staticType, hbase, Option.bind_some, typeFrom_empty]
    rw [hstatic]
    exact halong

theorem sound {id : ExprId} {change : Change}
    (hplan : planStatement model store parameters id = .ok change) :
    change.Sound (staticType model.types base) parameters :=
  sound_of_planStatement h.along hplan

/-- A statement that is in order is recorded with the types that follow from its paths. -/
theorem analyzeStatement_spec (hwf : WellFormed parameters) {id : ExprId} {change : Change}
    (hplan : planStatement model store parameters id = .ok change) :
    ∃ after, analyzeStatement model store id parameters = .ok () after ∧
      Effect (staticType model.types base) change parameters after :=
  analyzeStatement_of_sound hwf h.fits hplan (h.sound hplan)

/-- A path is planned as it is where nothing is recorded, unless a status stands in the way. -/
theorem planPath_eq (hempty : ∀ parameter ∈ base, parameter.forest = .empty) {status : Status}
    {id : ExprId}
    (hclear : model.policy = .reject → ∀ {path owner parameter}, pathAt store id = .ok path →
      locate? parameters path.parameter = some (owner, parameter) →
      statusAt parameter.forest path.members = none) :
    planPath model store parameters status id = planPath model store base status id := by
  unfold planPath
  cases exprAt store id with
  | error halt => rfl
  | ok expr =>
  cases hpath : pathAt store id with
  | error halt => rfl
  | ok path =>
  simp only [bind, Except.bind]
  cases hlocate : locate? base path.parameter with
  | none =>
    cases hlocate' : locate? parameters path.parameter with
    | none => rfl
    | some located =>
      obtain ⟨_, hsome, -⟩ := locate_of_bare h.bare.symm hlocate'
      rw [hlocate] at hsome
      cases hsome
  | some located =>
    obtain ⟨owner, original⟩ := located
    obtain ⟨parameter, hlocate', htype⟩ := locate_of_bare h.bare hlocate
    obtain ⟨hbase, -⟩ := getElem?_of_locate? hlocate
    obtain ⟨hparam, -⟩ := getElem?_of_locate? hlocate'
    have horiginal : original.forest = .empty := hempty original (List.mem_of_getElem? hbase)
    have hstatus : statusAt .empty path.members = none := by
      rw [← horiginal, statusAt, ← found?_eq hbase, found?_of_empty hempty]
      rfl
    simp only [hlocate', htype]
    cases hmembers : path.members with
    | nil => rfl
    | cons name rest =>
      simp only [h.resolveMembers_eq hparam hbase, horiginal]
      by_cases hpolicy : model.policy = .reject
      · have hclear' := hclear hpolicy hpath hlocate'
        rw [hmembers] at hclear' hstatus
        rw [hclear', hstatus]
      · simp only [hpolicy, false_and]

end

/-- The types stay what they are when a change is carried out. -/
theorem of_effect {types : TypeTable} {change : Change} (h : Typed types base parameters)
    (hsound : change.Sound (staticType types base) parameters)
    (heffect : Effect (staticType types base) change parameters after) : Typed types base after where
  bare := (bare_of_effect heffect).trans h.bare
  node {owner path id node} hfind hnode := by
    obtain ⟨old, node', horigin, hnode', hmarks⟩ := heffect.found hfind
    rw [hnode] at hnode'
    cases hnode'
    by_cases hway : ∃ plan ∈ change.recorded, plan.Passes owner path
    · obtain ⟨plan, hplan, hway⟩ := hway
      obtain ⟨type, htype⟩ := Option.isSome_iff_exists.1 ((hsound.along plan hplan).isSome hway)
      exact ⟨type, by rw [hmarks.type_on plan hplan hway, htype], htype⟩
    · have hoff : ∀ plan ∈ change.recorded, ¬ plan.Passes owner path :=
        fun plan hplan hpasses => hway ⟨plan, hplan, hpasses⟩
      rw [hmarks.type_off hoff]
      obtain ⟨hfind', hnode'⟩ | ⟨hnone, -⟩ := horigin
      · exact h.node hfind' hnode'
      · obtain ⟨hold | hplan, -⟩ := heffect.isSome_iff.1 (Option.isSome_iff_exists.2 ⟨id, hfind⟩)
        · rw [hnone] at hold
          cases hold
        · exact absurd hplan hway

end Typed

end Analysis

end InputDetail
