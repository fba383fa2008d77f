import InputDetail.Proofs.Analysis.LinkGraph
import InputDetail.Proofs.Outline.Render

/-!
# What is visible of parameters

The view of parameters leaves out the numbers of nodes and everything that no path leads to, except
what the links of the nodes tell of the nodes that they exclude. Planning reads nothing else. Only the
number of a node whose link is repeated enters a plan without being visible.
-/
namespace InputDetail

deriving instance DecidableEq for LinkSight, Sight

namespace Analysis

open Parameter Outline

/-- What is visible of one parameter. -/
structure ParameterView where
  name : Name
  type : TypeId
  status : Status
  sight? : List Name → Option Sight

def view (parameters : List Parameter) : List ParameterView :=
  parameters.map fun parameter =>
    ⟨parameter.name, parameter.type, parameter.status, sight? parameters parameter.forest⟩

/-- What is visible of a parameter as a whole. -/
def facts (parameter : Parameter) : Name × TypeId × Status :=
  (parameter.name, parameter.type, parameter.status)

/-- The same parameters, and the same is shown at every path. -/
structure SameView (parameters parameters' : List Parameter) : Prop where
  facts : parameters'.map facts = parameters.map facts
  shown : ∀ owner path, shown? parameters' owner path = shown? parameters owner path

variable {model : Model} {store : ExprStore} {parameters parameters' : List Parameter}
  {types : TypeTable} {owner : Nat} {parameter : Parameter}

/-- Parameters have the same view if the same is seen of them as wholes and at every path. -/
theorem sameView_iff : SameView parameters parameters' ↔ view parameters' = view parameters := by
  constructor
  · rintro ⟨hfacts, hshown⟩
    apply List.ext_getElem?
    intro owner
    have hget := congrArg (·[owner]?) hfacts
    simp only [view, List.getElem?_map] at hget ⊢
    cases hparam : parameters[owner]? with
    | none => simpa [hparam] using hget
    | some parameter =>
      rw [hparam, Option.map_some] at hget
      obtain ⟨parameter', hparam', hsame⟩ := Option.map_eq_some_iff.1 hget
      simp only [Analysis.facts, Prod.mk.injEq] at hsame
      have hsight : sight? parameters' parameter'.forest = sight? parameters parameter.forest := by
        funext path
        rw [← shown?_eq hparam', ← shown?_eq hparam, hshown]
      rw [hparam', Option.map_some, Option.map_some, hsame.1, hsame.2.1, hsame.2.2, hsight]
  · intro h
    constructor
    · have hfacts := congrArg (List.map fun seen : ParameterView => (seen.name, seen.type, seen.status)) h
      simp only [view, List.map_map] at hfacts
      exact hfacts
    · intro owner path
      have hget := congrArg (·[owner]?) h
      simp only [view, List.getElem?_map] at hget
      cases hparam : parameters[owner]? with
      | none =>
        rw [hparam, Option.map_none, Option.map_eq_none_iff] at hget
        simp [shown?, found?, hparam, hget]
      | some parameter =>
        rw [hparam, Option.map_some] at hget
        obtain ⟨parameter', hparam', hsame⟩ := Option.map_eq_some_iff.1 hget
        simp only [ParameterView.mk.injEq] at hsame
        rw [shown?_eq hparam', shown?_eq hparam, hsame.2.2.2]

theorem shown?_isSome {path : List Name} :
    (shown? parameters owner path).isSome ↔ (found? parameters owner path).isSome := by
  cases hparam : parameters[owner]? with
  | none => simp [shown?, found?, hparam]
  | some parameter => rw [shown?_eq hparam, found?_eq hparam, sight?_isSome]

/-- The paths of all nodes of the parameter at position `owner`. -/
def paths (parameters : List Parameter) (owner : Nat) : List (List Name) :=
  parameters[owner]?.elim [] fun parameter => parameter.forest.ids.filterMap parameter.forest.path?

theorem mem_paths_of_found? (hwf : WellFormed parameters) {path : List Name} {id : NodeId}
    (hfind : found? parameters owner path = some id) : path ∈ paths parameters owner := by
  obtain ⟨parameter, hparam, hid⟩ := Option.bind_eq_some_iff.1 hfind
  obtain ⟨node, hnode, -⟩ := Forest.node?_of_find? hid
  rw [paths, hparam, Option.elim_some, List.mem_filterMap]
  exact ⟨id, Forest.mem_ids.2 (Forest.node?_lt hnode), (hwf hparam).path?_of_find? hid⟩

/-- Views are compared at the paths of the nodes. -/
theorem sameView_of_paths (hwf : WellFormed parameters) (hwf' : WellFormed parameters')
    (hfacts : parameters'.map facts = parameters.map facts)
    (h : ∀ owner < parameters.length, ∀ path ∈ paths parameters owner ++ paths parameters' owner,
      shown? parameters' owner path = shown? parameters owner path) :
    SameView parameters parameters' := by
  refine ⟨hfacts, fun owner path => ?_⟩
  have hlength : parameters'.length = parameters.length := by simpa using congrArg List.length hfacts
  have hlt : ∀ {list : List Parameter} {id}, found? list owner path = some id → owner < list.length := by
    intro list id hfind
    obtain ⟨parameter, hparam, -⟩ := Option.bind_eq_some_iff.1 hfind
    exact (List.getElem?_eq_some_iff.1 hparam).1
  cases hfind : found? parameters owner path with
  | some id =>
    exact h owner (hlt hfind) path (List.mem_append_left _ (mem_paths_of_found? hwf hfind))
  | none =>
    cases hfind' : found? parameters' owner path with
    | some id =>
      have hmem := List.mem_append_right (paths parameters owner) (mem_paths_of_found? hwf' hfind')
      exact h owner (hlength ▸ hlt hfind') path hmem
    | none => simp only [shown?, hfind, hfind', Option.bind_none, Option.map_none]

/-- What is shown of a link that leads to a node. -/
theorem linkSight_eq {link : Link} {node : Node}
    (hposition : position? parameters link.parameter = some owner)
    (hnode : nodeAt? parameters owner link.node = some node) : linkSight parameters link =
      ⟨link.parameter, some (pathAt? parameters owner link.node, node.type, node.status)⟩ := by
  obtain ⟨parameter, hparam, hid⟩ := Option.bind_eq_some_iff.1 hnode
  rw [linkSight, byName?_eq, hposition, Option.bind_some, hparam, Option.bind_some, hid,
    pathAt?_eq hparam]
  rfl

namespace SameView

theorem symm (h : SameView parameters parameters') : SameView parameters' parameters :=
  ⟨h.facts.symm, fun owner path => (h.shown owner path).symm⟩

theorem names (h : SameView parameters parameters') :
    parameters'.map (·.name) = parameters.map (·.name) := by
  have hnames := congrArg (List.map Prod.fst) h.facts
  simp only [List.map_map] at hnames
  exact hnames

/-- At every position stands a parameter of which the same is seen. -/
theorem getElem? (h : SameView parameters parameters') (hparam : parameters[owner]? = some parameter) :
    ∃ parameter', parameters'[owner]? = some parameter' ∧ parameter'.name = parameter.name ∧
      parameter'.type = parameter.type ∧
      ∀ path, sight? parameters' parameter'.forest path = sight? parameters parameter.forest path := by
  have hget := congrArg (·[owner]?) h.facts
  simp only [List.getElem?_map, hparam, Option.map_some] at hget
  obtain ⟨parameter', hparam', hsame⟩ := Option.map_eq_some_iff.1 hget
  simp only [Analysis.facts, Prod.mk.injEq] at hsame
  refine ⟨parameter', hparam', hsame.1, hsame.2.1, fun path => ?_⟩
  rw [← shown?_eq hparam', ← shown?_eq hparam, h.shown]

theorem found?_isSome (h : SameView parameters parameters') (owner : Nat) (path : List Name) :
    (found? parameters' owner path).isSome ↔ (found? parameters owner path).isSome := by
  rw [← shown?_isSome, ← shown?_isSome, h.shown]

end SameView

section

variable {forest forest' : Forest}
  (hsight : ∀ path, sight? parameters' forest' path = sight? parameters forest path)

/-- The type of a member that a forest knows is visible. -/
theorem memberType_eq (parameters : List Parameter) (types : TypeTable) (forest : Forest)
    (path : List Name) (current : TypeId) (name : Name) :
    memberType types forest ((forest.seek path).bind (forest.child? · name)) current name =
      match (sight? parameters forest (path ++ [name])).bind (·.type) with
      | some type => .ok type
      | none => types.resolve current name := by
  rw [← Forest.find?_concat, memberType, sight?, Option.bind_map]
  rfl

include hsight

theorem memberType_congr (types : TypeTable) (path : List Name) (current : TypeId) (name : Name) :
    memberType types forest' ((forest'.seek path).bind (forest'.child? · name)) current name =
      memberType types forest ((forest.seek path).bind (forest.child? · name)) current name := by
  rw [memberType_eq parameters', memberType_eq parameters, hsight]

theorem resolveMembers_congr (types : TypeTable) (path : List Name) (current : TypeId) (name : Name)
    (rest : List Name) : resolveMembers types forest' (forest'.seek path) current name rest =
      resolveMembers types forest (forest.seek path) current name rest := by
  induction rest generalizing path current name with
  | nil => rw [resolveMembers_nil, resolveMembers_nil, memberType_congr hsight]
  | cons next rest ih =>
    rw [resolveMembers_cons, resolveMembers_cons, memberType_congr hsight]
    simp only [← Forest.seek_concat, ih]

theorem typeFrom_congr (types : TypeTable) (path : List Name) (current : TypeId) (rest : List Name) :
    forest'.typeFrom types (forest'.seek path) current rest =
      forest.typeFrom types (forest.seek path) current rest := by
  induction rest generalizing path current with
  | nil => rfl
  | cons name rest ih =>
    simp only [Forest.typeFrom, memberType_congr hsight, ← Forest.seek_concat, ih]

end

namespace SameView

theorem plannedType_eq (h : SameView parameters parameters') (types : TypeTable) :
    plannedType types parameters' = plannedType types parameters := by
  funext owner path
  cases hparam : parameters[owner]? with
  | none =>
    have hparam' : parameters'[owner]? = none := by
      have hget := congrArg (·[owner]?) h.facts
      simpa [hparam] using hget
    rw [plannedType, plannedType, hparam, hparam']
  | some parameter =>
    obtain ⟨parameter', hparam', -, htype, hsight⟩ := h.getElem? hparam
    rw [Analysis.plannedType_eq hparam, Analysis.plannedType_eq hparam', htype]
    exact typeFrom_congr hsight types [] parameter.type path

theorem locate (h : SameView parameters parameters') {name : Name}
    (hlocate : locate? parameters name = some (owner, parameter)) :
    ∃ parameter', locate? parameters' name = some (owner, parameter') ∧
      parameter'.type = parameter.type ∧
      ∀ path, sight? parameters' parameter'.forest path = sight? parameters parameter.forest path := by
  obtain ⟨parameter', hlocate'⟩ := locate?_isSome_of_names h.names hlocate
  obtain ⟨known, hknown, -, hsame⟩ := h.getElem? (getElem?_of_locate? hlocate).1
  rw [(getElem?_of_locate? hlocate').1] at hknown
  cases hknown
  exact ⟨parameter', hlocate', hsame⟩

/-- Paths are planned alike. -/
theorem planPath_eq (h : SameView parameters parameters') (model : Model) (store : ExprStore)
    (status : Status) (id : ExprId) :
    planPath model store parameters' status id = planPath model store parameters status id := by
  unfold planPath
  cases exprAt store id with
  | error halt => rfl
  | ok expr =>
  cases hpath : pathAt store id with
  | error halt => rfl
  | ok path =>
  simp only [bind, Except.bind]
  cases hlocate : locate? parameters path.parameter with
  | none =>
    cases hlocate' : locate? parameters' path.parameter with
    | none => rfl
    | some located =>
      obtain ⟨_, hsome, -⟩ := h.symm.locate hlocate'
      rw [hlocate] at hsome
      cases hsome
  | some located =>
    obtain ⟨owner, parameter⟩ := located
    obtain ⟨parameter', hlocate', htype, hsight⟩ := h.locate hlocate
    simp only [hlocate', htype]
    cases hmembers : path.members with
    | nil => rfl
    | cons name rest =>
      have hresolve := resolveMembers_congr hsight model.types [] parameter.type name rest
      have hstatus : statusAt parameter'.forest (name :: rest) =
          statusAt parameter.forest (name :: rest) := by
        have hseen := congrArg (Option.bind · Sight.status) (hsight (name :: rest))
        simp only [sight?, Option.bind_map] at hseen
        exact hseen
      rw [Forest.seek_nil, Forest.seek_nil] at hresolve
      simp only [hresolve, hstatus]

theorem hasChildren_eq (h : SameView parameters parameters') (plan : MemberPlan) :
    hasChildren parameters' plan = hasChildren parameters plan := by
  refine Bool.eq_iff_iff.2 (not_iff_not.1 ?_)
  simp only [Bool.not_eq_true, hasChildren_eq_false_iff, ← Option.not_isSome_iff_eq_none,
    h.found?_isSome]

end SameView

/-- Whether a link is repeated is visible. -/
theorem linked?_isSome_iff (hsound : LinksSound parameters) {primary secondary : MemberPlan}
    {target : Parameter} (hparam : parameters[secondary.owner]? = some target)
    (hposition : position? parameters target.name = some secondary.owner) :
    (linked? parameters primary secondary).isSome ↔ ∃ sight type status,
      shown? parameters primary.owner primary.path = some sight ∧
        sight.link = some ⟨target.name, some (some secondary.path, type, status)⟩ := by
  rw [Option.isSome_iff_exists]
  simp only [linked?_eq_some]
  constructor
  · rintro ⟨linked, source, _, node, held, htarget, hfind, hnode, hlink, hheld, -, hpath⟩
    rw [hparam] at htarget
    cases htarget
    refine ⟨nodeSight parameters node, held.type, held.status, ?_, ?_⟩
    · rw [shown?, hfind, Option.bind_some, hnode, Option.map_some]
    · rw [nodeSight, hlink, Option.map_some, linkSight_eq hposition hheld, hpath]
  · rintro ⟨sight, type, status, hshown, hlink⟩
    obtain ⟨node, hsome, rfl⟩ := Option.map_eq_some_iff.1 hshown
    obtain ⟨source, hfind, hnode⟩ := Option.bind_eq_some_iff.1 hsome
    obtain ⟨⟨name, linked⟩, hsource, hsight⟩ := Option.map_eq_some_iff.1 hlink
    simp only [linkSight, LinkSight.mk.injEq] at hsight
    obtain ⟨rfl, hseen⟩ := hsight
    rw [byName?_eq, hposition, Option.bind_some, hparam, Option.bind_some] at hseen
    obtain ⟨held, hheld, hsame⟩ := Option.map_eq_some_iff.1 hseen
    rw [Prod.mk.injEq] at hsame
    rw [← nodeAt?_eq hparam] at hheld
    have hlinks : LinksTo parameters ⟨primary.owner, source⟩ ⟨secondary.owner, linked⟩ :=
      ⟨_, by rw [Place.link?, hnode, Option.bind_some, hsource], hposition, rfl⟩
    have hatt : held.attached = false := by
      simpa [Place.attached?, hheld] using hsound.detached hlinks
    exact ⟨linked, source, target, node, held, hparam, hfind, hnode, hsource, hheld, hatt,
      by rw [pathAt?_eq hparam, hsame.1]⟩

/-- The change without the number of the node whose link is repeated. -/
def Change.unnumbered : Change → Change
  | .relink primary secondary _ => .relink primary secondary ⟨0⟩
  | change => change

namespace SameView

variable (h : SameView parameters parameters') (hsound : LinksSound parameters)
  (hsound' : LinksSound parameters')
include h hsound hsound'

/-- Links are repeated alike. -/
theorem linked?_isSome (primary : MemberPlan) {status : Status} {id : ExprId} {secondary : MemberPlan}
    (hplan : planPath model store parameters status id = .ok (.members secondary)) :
    (linked? parameters' primary secondary).isSome ↔ (linked? parameters primary secondary).isSome := by
  obtain ⟨-, -, path, target, -, -, hlocate⟩ := planPath_members hplan
  obtain ⟨hparam, -⟩ := getElem?_of_locate? hlocate
  have hposition := position?_of_locate? hlocate
  obtain ⟨target', hparam', hname, -⟩ := h.getElem? hparam
  have hposition' : position? parameters' target'.name = some secondary.owner := by
    rw [position?_congr h.names, hname, hposition]
  rw [linked?_isSome_iff hsound hparam hposition, linked?_isSome_iff hsound' hparam' hposition',
    h.shown, hname]

/-- Statements are planned alike, up to the number of a node whose link is repeated. -/
theorem planStatement_eq (model : Model) (store : ExprStore) (id : ExprId) :
    (planStatement model store parameters' id).map Change.unnumbered =
      (planStatement model store parameters id).map Change.unnumbered := by
  unfold planStatement
  cases statementAt store id with
  | error halt => rfl
  | ok statement =>
  cases statement with
  | declaration status path =>
    simp only [bind, Except.bind, h.planPath_eq]
  | alternation span status first second =>
    simp only [bind, Except.bind, planAlternation, h.planPath_eq]
    cases planPath model store parameters status first with
    | error halt => rfl
    | ok primary =>
    cases hsecond : planPath model store parameters status second with
    | error halt => rfl
    | ok secondary =>
    cases primary with
    | flag owner status => rfl
    | members primary =>
    cases secondary with
    | flag owner status => rfl
    | members secondary =>
      have hlinked := h.linked?_isSome hsound hsound' primary hsecond
      simp only [alternationDefect?, h.hasChildren_eq]
      split
      · rfl
      · cases hold : linked? parameters primary secondary with
        | none =>
          have hnone : linked? parameters' primary secondary = none := by
            rw [← Option.not_isSome_iff_eq_none, hlinked, hold]
            simp
          rw [hnone]
        | some linked =>
          obtain ⟨linked', hnew⟩ := Option.isSome_iff_exists.1 (hlinked.2 (by rw [hold]; rfl))
          rw [hnew]
          rfl

end SameView

end Analysis

end InputDetail
