import InputDetail.Proofs.Analysis.Fates
import InputDetail.Proofs.Analysis.Typing
import InputDetail.Proofs.Types.Growth

/-!
# Types of all nodes

A node gets the type that its path has in the table of types at that time. Tables of types only grow,
so the path has this type ever after, and the node keeps type and path when it is detached.
-/
namespace InputDetail

theorem TypeTable.Extends.along {types types' : TypeTable} (h : types.Extends types')
    {current type : TypeId} {path : List Name} (halong : types.along current path = some type) :
    types'.along current path = some type := by
  induction path generalizing current with
  | nil => exact halong
  | cons name rest ih =>
    rw [TypeTable.along] at halong ⊢
    cases hresolve : types.resolve current name with
    | error e => simp [hresolve] at halong
    | ok member =>
      rw [hresolve] at halong
      simpa [h.resolve hresolve] using ih halong

/-- The type along a path is found by resolving one member after the other. -/
theorem TypeTable.along_eq_some_iff {types : TypeTable} {current type : TypeId} {path : List Name} :
    types.along current path = some type ↔ path.foldlM types.resolve current = .ok type := by
  induction path generalizing current with
  | nil => simp [TypeTable.along, pure, Except.pure]
  | cons name rest ih =>
    rw [TypeTable.along, List.foldlM_cons]
    cases hresolve : types.resolve current name with
    | error e => simp [bind, Except.bind]
    | ok member => simpa [bind, Except.bind] using ih

namespace Analysis

open Parameter

/-- Every node, attached or not, has the type that follows from its path. -/
def NodesTyped (types : TypeTable) (parameters : List Parameter) : Prop :=
  ∀ ⦃owner id node⦄, nodeAt? parameters owner id = some node → ∃ path type,
    pathAt? parameters owner id = some path ∧ node.type = some type ∧
      staticType types parameters owner path = some type

variable {types types' : TypeTable} {parameters after : List Parameter}

theorem nodesTyped_of_empty (hempty : ∀ parameter ∈ parameters, parameter.forest = .empty)
    (types : TypeTable) : NodesTyped types parameters := by
  intro owner id node hnode
  simp [nodeAt?_of_empty hempty] at hnode

theorem NodesTyped.typed (h : NodesTyped types parameters) (hwf : WellFormed parameters) :
    Typed types parameters parameters where
  bare := rfl
  node hfind hnode := by
    obtain ⟨path, type, hpath, htype, hstatic⟩ := h hnode
    rw [hwf.pathAt?_of_found? hfind, Option.some.injEq] at hpath
    exact ⟨type, htype, hpath ▸ hstatic⟩

/-- The types of paths stay when types are constructed. -/
theorem NodesTyped.of_extends (h : NodesTyped types parameters) (hextends : types.Extends types') :
    NodesTyped types' parameters := by
  intro owner id node hnode
  obtain ⟨path, type, hpath, htype, hstatic⟩ := h hnode
  obtain ⟨parameter, hparam, halong⟩ := Option.bind_eq_some_iff.1 hstatic
  refine ⟨path, type, hpath, htype, ?_⟩
  rw [staticType, hparam, Option.bind_some, hextends.along halong]

theorem staticType_of_bare (h : after.map bare = parameters.map bare) :
    staticType types after = staticType types parameters := by
  funext owner path
  cases hparam : parameters[owner]? with
  | none =>
    have hget := congrArg (·[owner]?) h
    simp only [List.getElem?_map, hparam, Option.map_none, Option.map_eq_none_iff] at hget
    simp [staticType, hparam, hget]
  | some parameter =>
    obtain ⟨parameter', hparam', -, htype⟩ := getElem?_of_bare h hparam
    simp [staticType, hparam, hparam', htype]

/-- Recording one more statement. -/
theorem NodesTyped.step {model : Model} (h : NodesTyped model.types parameters)
    (hwf : WellFormed parameters) {store : ExprStore} {statement : ExprId}
    (hok : analyzeStatement model store statement parameters = .ok () after) :
    NodesTyped model.types after := by
  have htyped := h.typed hwf
  obtain ⟨change, hplan⟩ := plan_of_analyzeStatement hok
  have hsound := htyped.sound hplan
  have houtcome := outcome_of_plan hwf htyped.fits hplan hsound hok
  intro owner id node hnode
  rw [staticType_of_bare (bare_of_effect houtcome.toEffect)]
  cases houtcome.fate hnode with
  | found path hfind =>
    obtain ⟨type, htype, hstatic⟩ := (htyped.of_effect hsound houtcome.toEffect).node hfind hnode
    exact ⟨path, type, houtcome.wellFormed.pathAt?_of_found? hfind, htype, hstatic⟩
  | excluded primary secondary _ hlink howner _ hexcluded _ =>
    subst hlink howner
    obtain ⟨-, htype, -⟩ := hexcluded.holds hnode
    obtain ⟨type, hstatic⟩ := Option.isSome_iff_exists.1
      ((hsound.along secondary (by simp [Change.recorded])).isSome
        (MemberPlan.EndsAt.passes ⟨rfl, rfl⟩))
    exact ⟨secondary.path, type, hexcluded.path, htype.trans hstatic, hstatic⟩
  | unreached base status hbefore _ hsame =>
    subst hsame
    rw [houtcome.keeps.pathAt?_eq hwf houtcome.wellFormed hbefore]
    obtain ⟨path, type, hold⟩ := h hbefore
    exact ⟨path, type, hold⟩

/-- The states that are reached from parameters with nothing recorded by analyses and by constructions
of types, in any order. Those that fail count too. -/
inductive Evolved : TypeTable → List Parameter → Prop
  | start {types : TypeTable} {parameters : List Parameter}
      (nothing : ∀ parameter ∈ parameters, parameter.forest = .empty) : Evolved types parameters
  | analysis {types : TypeTable} {parameters : List Parameter} (before : Evolved types parameters)
      (policy : ConflictPolicy) (document : Document) :
      Evolved types (stateAfter ⟨types, policy⟩ document parameters)
  | construction {types : TypeTable} {parameters : List Parameter} (before : Evolved types parameters)
      (construction : TypeTable.Construction) : Evolved (types.construct construction) parameters

theorem Evolved.reachable (h : Evolved types parameters) : Reachable parameters := by
  induction h with
  | start nothing => exact .start nothing
  | analysis before policy document ih => exact ih.analysis _ _
  | construction before construction ih => exact ih

theorem Evolved.nodesTyped (h : Evolved types parameters) : NodesTyped types parameters := by
  induction h with
  | @start types parameters nothing => exact nodesTyped_of_empty nothing types
  | @analysis types parameters before policy document ih =>
    exact stateAfter_of_step before.reachable.built.wellFormed ih fun hwf htyped hok =>
      NodesTyped.step htyped hwf hok
  | @construction types parameters before construction ih =>
    exact ih.of_extends (types.extends_construct construction)

/-- Whatever was analyzed and constructed, every node of every forest has a type: the one that
resolving its path from the type of the parameter gives now. -/
theorem node_type_eq (h : Evolved types parameters) {owner : Nat} {parameter : Parameter}
    (hparam : parameters[owner]? = some parameter) {id : NodeId} {node : Node}
    (hnode : parameter.forest.node? id = some node) :
    ∃ path type, parameter.forest.path? id = some path ∧ node.type = some type ∧
      path.foldlM types.resolve parameter.type = .ok type := by
  obtain ⟨path, type, hpath, htype, hstatic⟩ := h.nodesTyped (by rw [nodeAt?_eq hparam, hnode])
  rw [pathAt?_eq hparam] at hpath
  rw [staticType, hparam, Option.bind_some, TypeTable.along_eq_some_iff] at hstatic
  exact ⟨path, type, hpath, htype, hstatic⟩

/-- A struct is declared and defined, the alternation of its members is analyzed, and lists of the
struct are added. The detached node has the type of its path. -/
theorem node_type_eq_sample :
    let declared := TypeTable.initial.construct (.declare ⟨8⟩)
    let defined := declared.construct (.define ⟨5⟩ [⟨⟨5⟩, ⟨5⟩⟩, ⟨⟨6⟩, ⟨3⟩⟩])
    let types := defined.construct (.list ⟨5⟩)
    let parameters := stateAfter ⟨defined, .lastWins⟩ ⟨Sample.store, [⟨5⟩]⟩ Sample.parameters
    Evolved types parameters ∧ ∃ parameter node, parameters[0]? = some parameter ∧
      parameter.forest.node? ⟨1⟩ = some node ∧ node.attached = false ∧
      ∃ path type, parameter.forest.path? ⟨1⟩ = some path ∧ node.type = some type ∧
        path.foldlM types.resolve parameter.type = .ok type := by
  intro declared defined types parameters
  have hevolved : Evolved types parameters :=
    (((Evolved.start Sample.nothing_recorded).construction (.declare ⟨8⟩)).construction
      (.define ⟨5⟩ [⟨⟨5⟩, ⟨5⟩⟩, ⟨⟨6⟩, ⟨3⟩⟩])).analysis .lastWins ⟨Sample.store, [⟨5⟩]⟩
      |>.construction (.list ⟨5⟩)
  have hdetached : (nodeAt? parameters 0 ⟨1⟩).map (·.attached) = some false := by decide +kernel
  obtain ⟨node, hnode, hatt⟩ := Option.map_eq_some_iff.1 hdetached
  obtain ⟨parameter, hparam, hid⟩ := Option.bind_eq_some_iff.1 hnode
  exact ⟨hevolved, parameter, node, hparam, hid, hatt, node_type_eq hevolved hparam hid⟩

end Analysis

end InputDetail
