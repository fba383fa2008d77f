import InputDetail.Proofs.Analysis.Links

/-!
# Parameters that differ in statuses only

If the last status wins, then planning does not look at statuses. So two lists of parameters that
agree in everything else are planned for alike. A change that creates no node and links nothing
leads from one such list to another.
-/
namespace InputDetail

/-- All that a node holds besides its status. -/
def Node.unmarked (node : Node) : Node := { node with status := none }

theorem Node.place_unmarked (node : Node) : node.unmarked.place = node.place := rfl

theorem Node.unmarked_eq_iff {node node' : Node} : node'.unmarked = node.unmarked ↔
    node'.name = node.name ∧ node'.parent = node.parent ∧ node'.type = node.type ∧
      node'.link = node.link ∧ node'.attached = node.attached := by
  simp only [Node.unmarked, Node.mk.injEq, true_and]

theorem Node.eq_of_unmarked {node node' : Node} (h : node'.unmarked = node.unmarked)
    (hstatus : node'.status = node.status) : node' = node := by
  obtain ⟨hname, hparent, htype, hlink, hatt⟩ := Node.unmarked_eq_iff.1 h
  cases node
  cases node'
  simp only [Node.mk.injEq] at *
  exact ⟨hname, hparent, htype, hstatus, hlink, hatt⟩

theorem Forest.ext_node? {forest forest' : Forest} (h : ∀ id, forest'.node? id = forest.node? id) :
    forest' = forest := by
  cases forest
  cases forest'
  exact congrArg Forest.mk (Array.ext_getElem? fun index => h ⟨index⟩)

namespace Analysis

open Parameter

/-- The parameters agree in everything but statuses. -/
structure Alike (parameters parameters' : List Parameter) : Prop where
  bare : parameters'.map bare = parameters.map bare
  unmarked : ∀ owner id, (nodeAt? parameters' owner id).map Node.unmarked =
    (nodeAt? parameters owner id).map Node.unmarked

namespace Alike

variable {parameters parameters' parameters'' : List Parameter} {owner : Nat}

theorem refl (parameters : List Parameter) : Alike parameters parameters := ⟨rfl, fun _ _ => rfl⟩

theorem symm (h : Alike parameters parameters') : Alike parameters' parameters :=
  ⟨h.bare.symm, fun owner id => (h.unmarked owner id).symm⟩

theorem trans (h : Alike parameters parameters') (h' : Alike parameters' parameters'') :
    Alike parameters parameters'' :=
  ⟨h'.bare.trans h.bare, fun owner id => (h'.unmarked owner id).trans (h.unmarked owner id)⟩

section

variable (h : Alike parameters parameters')
include h

theorem node {id : NodeId} {node : Node} (hnode : nodeAt? parameters owner id = some node) :
    ∃ node', nodeAt? parameters' owner id = some node' ∧ node'.unmarked = node.unmarked := by
  have hsame := h.unmarked owner id
  rw [hnode, Option.map_some] at hsame
  exact Option.map_eq_some_iff.1 hsame

theorem samePlaces {parameter parameter' : Parameter} (hparam : parameters[owner]? = some parameter)
    (hparam' : parameters'[owner]? = some parameter') :
    parameter.forest.SamePlaces parameter'.forest := by
  intro id
  have hsame := congrArg (Option.map Node.place) (h.unmarked owner id)
  simpa only [Option.map_map, Function.comp_def, Node.place_unmarked, nodeAt?_eq hparam,
    nodeAt?_eq hparam'] using hsame

/-- The parameters stand at the same positions. -/
theorem cases (owner : Nat) : parameters[owner]? = none ∧ parameters'[owner]? = none ∨
    ∃ parameter parameter', parameters[owner]? = some parameter ∧
      parameters'[owner]? = some parameter' ∧ parameter'.name = parameter.name ∧
      parameter.forest.SamePlaces parameter'.forest := by
  cases hparam : parameters[owner]? with
  | none =>
    have hget := congrArg (·[owner]?) h.bare
    simp only [List.getElem?_map, hparam, Option.map_none, Option.map_eq_none_iff] at hget
    exact Or.inl ⟨rfl, hget⟩
  | some parameter =>
    obtain ⟨parameter', hparam', hname, -⟩ := getElem?_of_bare h.bare hparam
    exact Or.inr ⟨parameter, parameter', rfl, hparam', hname, h.samePlaces hparam hparam'⟩

theorem found?_eq : found? parameters' = found? parameters := by
  funext owner path
  obtain ⟨hparam, hparam'⟩ | ⟨parameter, parameter', hparam, hparam', -, hplaces⟩ := h.cases owner
  · rw [found?, found?, hparam, hparam']
  · rw [Parameter.found?_eq hparam, Parameter.found?_eq hparam', hplaces.find?_eq]

theorem wellFormed (hwf : WellFormed parameters) : WellFormed parameters' := by
  intro owner parameter' hparam'
  obtain ⟨-, hnone⟩ | ⟨parameter, parameter', hparam, heq, -, hplaces⟩ := h.cases owner
  · rw [hparam'] at hnone
    cases hnone
  · rw [hparam'] at heq
    cases heq
    exact hplaces.wellFormed (hwf hparam)

theorem pathAt?_eq (hwf : WellFormed parameters) {id : NodeId} {node : Node}
    (hnode : nodeAt? parameters owner id = some node) :
    pathAt? parameters' owner id = pathAt? parameters owner id := by
  obtain ⟨hparam, -⟩ | ⟨parameter, parameter', hparam, hparam', -, hplaces⟩ := h.cases owner
  · rw [nodeAt?, hparam] at hnode
    cases hnode
  · rw [nodeAt?_eq hparam] at hnode
    rw [Parameter.pathAt?_eq hparam, Parameter.pathAt?_eq hparam']
    exact hplaces.keeps.path?_eq (hwf hparam) (hplaces.wellFormed (hwf hparam)) (by rw [hnode]; rfl)

theorem typed {types : TypeTable} {base : List Parameter} (htyped : Typed types base parameters) :
    Typed types base parameters' where
  bare := h.bare.trans htyped.bare
  node {owner path id node'} hfind hnode' := by
    rw [h.found?_eq] at hfind
    obtain ⟨node, hnode, hsame⟩ := h.symm.node hnode'
    obtain ⟨type, htype, hstatic⟩ := htyped.node hfind hnode
    exact ⟨type, (congrArg Node.type hsame).symm.trans htype, hstatic⟩

theorem linked {path : List Name} {id : NodeId} {link : Link}
    (hlinked : Linked parameters owner path id link) : Linked parameters' owner path id link := by
  obtain ⟨node, hfind, hnode, hlink⟩ := hlinked
  obtain ⟨node', hnode', hsame⟩ := h.node hnode
  exact ⟨node', by rw [h.found?_eq, hfind], hnode', (congrArg Node.link hsame).trans hlink⟩

theorem linked?_eq_some (hwf : WellFormed parameters) {primary secondary : MemberPlan}
    {linked : NodeId} (hlinked : linked? parameters primary secondary = some linked) :
    linked? parameters' primary secondary = some linked := by
  obtain ⟨source, target, node, held, htarget, hfind, hnode, hlink, hheld, hatt, hpath⟩ :=
    Analysis.linked?_eq_some.1 hlinked
  obtain ⟨node', hnode', hsame⟩ := h.node hnode
  obtain ⟨held', hheld', hsame'⟩ := h.node hheld
  obtain ⟨target', htarget', hname, -⟩ := getElem?_of_bare h.bare htarget
  refine Analysis.linked?_eq_some.2
    ⟨source, target', node', held', htarget', ?_, hnode', ?_, hheld', ?_, ?_⟩
  · rw [h.found?_eq, hfind]
  · rw [hname]
    exact (congrArg Node.link hsame).trans hlink
  · exact (congrArg Node.attached hsame').trans hatt
  · rw [h.pathAt?_eq hwf hheld, hpath]

theorem linked?_eq (hwf : WellFormed parameters) (primary secondary : MemberPlan) :
    linked? parameters' primary secondary = linked? parameters primary secondary := by
  apply Option.ext
  intro linked
  exact ⟨h.symm.linked?_eq_some (h.wellFormed hwf), h.linked?_eq_some hwf⟩

theorem hasChildren_eq (plan : MemberPlan) :
    hasChildren parameters' plan = hasChildren parameters plan := by
  rw [Bool.eq_iff_iff, ← not_iff_not, Bool.not_eq_true, Bool.not_eq_true, hasChildren_eq_false_iff,
    hasChildren_eq_false_iff, h.found?_eq]

variable {model : Model} {store : ExprStore} {base : List Parameter}

theorem planStatement_eq (hempty : ∀ parameter ∈ base, parameter.forest = .empty)
    (hpolicy : model.policy = .lastWins) (hwf : WellFormed parameters)
    (htyped : Typed model.types base parameters) (id : ExprId) :
    planStatement model store parameters' id = planStatement model store parameters id := by
  have hpath : ∀ status id,
      planPath model store parameters' status id = planPath model store parameters status id := by
    intro status id
    rw [htyped.planPath_eq hempty (by simp [hpolicy]),
      (h.typed htyped).planPath_eq hempty (by simp [hpolicy])]
  unfold planStatement planAlternation alternationDefect?
  simp only [hpath, h.hasChildren_eq, h.linked?_eq hwf]

end

end Alike

/-- A parameter is told by its nodes and its status, besides what analyses never change. -/
theorem getElem?_eq_of_nodeAt? {parameters parameters' : List Parameter} {owner : Nat}
    (hbare : parameters'.map bare = parameters.map bare)
    (hstatus : parameters'[owner]?.map Parameter.status = parameters[owner]?.map Parameter.status)
    (hnode : ∀ id, nodeAt? parameters' owner id = nodeAt? parameters owner id) :
    parameters'[owner]? = parameters[owner]? := by
  have hget := congrArg (·[owner]?) hbare
  cases hparam : parameters[owner]? with
  | none => simpa only [List.getElem?_map, hparam, Option.map_none, Option.map_eq_none_iff] using hget
  | some parameter =>
    simp only [List.getElem?_map, hparam, Option.map_some] at hget
    obtain ⟨parameter', hparam', hsame⟩ := Option.map_eq_some_iff.1 hget
    rw [hparam, hparam', Option.map_some, Option.map_some, Option.some.injEq] at hstatus
    have hforest : parameter'.forest = parameter.forest := by
      apply Forest.ext_node?
      intro id
      rw [← nodeAt?_eq hparam', ← nodeAt?_eq hparam, hnode]
    rw [hparam']
    cases parameter
    cases parameter'
    simp only [bare, Parameter.new, Parameter.mk.injEq] at hsame hstatus hforest
    obtain ⟨hname, htype, hdirection, -⟩ := hsame
    rw [hname, htype, hdirection, hstatus, hforest]

/-- Parameters are told by their nodes and their statuses, besides what analyses never change. -/
theorem ext_nodeAt? {parameters parameters' : List Parameter}
    (hbare : parameters'.map bare = parameters.map bare)
    (hstatus : ∀ owner : Nat,
      parameters'[owner]?.map Parameter.status = parameters[owner]?.map Parameter.status)
    (hnode : ∀ owner id, nodeAt? parameters' owner id = nodeAt? parameters owner id) :
    parameters' = parameters :=
  List.ext_getElem? fun owner => getElem?_eq_of_nodeAt? hbare (hstatus owner) (hnode owner)

/-- No node has been created. -/
def NothingNew (parameters after : List Parameter) : Prop :=
  ∀ ⦃owner id node'⦄, nodeAt? after owner id = some node' →
    ∃ node, nodeAt? parameters owner id = some node

/-- The change gives the node a status, if it links nothing: the node is at the end of the primary
path, or it is the one that a repeated alternation excludes. -/
def Change.Writes (change : Change) (parameters : List Parameter) (owner : Nat) (id : NodeId)
    (status : Status) : Prop :=
  (∃ plan ∈ change.primary?, plan.owner = owner ∧ found? parameters owner plan.path = some id ∧
    plan.status = status) ∨
  ∃ primary secondary, change = .relink primary secondary id ∧ secondary.owner = owner ∧
    secondary.status = status

theorem Change.writes_congr {parameters parameters' : List Parameter} {change : Change}
    (hfound : found? parameters' = found? parameters) {owner : Nat} {id : NodeId} {status : Status} :
    change.Writes parameters' owner id status ↔ change.Writes parameters owner id status := by
  simp only [Change.Writes, hfound]

variable {types : TypeTable} {base parameters after : List Parameter} {change : Change} {owner : Nat}
  {id : NodeId} {node : Node}

section

variable (heffect : Effect (staticType types base) change parameters after)
  (htyped : Typed types base parameters) (hsound : change.Sound (staticType types base) parameters)
  (hlink : change.excluded? = none)
include heffect htyped hsound hlink

/-- A node that a path leads to changes in its status only. -/
theorem Effect.node_of_found {path : List Name} (hfind : found? parameters owner path = some id)
    (hnode : nodeAt? parameters owner id = some node) : ∃ node', nodeAt? after owner id = some node' ∧
      node'.unmarked = node.unmarked ∧
      (∀ plan ∈ change.primary?, plan.EndsAt owner path → node'.status = some plan.status) ∧
      ((∀ plan ∈ change.primary?, ¬ plan.EndsAt owner path) → node'.status = node.status) := by
  have hsome : (found? after owner path).isSome :=
    heffect.isSome_iff.2 ⟨Or.inl (by rw [hfind]; rfl), by simp [hlink]⟩
  obtain ⟨id', hfind'⟩ := Option.isSome_iff_exists.1 hsome
  obtain ⟨known, node', ⟨hfound, hknown⟩ | ⟨hnone, -⟩, hnode', hmarks⟩ := heffect.found hfind'
  · rw [hfind] at hfound
    cases hfound
    rw [hnode] at hknown
    cases hknown
    refine ⟨node', hnode', ?_, hmarks.status_on, hmarks.status_off⟩
    obtain ⟨type, htype, hstatic⟩ := htyped.node hfind hnode
    obtain ⟨type', htype', hstatic'⟩ := (htyped.of_effect hsound heffect).node hfind' hnode'
    rw [hstatic] at hstatic'
    cases hstatic'
    obtain ⟨_, hkept, hname, hparent⟩ := heffect.keeps.node hnode
    rw [hnode'] at hkept
    cases hkept
    obtain ⟨_, hheld, hatt⟩ := nodeAt?_of_found? hfind
    rw [hnode] at hheld
    cases hheld
    obtain ⟨_, hheld, hatt'⟩ := nodeAt?_of_found? hfind'
    rw [hnode'] at hheld
    cases hheld
    have hlinks : node'.link = node.link :=
      hmarks.link_off fun primary secondary heq => by simp [heq, Change.excluded?] at hlink
    simp only [Node.unmarked, hname, hparent, htype, htype', hatt, hatt', hlinks]
  · rw [hfind] at hnone
    cases hnone

omit htyped heffect hlink in
/-- The node that a repeated alternation excludes is out of reach. -/
theorem Change.Sound.found?_ne {primary secondary : MemberPlan} {linked : NodeId}
    (heq : change = .relink primary secondary linked) (path : List Name) :
    found? parameters secondary.owner path ≠ some linked := by
  subst heq
  obtain ⟨_, _, _, held, -, -, -, -, hheld, hatt, -⟩ := linked?_eq_some.1 hsound.2
  exact found?_ne_of_detached hheld hatt path

/-- A change that links nothing changes old nodes in their statuses only. -/
theorem Effect.node_of_node (hwf : WellFormed parameters)
    (hnode : nodeAt? parameters owner id = some node) :
    ∃ node', nodeAt? after owner id = some node' ∧ node'.unmarked = node.unmarked ∧
      (∀ status, change.Writes parameters owner id status → node'.status = some status) ∧
      ((∀ status, ¬ change.Writes parameters owner id status) → node'.status = node.status) := by
  by_cases hfind : ∃ path, found? parameters owner path = some id
  · obtain ⟨path, hfind⟩ := hfind
    obtain ⟨node', hnode', hsame, hon, hoff⟩ := heffect.node_of_found htyped hsound hlink hfind hnode
    refine ⟨node', hnode', hsame, ?_, fun hnone => hoff ?_⟩
    · rintro status (⟨plan, hplan, rfl, hend, rfl⟩ | ⟨primary, secondary, heq, rfl, -⟩)
      · exact hon plan hplan ⟨rfl, hwf.found?_injective hfind hend⟩
      · exact absurd hfind (hsound.found?_ne heq path)
    · rintro plan hplan ⟨rfl, rfl⟩
      exact hnone plan.status (Or.inl ⟨plan, hplan, rfl, hfind, rfl⟩)
  · have hout : ∀ path, found? parameters owner path ≠ some id :=
      fun path hpath => hfind ⟨path, hpath⟩
    by_cases hrelink : ∃ primary secondary, change = .relink primary secondary id ∧
        secondary.owner = owner
    · obtain ⟨primary, secondary, rfl, rfl⟩ := hrelink
      refine ⟨_, heffect.relinked rfl hnode, rfl, ?_, fun hnone => ?_⟩
      · rintro status (⟨plan, -, howner, hend, -⟩ | ⟨_, _, heq, -, rfl⟩)
        · exact absurd (howner ▸ hend) (hout plan.path)
        · cases heq
          rfl
      · exact absurd (Or.inr ⟨primary, secondary, rfl, rfl, rfl⟩) (hnone secondary.status)
    · have hkept : nodeAt? after owner id = some node := by
        refine heffect.unreached hnode hout ?_
        rintro primary secondary linked heq ⟨rfl, rfl⟩
        exact hrelink ⟨primary, secondary, heq, rfl⟩
      refine ⟨node, hkept, rfl, ?_, fun _ => rfl⟩
      rintro status (⟨plan, -, howner, hend, -⟩ | ⟨primary, secondary, heq, howner, -⟩)
      · exact absurd (howner ▸ hend) (hout plan.path)
      · exact absurd ⟨primary, secondary, heq, howner⟩ hrelink

/-- A change that creates no node either leaves everything but statuses as it is. -/
theorem Effect.alike (hwf : WellFormed parameters) (hold : NothingNew parameters after) :
    Alike parameters after where
  bare := bare_of_effect heffect
  unmarked owner id := by
    cases hnode : nodeAt? parameters owner id with
    | none =>
      cases hnode' : nodeAt? after owner id with
      | none => rfl
      | some node' =>
        obtain ⟨node, hsome⟩ := hold hnode'
        rw [hnode] at hsome
        cases hsome
    | some node =>
      obtain ⟨node', hnode', hsame, -⟩ := heffect.node_of_node htyped hsound hlink hwf hnode
      rw [hnode', Option.map_some, Option.map_some, hsame]

end

/-- The parameters agree in everything but statuses, and no status is missing in the second. -/
structure Fills (parameters parameters' : List Parameter) : Prop extends
    Alike parameters parameters' where
  status : ∀ {owner id node node'}, nodeAt? parameters owner id = some node →
    nodeAt? parameters' owner id = some node' → node.status.isSome → node'.status.isSome

theorem Fills.refl (parameters : List Parameter) : Fills parameters parameters where
  toAlike := Alike.refl parameters
  status hnode hnode' hstatus := by
    rw [hnode] at hnode'
    cases hnode'
    exact hstatus

theorem Fills.trans {parameters'' : List Parameter} (h : Fills parameters after)
    (h' : Fills after parameters'') : Fills parameters parameters'' where
  toAlike := h.toAlike.trans h'.toAlike
  status hnode hnode' hstatus := by
    obtain ⟨node, hmiddle, -⟩ := h.node hnode
    exact h'.status hmiddle hnode' (h.status hnode hmiddle hstatus)

/-- No status is taken back. -/
theorem Effect.fills (heffect : Effect (staticType types base) change parameters after)
    (htyped : Typed types base parameters) (hsound : change.Sound (staticType types base) parameters)
    (hlink : change.excluded? = none) (hwf : WellFormed parameters)
    (hold : NothingNew parameters after) : Fills parameters after where
  toAlike := heffect.alike htyped hsound hlink hwf hold
  status {owner id node node'} hnode hnode' hstatus := by
    obtain ⟨_, hsame, -, hwrites, hkeeps⟩ := heffect.node_of_node htyped hsound hlink hwf hnode
    rw [hnode'] at hsame
    cases hsame
    by_cases hwritten : ∃ status, change.Writes parameters owner id status
    · obtain ⟨status, hwritten⟩ := hwritten
      rw [hwrites status hwritten]
      rfl
    · rw [hkeeps fun status hwrite => hwritten ⟨status, hwrite⟩]
      exact hstatus

/-- Fuller parameters are coherent if the others are. -/
theorem Coherent.of_fills {types : TypeTable} (h : Coherent types base parameters)
    (hfills : Fills parameters after) : Coherent types base after where
  wellFormed := hfills.wellFormed h.wellFormed
  typed := hfills.typed h.typed
  linked hlinked := by
    obtain ⟨⟨node, hnode, hstatus⟩, target, hposition, held, hheld, hatt, hheldStatus⟩ :=
      h.linked (hfills.symm.linked hlinked)
    obtain ⟨node', hnode', -⟩ := hfills.node hnode
    obtain ⟨held', hheld', hsame⟩ := hfills.node hheld
    refine ⟨⟨node', hnode', hfills.status hnode hnode' hstatus⟩, target, ?_, held', hheld', ?_,
      hfills.status hheld hheld' hheldStatus⟩
    · rw [position?_congr (names_of_bare hfills.bare), hposition]
    · exact (congrArg Node.attached hsame).trans hatt
  apart hlinked hlinked' := h.apart (hfills.symm.linked hlinked) (hfills.symm.linked hlinked')

/-- The parameters have statuses at the same nodes, and agree in everything else. -/
structure Restated (parameters parameters' : List Parameter) : Prop where
  fills : Fills parameters parameters'
  filled : Fills parameters' parameters

theorem Restated.refl (parameters : List Parameter) : Restated parameters parameters :=
  ⟨Fills.refl parameters, Fills.refl parameters⟩

end InputDetail.Analysis
