import InputDetail.Proofs.Analysis.Planning

/-!
# What carrying out a plan does

A planned change is never refused. Its effect is described for all parameters at once and without
the steps in between: which paths lead somewhere, what the nodes at their ends hold, and what
becomes of the nodes that no path leads to. Everything that is preserved by analyses follows from
this description.
-/
namespace InputDetail.Analysis

open Forest Parameter

namespace Change

/-- The path whose end gets the status of the statement. -/
def primary? : Change → Option MemberPlan
  | .flag _ _ => none
  | .record plan => some plan
  | .link primary _ => some primary
  | .relink primary _ _ => some primary

/-- The paths that are gone down. -/
def recorded : Change → List MemberPlan
  | .flag _ _ => []
  | .record plan => [plan]
  | .link primary secondary => [primary, secondary]
  | .relink primary _ _ => [primary]

/-- The path whose end is detached. -/
def excluded? : Change → Option MemberPlan
  | .link _ secondary => some secondary
  | _ => none

theorem mem_recorded_of_primary? {change : Change} {plan : MemberPlan} (h : plan ∈ change.primary?) :
    plan ∈ change.recorded := by
  cases change <;> simp_all [primary?, recorded]

theorem mem_recorded_of_excluded? {change : Change} {plan : MemberPlan}
    (h : plan ∈ change.excluded?) : plan ∈ change.recorded := by
  cases change <;> simp_all [excluded?, recorded]

/-- What is done to the statuses of whole parameters. -/
def flags : Change → List Parameter → List Parameter
  | .flag owner status => (·.modify owner ({ · with status }))
  | _ => id

/-- The change fits the parameters: it goes down existing parameters with the types that `types`
tells, excludes nothing above its primary path, and repeats only links that are there. -/
def Sound (types : Nat → List Name → Option TypeId) (parameters : List Parameter) : Change → Prop
  | .flag _ _ => True
  | .record plan => plan.Along types parameters
  | .link primary secondary => primary.Along types parameters ∧ secondary.Along types parameters ∧
    ¬ secondary.Heads primary.owner primary.path
  | .relink primary secondary linked => primary.Along types parameters ∧
    linked? parameters primary secondary = some linked

/-- What a change makes of the node at the end of a path. -/
structure Marks (types : Nat → List Name → Option TypeId) (change : Change) (owner : Nat)
    (path : List Name) (base node : Node) : Prop where
  type_on : ∀ plan ∈ change.recorded, plan.Passes owner path → node.type = types owner path
  type_off : (∀ plan ∈ change.recorded, ¬ plan.Passes owner path) → node.type = base.type
  status_on : ∀ plan ∈ change.primary?, plan.EndsAt owner path → node.status = some plan.status
  status_off : (∀ plan ∈ change.primary?, ¬ plan.EndsAt owner path) → node.status = base.status
  link_off : (∀ primary secondary, change = .link primary secondary →
    ¬ primary.EndsAt owner path) → node.link = base.link

end Change

/-- The excluded node: it was at the end of the secondary path, and holds what is recorded there. -/
structure Excluded (types : Nat → List Name → Option TypeId) (secondary : MemberPlan) (id : NodeId)
    (parameters after : List Parameter) : Prop where
  origin : ∃ base, Origin parameters secondary.owner secondary.path id base
  node : ∃ node, nodeAt? after secondary.owner id = some node ∧ node.attached = false ∧
    node.type = types secondary.owner secondary.path ∧ node.status = some secondary.status
  path : pathAt? after secondary.owner id = some secondary.path

theorem Excluded.holds {types : Nat → List Name → Option TypeId} {secondary : MemberPlan} {id : NodeId}
    {parameters after : List Parameter} {node : Node}
    (h : Excluded types secondary id parameters after)
    (hnode : nodeAt? after secondary.owner id = some node) :
    node.attached = false ∧ node.type = types secondary.owner secondary.path ∧
      node.status = some secondary.status := by
  obtain ⟨held, hheld, hholds⟩ := h.node
  rw [hnode, Option.some.injEq] at hheld
  rwa [hheld]

/-- Everything that carrying out a change does. -/
structure Effect (types : Nat → List Name → Option TypeId) (change : Change)
    (parameters after : List Parameter) : Prop where
  wellFormed : WellFormed after
  keeps : Keeps parameters after
  blank : after.map blank = (change.flags parameters).map blank
  isSome_iff : ∀ {owner path}, (found? after owner path).isSome ↔
    ((found? parameters owner path).isSome ∨ ∃ plan ∈ change.recorded, plan.Passes owner path) ∧
      ∀ secondary ∈ change.excluded?, ¬ secondary.Heads owner path
  found : ∀ {owner path id}, found? after owner path = some id → ∃ base node,
    Origin parameters owner path id base ∧ nodeAt? after owner id = some node ∧
      change.Marks types owner path base node
  linked : ∀ {primary secondary}, change = .link primary secondary →
    ∃ parameter excluded, parameters[secondary.owner]? = some parameter ∧
      Excluded types secondary excluded parameters after ∧
      ∀ {id node}, found? after primary.owner primary.path = some id →
        nodeAt? after primary.owner id = some node → node.link = some ⟨parameter.name, excluded⟩
  unreached : ∀ {owner id node}, nodeAt? parameters owner id = some node →
    (∀ path, found? parameters owner path ≠ some id) →
    (∀ primary secondary linked, change = .relink primary secondary linked →
      ¬ (owner = secondary.owner ∧ id = linked)) → nodeAt? after owner id = some node
  relinked : ∀ {primary secondary linked node}, change = .relink primary secondary linked →
    nodeAt? parameters secondary.owner linked = some node →
    nodeAt? after secondary.owner linked = some { node with status := some secondary.status }
  created : ∀ {owner id node}, nodeAt? after owner id = some node →
    nodeAt? parameters owner id = none →
    ∃ plan ∈ change.recorded, ∃ path, plan.Passes owner path ∧ found? parameters owner path = none

variable {types : Nat → List Name → Option TypeId} {parameters parameters' : List Parameter}

/-- Changes rename no parameter. -/
theorem Effect.names {change : Change} (h : Effect types change parameters parameters') :
    parameters'.map (·.name) = parameters.map (·.name) := by
  have hname : ∀ list : List Parameter,
      list.map (·.name) = (list.map Parameter.blank).map (·.name) := by
    intro list
    rw [List.map_map]
    rfl
  rw [hname parameters', h.blank, ← hname]
  cases change with
  | flag owner status =>
    apply List.ext_getElem?
    intro index
    simp only [Change.flags, List.getElem?_map, List.getElem?_modify]
    cases parameters[index]? with
    | none => rfl
    | some parameter => split_ifs <;> rfl
  | record plan => rfl
  | link primary secondary => rfl
  | relink primary secondary linked => rfl

section

variable {change : Change} (h : Effect types change parameters parameters') {owner : Nat}
  {path : List Name} {id : NodeId} {node : Node}
include h

/-- An old node that a path leads to afterwards is the one that it led to before. -/
theorem Effect.found?_before (hfind : found? parameters' owner path = some id)
    (hnode : nodeAt? parameters owner id = some node) : found? parameters owner path = some id := by
  obtain ⟨_, _, ⟨hfound, -⟩ | ⟨-, hnone, -⟩, -⟩ := h.found hfind
  · exact hfound
  · rw [hnode] at hnone
    cases hnone

/-- A path leads where it led before, unless what it leads to or passes is excluded. -/
theorem Effect.found?_of_some (hfind : found? parameters owner path = some id)
    (hleft : ∀ secondary ∈ change.excluded?, ¬ secondary.Heads owner path) :
    found? parameters' owner path = some id := by
  obtain ⟨id', hfind'⟩ := Option.isSome_iff_exists.1
    (h.isSome_iff.2 ⟨Or.inl (Option.isSome_iff_exists.2 ⟨id, hfind⟩), hleft⟩)
  obtain ⟨_, _, ⟨hfound, -⟩ | ⟨hnone, -⟩, -⟩ := h.found hfind'
  · rw [hfind', ← hfound, hfind]
  · rw [hfind] at hnone
    cases hnone

/-- The status of the node at the end of a path: the statement that ends there says it, and all
others leave it as it is. -/
theorem Effect.status_cases (hfind : found? parameters' owner path = some id)
    (hnode : nodeAt? parameters' owner id = some node) :
    (∃ plan ∈ change.primary?, plan.EndsAt owner path ∧ node.status = some plan.status) ∨
    (∀ plan ∈ change.primary?, ¬ plan.EndsAt owner path) ∧
      (nodeAt? parameters owner id = none ∧ node.status = none ∨
        ∃ old, nodeAt? parameters owner id = some old ∧ old.status = node.status) := by
  obtain ⟨old, node', horigin, hnode', hmarks⟩ := h.found hfind
  rw [hnode] at hnode'
  cases hnode'
  by_cases hend : ∃ plan ∈ change.primary?, plan.EndsAt owner path
  · obtain ⟨plan, hplan, hend⟩ := hend
    exact Or.inl ⟨plan, hplan, hend, hmarks.status_on plan hplan hend⟩
  · have hoff : ∀ plan ∈ change.primary?, ¬ plan.EndsAt owner path :=
      fun plan hplan hends => hend ⟨plan, hplan, hends⟩
    refine Or.inr ⟨hoff, ?_⟩
    rw [hmarks.status_off hoff]
    obtain ⟨-, hold⟩ | ⟨-, hnone, name, parent, rfl⟩ := horigin
    · exact Or.inr ⟨old, hold, rfl⟩
    · exact Or.inl ⟨hnone, rfl⟩

end

theorem forests_setFlag (owner : Nat) (status : Status) (parameters : List Parameter) :
    (parameters.modify owner ({ · with status })).map (·.forest) = parameters.map (·.forest) := by
  apply List.ext_getElem?
  intro index
  simp only [List.getElem?_map, List.getElem?_modify]
  cases parameters[index]? with
  | none => rfl
  | some parameter => split_ifs <;> rfl

/-- Only the forests decide where paths lead and what the nodes hold. -/
theorem found?_congr (h : parameters'.map (·.forest) = parameters.map (·.forest)) :
    found? parameters' = found? parameters ∧ nodeAt? parameters' = nodeAt? parameters := by
  have hforest : ∀ owner : Nat,
      parameters'[owner]?.map (·.forest) = parameters[owner]?.map (·.forest) := by
    intro owner
    rw [← List.getElem?_map, h, List.getElem?_map]
  constructor
  · funext owner path
    have heq := congrArg (Option.bind · (Forest.find? · path)) (hforest owner)
    simp only [Option.bind_map] at heq
    exact heq
  · funext owner id
    have heq := congrArg (Option.bind · (Forest.node? · id)) (hforest owner)
    simp only [Option.bind_map] at heq
    exact heq

theorem effect_flag (hwf : WellFormed parameters) (owner : Nat) (status : Status) :
    Effect types (.flag owner status) parameters (parameters.modify owner ({ · with status })) := by
  have hforests := forests_setFlag owner status parameters
  have hforest : ∀ {index : Nat} {parameter : Parameter},
      (parameters.modify owner ({ · with status }))[index]? = some parameter →
      ∃ old, parameters[index]? = some old ∧ old.forest = parameter.forest := by
    intro index parameter hparam
    have heq := congrArg (·[index]?) hforests
    simp only [List.getElem?_map, hparam, Option.map_some] at heq
    exact Option.map_eq_some_iff.1 heq.symm
  obtain ⟨hfound, hnode⟩ := found?_congr hforests
  constructor
  case wellFormed =>
    intro index parameter hparam
    obtain ⟨old, hold, hsame⟩ := hforest hparam
    exact hsame ▸ hwf hold
  case keeps =>
    intro index parameter hparam
    have heq := congrArg (·[index]?) hforests
    simp only [List.getElem?_map, hparam, Option.map_some] at heq
    obtain ⟨new, hnew, hsame⟩ := Option.map_eq_some_iff.1 heq
    exact ⟨new, hnew, hsame ▸ Forest.Keeps.refl _⟩
  case blank => rfl
  case isSome_iff => simp [hfound, Change.recorded, Change.excluded?]
  case found =>
    intro index path id hfind
    rw [hfound] at hfind
    obtain ⟨node, hat, -⟩ := nodeAt?_of_found? hfind
    exact ⟨node, node, Or.inl ⟨hfind, hat⟩, by rw [hnode, hat], by simp [Change.recorded], fun _ => rfl,
      by simp [Change.primary?], fun _ => rfl, fun _ => rfl⟩
  case linked => simp
  case unreached =>
    intro index id node hat _ _
    rw [hnode, hat]
  case relinked => simp
  case created =>
    intro index id node hat hnone
    rw [hnode, hnone] at hat
    cases hat

theorem effect_record {plan : MemberPlan} (hwf : WellFormed parameters)
    (h : Recorded types plan parameters parameters') :
    Effect types (.record plan) parameters parameters' := by
  constructor
  case wellFormed => exact h.wellFormed hwf
  case keeps => exact h.keeps
  case blank => exact h.map_blank
  case isSome_iff => simp [h.found?_isSome_iff, Change.recorded, Change.excluded?]
  case found =>
    intro owner path id hfind
    obtain ⟨base, node, horigin, hnode, htype, hstatus, hlink⟩ := h.found hwf hfind
    refine ⟨base, node, horigin, hnode, ?_⟩
    constructor
    · simp only [Change.recorded, List.mem_singleton, forall_eq]
      intro hway
      rw [htype, if_pos hway]
    · simp only [Change.recorded, List.mem_singleton, forall_eq]
      intro hway
      rw [htype, if_neg hway]
    · simp only [Change.primary?, Option.mem_def, Option.some.injEq, forall_eq']
      intro hend
      rw [hstatus, if_pos hend]
    · simp only [Change.primary?, Option.mem_def, Option.some.injEq, forall_eq']
      intro hend
      rw [hstatus, if_neg hend]
    · exact fun _ => hlink
  case linked => simp
  case unreached => exact fun hnode hout _ => (h.unreached hnode hout).1
  case relinked => simp
  case created =>
    intro owner id node hnode hnone
    obtain ⟨path, hway, hnew⟩ := h.created hnode hnone
    exact ⟨plan, by simp [Change.recorded], path, hway, hnew⟩

theorem edited_of_onForest {owner : Nat} {α : Type} {edit : Forest.Edit α} {a : α}
    {change : Forest → Forest → Prop} {parameter : Parameter} {forest : Forest}
    (hparam : parameters[owner]? = some parameter) (hedit : edit parameter.forest = .ok a forest)
    (hchange : change parameter.forest forest) :
    ∃ after, onForest owner edit parameters = .ok a after ∧
      Edited owner change parameters after :=
  ⟨_, onForest_of_getElem? hparam hedit, parameter, forest, hparam, hchange, rfl⟩

/-- An attached node can be detached, and any node can be linked to it. -/
theorem exclude_spec {owner excludedOwner : Nat} {node excluded : NodeId} {path : List Name}
    {target : Parameter} {held : Node} (hnode : nodeAt? parameters owner node = some held)
    (hfind : found? parameters excludedOwner path = some excluded)
    (htarget : parameters[excludedOwner]? = some target) :
    ∃ middle after held', exclude owner node excludedOwner excluded parameters = .ok () after ∧
      Edited excludedOwner (Detached excluded) parameters middle ∧
      nodeAt? middle owner node = some held' ∧
      Edited owner (Replaced node held' { held' with link := some ⟨target.name, excluded⟩ })
        middle after := by
  obtain ⟨old, hold, hatt⟩ := nodeAt?_of_found? hfind
  rw [nodeAt?_eq htarget] at hold
  obtain ⟨middle, hdetach, hmiddle⟩ := edited_of_onForest htarget (detach_of_node? hold hatt)
    (detached_of_detach (detach_of_node? hold hatt))
  obtain ⟨held', hheld⟩ := (Edited.keeps hmiddle fun h => h.keeps).node_exists hnode
  obtain ⟨parameter, hparam, hat⟩ := Option.bind_eq_some_iff.1 hheld
  obtain ⟨after, hlink, hafter⟩ := edited_of_onForest hparam
    (setLink_of_node? hat ⟨target.name, excluded⟩) (replaced_set hat rfl)
  refine ⟨middle, after, held', ?_, hmiddle, hheld, hafter⟩
  simp only [exclude_apply, htarget, Option.elim_some, EStateM.bind, hdetach, hlink]

/-- The steps of linking two paths: both are recorded, then the end of the second is detached and the
end of the first is linked to it. -/
structure Linking (types : Nat → List Name → Option TypeId) (primary secondary : MemberPlan)
    (target : Parameter) (node excluded : NodeId) (held : Node)
    (parameters first both middle after : List Parameter) : Prop where
  target_at : parameters[secondary.owner]? = some target
  apart : ¬ secondary.Heads primary.owner primary.path
  record_primary : Recorded types primary parameters first
  found_primary : found? first primary.owner primary.path = some node
  record_secondary : Recorded types secondary first both
  found_secondary : found? both secondary.owner secondary.path = some excluded
  detach : Edited secondary.owner (Detached excluded) both middle
  held_at : nodeAt? middle primary.owner node = some held
  link : Edited primary.owner (Replaced node held { held with link := some ⟨target.name, excluded⟩ })
    middle after

namespace Linking

variable {primary secondary : MemberPlan} {target : Parameter} {node excluded : NodeId} {held : Node}
  {first both middle after : List Parameter} {owner : Nat} {path : List Name}

section

variable (h : Linking types primary secondary target node excluded held parameters first both middle
  after)
include h

theorem keeps_both : Keeps both after :=
  (Edited.keeps h.detach fun hdetached => hdetached.keeps).trans
    (Edited.keeps h.link fun hreplaced => hreplaced.samePlaces.keeps)

theorem keeps : Keeps parameters after :=
  (h.record_primary.keeps.trans h.record_secondary.keeps).trans h.keeps_both

theorem blank : after.map blank = parameters.map blank := by
  rw [h.link.map_blank, h.detach.map_blank, h.record_secondary.map_blank, h.record_primary.map_blank]

theorem wellFormed_both (hwf : WellFormed parameters) : WellFormed both :=
  h.record_secondary.wellFormed (h.record_primary.wellFormed hwf)

theorem wellFormed (hwf : WellFormed parameters) : WellFormed after :=
  h.link.wellFormed (h.detach.wellFormed (h.wellFormed_both hwf) fun hf hdetached =>
    hdetached.wellFormed hf) fun hf hreplaced => hreplaced.samePlaces.wellFormed hf

/-- Exactly the paths through the excluded node are gone. -/
theorem found?_eq (hwf : WellFormed parameters) (owner : Nat) (path : List Name) :
    found? after owner path = if secondary.Heads owner path then none else found? both owner path := by
  rw [Replaced.found?_eq h.link, Detached.found?_eq h.detach (h.wellFormed_both hwf) h.found_secondary]
  rfl

theorem found?_both_primary : found? both primary.owner primary.path = some node :=
  h.record_secondary.found?_of_some h.found_primary

/-- The linked node and the excluded node are different nodes. -/
theorem node_ne (hwf : WellFormed parameters) :
    ¬ (secondary.owner = primary.owner ∧ excluded = node) := by
  rintro ⟨howner, rfl⟩
  have hfind := h.found_secondary
  rw [howner] at hfind
  have hpath := (h.wellFormed_both hwf).found?_injective hfind h.found?_both_primary
  exact h.apart ⟨howner.symm, hpath ▸ List.prefix_refl _⟩

theorem nodeAt?_eq (owner : Nat) (id : NodeId) : nodeAt? after owner id =
    if owner = primary.owner ∧ id = node then
      some { held with link := some ⟨target.name, excluded⟩ }
    else nodeAt? middle owner id := Replaced.nodeAt?_eq h.link owner id

theorem nodeAt?_both {id : NodeId} (hne : ¬ (owner = secondary.owner ∧ id = excluded)) :
    nodeAt? middle owner id = nodeAt? both owner id := Detached.nodeAt?_ne h.detach hne

/-- The node at the end of a path that is left, before anything is detached or linked. -/
theorem marks (hwf : WellFormed parameters) {id : NodeId} (hfind : found? both owner path = some id) :
    ∃ base node, Origin parameters owner path id base ∧ nodeAt? both owner id = some node ∧
      (∀ plan ∈ (Change.link primary secondary).recorded, plan.Passes owner path →
        node.type = types owner path) ∧
      ((∀ plan ∈ (Change.link primary secondary).recorded, ¬ plan.Passes owner path) →
        node.type = base.type) ∧
      node.status = (if secondary.EndsAt owner path then some secondary.status
        else if primary.EndsAt owner path then some primary.status else base.status) ∧
      node.link = base.link := by
  have hwf' := h.record_primary.wellFormed hwf
  obtain ⟨middle, node, hmiddle, hnode, htype, hstatus, hlink⟩ := h.record_secondary.found hwf' hfind
  obtain ⟨base, hbase, htype', hstatus', hlink'⟩ := h.record_primary.origin hwf hmiddle
  refine ⟨base, node, hbase, hnode, ?_, ?_, by rw [hstatus, hstatus'], by rw [hlink, hlink']⟩
  · simp only [Change.recorded, List.mem_cons, List.not_mem_nil, or_false, forall_eq_or_imp, forall_eq]
    constructor
    · intro hway
      rw [htype, htype', if_pos hway, ite_self]
    · intro hway
      rw [htype, if_pos hway]
  · simp only [Change.recorded, List.mem_cons, List.not_mem_nil, or_false, forall_eq_or_imp, forall_eq]
    rintro ⟨hprimary, hsecondary⟩
    rw [htype, if_neg hsecondary, htype', if_neg hprimary]

/-- Paths that are left do not lead to the excluded node. -/
theorem ne_excluded (hwf : WellFormed parameters) {id : NodeId}
    (hfind : found? both owner path = some id) (hleft : ¬ secondary.Heads owner path) :
    ¬ (owner = secondary.owner ∧ id = excluded) := by
  rintro ⟨rfl, rfl⟩
  have hpath := (h.wellFormed_both hwf).found?_injective hfind h.found_secondary
  exact hleft ⟨rfl, hpath ▸ List.prefix_refl _⟩

/-- The node at the end of a path that is left. -/
theorem nodeAt?_of_found? (hwf : WellFormed parameters) {id : NodeId} {atBoth : Node}
    (hfind : found? both owner path = some id) (hleft : ¬ secondary.Heads owner path)
    (hnode : nodeAt? both owner id = some atBoth) :
    nodeAt? after owner id = some { atBoth with
      link := if primary.EndsAt owner path then some ⟨target.name, excluded⟩ else atBoth.link } := by
  have hmiddle : nodeAt? middle owner id = some atBoth := by
    rw [h.nodeAt?_both (h.ne_excluded hwf hfind hleft), hnode]
  rw [h.nodeAt?_eq]
  by_cases hend : primary.EndsAt owner path
  · obtain ⟨rfl, rfl⟩ := hend
    obtain rfl : node = id := Option.some.inj (h.found?_both_primary.symm.trans hfind)
    have hheld := h.held_at
    rw [hmiddle] at hheld
    cases hheld
    rw [if_pos ⟨rfl, rfl⟩, if_pos ⟨rfl, rfl⟩]
  · have hne : ¬ (owner = primary.owner ∧ id = node) := by
      rintro ⟨rfl, rfl⟩
      exact hend ⟨rfl, (h.wellFormed_both hwf).found?_injective hfind h.found?_both_primary⟩
    rw [if_neg hne, if_neg hend, hmiddle]

theorem nodeAt?_excluded (hwf : WellFormed parameters) {atBoth : Node}
    (hnode : nodeAt? both secondary.owner excluded = some atBoth) :
    nodeAt? after secondary.owner excluded = some { atBoth with attached := false } := by
  obtain ⟨node', hnode', hmiddle⟩ := Detached.nodeAt?_self h.detach
  rw [hnode] at hnode'
  cases hnode'
  rw [h.nodeAt?_eq, if_neg (h.node_ne hwf), hmiddle]

/-- What becomes of the excluded node. -/
theorem excluded_spec (hwf : WellFormed parameters) :
    Excluded types secondary excluded parameters after := by
  obtain ⟨base, node, horigin, hnode, htype, -, hstatus, -⟩ := h.marks hwf h.found_secondary
  have hafter := h.nodeAt?_excluded hwf hnode
  refine ⟨⟨base, horigin⟩, ⟨_, hafter, rfl, ?_, ?_⟩, ?_⟩
  · exact htype secondary (by simp [Change.recorded])
      ⟨rfl, onWay_self secondary.path_ne_nil⟩
  · show node.status = _
    rw [hstatus, if_pos ⟨rfl, rfl⟩]
  · have hboth := h.wellFormed_both hwf
    rw [h.keeps_both.pathAt?_eq hboth (h.wellFormed hwf) hnode,
      hboth.pathAt?_of_found? h.found_secondary]

theorem unreached {id : NodeId} {known : Node} (hnode : nodeAt? parameters owner id = some known)
    (hout : ∀ path, found? parameters owner path ≠ some id) :
    nodeAt? after owner id = some known := by
  obtain ⟨hfirst, hout⟩ := h.record_primary.unreached hnode hout
  obtain ⟨hboth, hout⟩ := h.record_secondary.unreached hfirst hout
  have hne : ¬ (owner = primary.owner ∧ id = node) := by
    rintro ⟨rfl, rfl⟩
    exact hout _ h.found?_both_primary
  have hne' : ¬ (owner = secondary.owner ∧ id = excluded) := by
    rintro ⟨rfl, rfl⟩
    exact hout _ h.found_secondary
  rw [h.nodeAt?_eq, if_neg hne, h.nodeAt?_both hne', hboth]

theorem created {id : NodeId} {known : Node} (hnode : nodeAt? after owner id = some known)
    (hnone : nodeAt? parameters owner id = none) :
    ∃ plan ∈ (Change.link primary secondary).recorded, ∃ path, plan.Passes owner path ∧
      found? parameters owner path = none := by
  have hboth : ∃ known, nodeAt? both owner id = some known := by
    by_cases hne : owner = primary.owner ∧ id = node
    · obtain ⟨rfl, rfl⟩ := hne
      obtain ⟨known, hknown, -⟩ := Parameter.nodeAt?_of_found? h.found?_both_primary
      exact ⟨known, hknown⟩
    · rw [h.nodeAt?_eq, if_neg hne] at hnode
      by_cases hne' : owner = secondary.owner ∧ id = excluded
      · obtain ⟨rfl, rfl⟩ := hne'
        obtain ⟨known, hknown, -⟩ := Parameter.nodeAt?_of_found? h.found_secondary
        exact ⟨known, hknown⟩
      · rw [h.nodeAt?_both hne'] at hnode
        exact ⟨known, hnode⟩
  obtain ⟨known, hknown⟩ := hboth
  cases hfirst : nodeAt? first owner id with
  | none =>
    obtain ⟨path, hway, hnew⟩ := h.record_secondary.created hknown hfirst
    refine ⟨secondary, by simp [Change.recorded], path, hway, ?_⟩
    rw [← Option.not_isSome_iff_eq_none] at hnew ⊢
    exact fun hold => hnew (h.record_primary.found?_isSome_iff.2 (Or.inl hold))
  | some known' =>
    obtain ⟨path, hway, hnew⟩ := h.record_primary.created hfirst hnone
    exact ⟨primary, by simp [Change.recorded], path, hway, hnew⟩

end

end Linking

theorem effect_link {primary secondary : MemberPlan} {target : Parameter} {node excluded : NodeId}
    {held : Node} {first both middle after : List Parameter} (hwf : WellFormed parameters)
    (h : Linking types primary secondary target node excluded held parameters first both middle
      after) : Effect types (.link primary secondary) parameters after := by
  constructor
  case wellFormed => exact h.wellFormed hwf
  case keeps => exact h.keeps
  case blank => exact h.blank
  case isSome_iff =>
    intro owner path
    rw [h.found?_eq hwf]
    simp only [Change.recorded, List.mem_cons, List.not_mem_nil, or_false, exists_eq_or_imp,
      exists_eq_left, Change.excluded?, Option.mem_def, Option.some.injEq, forall_eq', ← or_assoc]
    rw [← h.record_primary.found?_isSome_iff, ← h.record_secondary.found?_isSome_iff]
    split_ifs with hheads <;> simp [hheads]
  case found =>
    intro owner path id hfind
    rw [h.found?_eq hwf, Option.ite_none_left_eq_some] at hfind
    obtain ⟨hleft, hfind⟩ := hfind
    obtain ⟨base, atBoth, horigin, hnode, htype, htype', hstatus, hlink⟩ := h.marks hwf hfind
    rw [if_neg fun hend => hleft hend.heads] at hstatus
    refine ⟨base, _, horigin, h.nodeAt?_of_found? hwf hfind hleft hnode, htype, htype', ?_, ?_, ?_⟩
    · simp only [Change.primary?, Option.mem_def, Option.some.injEq, forall_eq']
      intro hend
      rw [hstatus, if_pos hend]
    · simp only [Change.primary?, Option.mem_def, Option.some.injEq, forall_eq']
      intro hend
      rw [hstatus, if_neg hend]
    · intro hend
      simp only
      rw [if_neg (hend primary secondary rfl), hlink]
  case linked =>
    intro primary' secondary' heq
    cases heq
    refine ⟨target, excluded, h.target_at, h.excluded_spec hwf, ?_⟩
    intro id node' hfind hnode
    rw [h.found?_eq hwf, if_neg h.apart, h.found?_both_primary, Option.some.injEq] at hfind
    subst hfind
    rw [h.nodeAt?_eq, if_pos ⟨rfl, rfl⟩] at hnode
    cases hnode
    rfl
  case unreached => exact fun hnode hout _ => h.unreached hnode hout
  case relinked => simp
  case created => exact fun hnode hnone => h.created hnode hnone

theorem effect_relink {primary secondary : MemberPlan} {linked : NodeId} {held : Node}
    {middle after : List Parameter} (hwf : WellFormed parameters)
    (hnode : nodeAt? parameters secondary.owner linked = some held) (hatt : held.attached = false)
    (hrecord : Recorded types primary parameters middle)
    (hstatus : Edited secondary.owner
      (Replaced linked held { held with status := some secondary.status }) middle after) :
    Effect types (.relink primary secondary linked) parameters after := by
  have heffect := effect_record hwf hrecord
  have hout := found?_ne_of_detached hnode hatt
  obtain ⟨hmiddle, hout'⟩ := hrecord.unreached hnode hout
  have hfound := Replaced.found?_eq hstatus
  have hnodes := Replaced.nodeAt?_eq hstatus
  constructor
  case wellFormed =>
    exact hstatus.wellFormed heffect.wellFormed fun hf hreplaced => hreplaced.samePlaces.wellFormed hf
  case keeps =>
    exact heffect.keeps.trans (Edited.keeps hstatus fun hreplaced => hreplaced.samePlaces.keeps)
  case blank => exact hstatus.map_blank.trans heffect.blank
  case isSome_iff =>
    intro owner path
    rw [hfound]
    exact heffect.isSome_iff
  case found =>
    intro owner path id hfind
    rw [hfound] at hfind
    obtain ⟨base, node, horigin, hat, hmarks⟩ := heffect.found hfind
    have hne : ¬ (owner = secondary.owner ∧ id = linked) := by
      rintro ⟨rfl, rfl⟩
      exact hout' path hfind
    exact ⟨base, node, horigin, by rw [hnodes, if_neg hne, hat],
      hmarks.type_on, hmarks.type_off, hmarks.status_on, hmarks.status_off, fun _ =>
        hmarks.link_off (by simp)⟩
  case linked => simp
  case unreached =>
    intro owner id node hat hunreached hne
    rw [hnodes, if_neg (hne primary secondary linked rfl)]
    exact heffect.unreached hat hunreached (by simp)
  case relinked =>
    intro primary' secondary' linked' node heq hat
    cases heq
    rw [hnode] at hat
    cases hat
    rw [hnodes, if_pos ⟨rfl, rfl⟩]
  case created =>
    intro owner id node hat hnone
    have hne : ¬ (owner = secondary.owner ∧ id = linked) := by
      rintro ⟨rfl, rfl⟩
      rw [hnode] at hnone
      cases hnone
    rw [hnodes, if_neg hne] at hat
    exact heffect.created hat hnone

theorem exists_linking {primary secondary : MemberPlan} (hwf : WellFormed parameters)
    (hfits : Fits types parameters)
    (hsound : (Change.link primary secondary).Sound types parameters) :
    ∃ target node excluded held first both middle after,
      carryOut (.link primary secondary) parameters = .ok () after ∧
      Linking types primary secondary target node excluded held parameters first both middle
        after := by
  obtain ⟨hprimary, hsecondary, hapart⟩ := hsound
  obtain ⟨node, first, hrecord, hfirst, hnode⟩ := record_spec hwf hfits hprimary
  have hlen : first.length = parameters.length := by
    simpa using congrArg List.length hfirst.map_blank
  have halong : secondary.Along types first :=
    ⟨by rw [hlen]; exact hsecondary.owner_lt, hsecondary.along⟩
  obtain ⟨excluded, both, hrecord', hboth, hexcluded⟩ :=
    record_spec (hfirst.wellFormed hwf) (hfirst.fits hfits) halong
  obtain ⟨target, htarget⟩ : ∃ target, parameters[secondary.owner]? = some target :=
    ⟨_, List.getElem?_eq_getElem hsecondary.owner_lt⟩
  have hblank : both.map Parameter.blank = parameters.map Parameter.blank :=
    hboth.map_blank.trans hfirst.map_blank
  obtain ⟨target', htarget', hsame⟩ := getElem?_blank hblank htarget
  have hname : target'.blank.name = target.blank.name := by rw [hsame]
  change target'.name = target.name at hname
  obtain ⟨held, hheld, -⟩ := nodeAt?_of_found? (hboth.found?_of_some hnode)
  obtain ⟨middle, after, held', hexclude, hmiddle, hheld', hafter⟩ :=
    exclude_spec hheld hexcluded htarget'
  rw [hname] at hafter
  refine ⟨target, node, excluded, held', first, both, middle, after, ?_,
    ⟨htarget, hapart, hfirst, hnode, hboth, hexcluded, hmiddle, hheld', hafter⟩⟩
  simp only [carryOut, bind, EStateM.bind, hrecord, hrecord', hexclude]

theorem exists_relinking {primary secondary : MemberPlan} {linked : NodeId}
    (hwf : WellFormed parameters) (hfits : Fits types parameters)
    (hsound : (Change.relink primary secondary linked).Sound types parameters) :
    ∃ held middle after, carryOut (.relink primary secondary linked) parameters = .ok () after ∧
      nodeAt? parameters secondary.owner linked = some held ∧ held.attached = false ∧
      Recorded types primary parameters middle ∧ Edited secondary.owner
        (Replaced linked held { held with status := some secondary.status }) middle after := by
  obtain ⟨hprimary, hlinked⟩ := hsound
  obtain ⟨_, _, _, held, -, -, -, -, hnode, hatt, -⟩ := linked?_eq_some.1 hlinked
  obtain ⟨leaf, middle, hrecord, hrecorded, -⟩ := record_spec hwf hfits hprimary
  obtain ⟨hmiddle, -⟩ := hrecorded.unreached hnode (found?_ne_of_detached hnode hatt)
  obtain ⟨parameter, hparam, hat⟩ := Option.bind_eq_some_iff.1 hmiddle
  obtain ⟨after, hset, hafter⟩ := edited_of_onForest hparam
    (setStatus_of_node? hat secondary.status) (replaced_set hat rfl)
  refine ⟨held, middle, after, ?_, hnode, hatt, hrecorded, hafter⟩
  simp only [carryOut, bind, EStateM.bind, hrecord, discard, Functor.discard, Functor.mapConst,
    EStateM.map, Function.comp_apply, hset]

/-- A change that fits the parameters is carried out, with the described effect. -/
theorem carryOut_spec {change : Change} (hwf : WellFormed parameters) (hfits : Fits types parameters)
    (hsound : change.Sound types parameters) :
    ∃ after, carryOut change parameters = .ok () after ∧ Effect types change parameters after := by
  cases change with
  | flag owner status => exact ⟨_, rfl, effect_flag hwf owner status⟩
  | record plan =>
    obtain ⟨leaf, after, hrecord, hrecorded, -⟩ := record_spec hwf hfits hsound
    refine ⟨after, ?_, effect_record hwf hrecorded⟩
    simp only [carryOut, discard, Functor.discard, Functor.mapConst, EStateM.map,
      Function.comp_apply, hrecord]
  | link primary secondary =>
    obtain ⟨_, _, _, _, _, _, _, after, hcarry, hlinking⟩ := exists_linking hwf hfits hsound
    exact ⟨after, hcarry, effect_link hwf hlinking⟩
  | relink primary secondary linked =>
    obtain ⟨held, middle, after, hcarry, hnode, hatt, hrecorded, hstatus⟩ :=
      exists_relinking hwf hfits hsound
    exact ⟨after, hcarry, effect_relink hwf hnode hatt hrecorded hstatus⟩

variable {model : Model} {store : ExprStore} {id : ExprId} {change : Change}

/-- A planned statement is sound for all types that every planned path has. -/
theorem sound_of_planStatement {types : Nat → List Name → Option TypeId}
    (halong : ∀ {status id plan}, planPath model store parameters status id = .ok (.members plan) →
      plan.Along types parameters)
    (h : planStatement model store parameters id = .ok change) : change.Sound types parameters := by
  obtain ⟨status, path, plan, -, hplan, rfl⟩ | ⟨span, status, first, second, -, hplan⟩ :=
    planStatement_cases h
  · cases plan with
    | flag owner status => trivial
    | members plan => exact halong hplan
  · obtain ⟨primary, secondary, hprimary, hsecondary, hdefect, ⟨-, rfl⟩ | ⟨linked, hlinked, rfl⟩⟩ :=
      planAlternation_cases hplan
    · exact ⟨halong hprimary, halong hsecondary, (alternationDefect?_eq_none.1 hdefect).1⟩
    · exact ⟨halong hprimary, hlinked⟩

/-- Plans fit the parameters they are made for. -/
theorem planStatement_sound (h : planStatement model store parameters id = .ok change) :
    change.Sound (plannedType model.types parameters) parameters :=
  sound_of_planStatement (fun hplan => (planPath_members hplan).1) h

/-- A sound statement is recorded, with the effect of its plan. -/
theorem analyzeStatement_of_sound {types : Nat → List Name → Option TypeId}
    (hwf : WellFormed parameters) (hfits : Fits types parameters)
    (h : planStatement model store parameters id = .ok change)
    (hsound : change.Sound types parameters) :
    ∃ after, analyzeStatement model store id parameters = .ok () after ∧
      Effect types change parameters after := by
  obtain ⟨after, hcarry, heffect⟩ := carryOut_spec hwf hfits hsound
  exact ⟨after, by simp only [analyzeStatement, h, hcarry], heffect⟩

/-- A statement that is in order is recorded, with the types of its plan. -/
theorem analyzeStatement_spec (hwf : WellFormed parameters)
    (h : planStatement model store parameters id = .ok change) :
    ∃ after, analyzeStatement model store id parameters = .ok () after ∧
      Effect (plannedType model.types parameters) change parameters after :=
  analyzeStatement_of_sound hwf (fits_plannedType model.types parameters) h (planStatement_sound h)

/-- A recorded statement was in order. -/
theorem plan_of_analyzeStatement {after : List Parameter}
    (h : analyzeStatement model store id parameters = .ok () after) :
    ∃ change, planStatement model store parameters id = .ok change := by
  cases hplan : planStatement model store parameters id with
  | error halt =>
    simp only [analyzeStatement, hplan] at h
    cases h
  | ok change => exact ⟨change, rfl⟩

end InputDetail.Analysis
