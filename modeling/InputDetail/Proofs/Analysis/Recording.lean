import InputDetail.Analysis
import InputDetail.Proofs.Forest.Growth

/-!
# Recording in a list of parameters

Every change of the parameters is a sequence of edits, each of the forest of one parameter. Here
the result of an edit is described for all parameters at once: which node each path leads to, and
what each node holds, also in the forests that the edit does not reach.
-/
namespace InputDetail

namespace Parameter

/-- The parameter with nothing recorded. -/
def blank (parameter : Parameter) : Parameter := { parameter with forest := .empty }

/-- The node that a member path of the parameter at position `owner` leads to. -/
def found? (parameters : List Parameter) (owner : Nat) (path : List Name) : Option NodeId :=
  parameters[owner]?.bind (·.forest.find? path)

/-- A node of the parameter at position `owner`, attached or not. -/
def nodeAt? (parameters : List Parameter) (owner : Nat) (id : NodeId) : Option Node :=
  parameters[owner]?.bind (·.forest.node? id)

/-- The path of a node of the parameter at position `owner`, attached or not. -/
def pathAt? (parameters : List Parameter) (owner : Nat) (id : NodeId) : Option (List Name) :=
  parameters[owner]?.bind (·.forest.path? id)

/-- All forests are well formed. -/
def WellFormed (parameters : List Parameter) : Prop :=
  ∀ ⦃owner : Nat⦄ ⦃parameter : Parameter⦄, parameters[owner]? = some parameter →
    parameter.forest.WellFormed

variable {parameters parameters' : List Parameter} {owner : Nat}

theorem found?_eq {parameter : Parameter} (h : parameters[owner]? = some parameter)
    (path : List Name) : found? parameters owner path = parameter.forest.find? path := by
  rw [found?, h, Option.bind_some]

theorem nodeAt?_eq {parameter : Parameter} (h : parameters[owner]? = some parameter)
    (id : NodeId) : nodeAt? parameters owner id = parameter.forest.node? id := by
  rw [nodeAt?, h, Option.bind_some]

theorem pathAt?_eq {parameter : Parameter} (h : parameters[owner]? = some parameter)
    (id : NodeId) : pathAt? parameters owner id = parameter.forest.path? id := by
  rw [pathAt?, h, Option.bind_some]

/-- Different paths of one parameter lead to different nodes. -/
theorem WellFormed.found?_injective (hwf : WellFormed parameters) {path path' : List Name}
    {id : NodeId} (h : found? parameters owner path = some id)
    (h' : found? parameters owner path' = some id) : path = path' := by
  obtain ⟨parameter, hparam, hfind⟩ := Option.bind_eq_some_iff.1 h
  rw [found?_eq hparam] at h'
  exact (hwf hparam).find?_injective hfind h'

/-- The path that leads to a node is the path of the node. -/
theorem WellFormed.pathAt?_of_found? (hwf : WellFormed parameters) {path : List Name} {id : NodeId}
    (h : found? parameters owner path = some id) : pathAt? parameters owner id = some path := by
  obtain ⟨parameter, hparam, hfind⟩ := Option.bind_eq_some_iff.1 h
  rw [pathAt?_eq hparam]
  exact (hwf hparam).path?_of_find? hfind

/-- Nodes of one name below one parent have the same path. -/
theorem WellFormed.pathAt?_eq_of_siblings (hwf : WellFormed parameters) {id id' : NodeId}
    {node node' : Node} (hnode : nodeAt? parameters owner id = some node)
    (hnode' : nodeAt? parameters owner id' = some node') (hname : node.name = node'.name)
    (hparent : node.parent = node'.parent) :
    pathAt? parameters owner id = pathAt? parameters owner id' := by
  obtain ⟨parameter, hparam, hid⟩ := Option.bind_eq_some_iff.1 hnode
  rw [nodeAt?_eq hparam] at hnode'
  rw [pathAt?_eq hparam, pathAt?_eq hparam, (hwf hparam).path?_eq hid, (hwf hparam).path?_eq hnode',
    hname, hparent]

theorem nodeAt?_of_found? {path : List Name} {id : NodeId}
    (h : found? parameters owner path = some id) :
    ∃ node, nodeAt? parameters owner id = some node ∧ node.attached = true := by
  obtain ⟨parameter, hparam, hfind⟩ := Option.bind_eq_some_iff.1 h
  obtain ⟨node, hnode, hatt⟩ := Forest.node?_of_find? hfind
  exact ⟨node, by rw [nodeAt?_eq hparam, hnode], hatt⟩

/-- No path leads to a detached node. -/
theorem found?_ne_of_detached {id : NodeId} {node : Node}
    (hnode : nodeAt? parameters owner id = some node) (hatt : node.attached = false)
    (path : List Name) : found? parameters owner path ≠ some id := by
  intro hfind
  obtain ⟨node', hnode', hatt'⟩ := nodeAt?_of_found? hfind
  rw [hnode] at hnode'
  cases hnode'
  rw [hatt] at hatt'
  cases hatt'

/-- Whoever finds a path finds every shorter one. -/
theorem found?_isSome_of_prefix {short long : List Name} (hne : short ≠ []) (hpre : short <+: long)
    (h : (found? parameters owner long).isSome) : (found? parameters owner short).isSome := by
  cases hparam : parameters[owner]? with
  | none => simp [found?, hparam] at h
  | some parameter =>
    rw [found?_eq hparam] at h ⊢
    exact Forest.find?_isSome_of_prefix hne hpre h

/-- The lists differ in the forest of one parameter, and `change` relates the two forests. -/
def Edited (owner : Nat) (change : Forest → Forest → Prop) (parameters parameters' : List Parameter) :
    Prop :=
  ∃ parameter forest, parameters[owner]? = some parameter ∧ change parameter.forest forest ∧
    parameters' = parameters.set owner { parameter with forest }

variable {change : Forest → Forest → Prop}

theorem Edited.getElem?_ne (h : Edited owner change parameters parameters') {other : Nat}
    (hne : other ≠ owner) : parameters'[other]? = parameters[other]? := by
  obtain ⟨parameter, forest, -, -, rfl⟩ := h
  rw [List.getElem?_set_ne hne.symm]

theorem getElem?_set_owner {parameter : Parameter} (hparam : parameters[owner]? = some parameter)
    (replaced : Parameter) : (parameters.set owner replaced)[owner]? = some replaced := by
  have hlt : owner < parameters.length := (List.getElem?_eq_some_iff.1 hparam).1
  rw [List.getElem?_set_self hlt]

theorem Edited.getElem?_self (h : Edited owner change parameters parameters') :
    ∃ parameter forest, parameters[owner]? = some parameter ∧ change parameter.forest forest ∧
      parameters'[owner]? = some { parameter with forest } := by
  obtain ⟨parameter, forest, hparam, hchange, rfl⟩ := h
  exact ⟨parameter, forest, hparam, hchange, getElem?_set_owner hparam _⟩

/-- Edits of forests leave everything else of the parameters as it was. -/
theorem Edited.map_blank (h : Edited owner change parameters parameters') :
    parameters'.map blank = parameters.map blank := by
  obtain ⟨parameter, forest, hparam, -, rfl⟩ := h
  apply List.ext_getElem?
  intro index
  simp only [List.getElem?_map]
  by_cases hindex : index = owner
  · subst hindex
    rw [getElem?_set_owner hparam, hparam]
    rfl
  · rw [List.getElem?_set_ne (Ne.symm hindex)]

theorem getElem?_blank (h : parameters'.map blank = parameters.map blank) {parameter : Parameter}
    (hparam : parameters[owner]? = some parameter) :
    ∃ parameter', parameters'[owner]? = some parameter' ∧ parameter'.blank = parameter.blank := by
  have hget := congrArg (·[owner]?) h
  simp only [List.getElem?_map, hparam, Option.map_some] at hget
  obtain ⟨parameter', hparam', hblank⟩ := Option.map_eq_some_iff.1 hget
  exact ⟨parameter', hparam', hblank⟩

theorem Edited.wellFormed (h : Edited owner change parameters parameters')
    (hwf : WellFormed parameters)
    (hchange : ∀ {forest forest'}, forest.WellFormed → change forest forest' → forest'.WellFormed) :
    WellFormed parameters' := by
  intro other parameter' hparam'
  by_cases hother : other = owner
  · subst hother
    obtain ⟨parameter, forest, hparam, hedit, hself⟩ := h.getElem?_self
    rw [hself] at hparam'
    cases hparam'
    exact hchange (hwf hparam) hedit
  · rw [h.getElem?_ne hother] at hparam'
    exact hwf hparam'

/-- All nodes are kept, with their names and their parents. -/
def Keeps (parameters parameters' : List Parameter) : Prop :=
  ∀ ⦃owner : Nat⦄ ⦃parameter : Parameter⦄, parameters[owner]? = some parameter →
    ∃ parameter', parameters'[owner]? = some parameter' ∧ parameter.forest.Keeps parameter'.forest

theorem Edited.keeps (h : Edited owner change parameters parameters')
    (hchange : ∀ {forest forest'}, change forest forest' → forest.Keeps forest') :
    Keeps parameters parameters' := by
  intro other parameter hparam
  by_cases hother : other = owner
  · subst hother
    obtain ⟨parameter', forest, hparam', hedit, hself⟩ := h.getElem?_self
    rw [hparam] at hparam'
    cases hparam'
    exact ⟨_, hself, hchange hedit⟩
  · exact ⟨parameter, by rw [h.getElem?_ne hother, hparam], Forest.Keeps.refl _⟩

theorem Keeps.refl (parameters : List Parameter) : Keeps parameters parameters :=
  fun _ parameter hparam => ⟨parameter, hparam, Forest.Keeps.refl _⟩

theorem Keeps.trans {parameters'' : List Parameter} (h : Keeps parameters parameters')
    (h' : Keeps parameters' parameters'') : Keeps parameters parameters'' := by
  intro owner parameter hparam
  obtain ⟨parameter', hparam', hkeeps⟩ := h hparam
  obtain ⟨parameter'', hparam'', hkeeps'⟩ := h' hparam'
  exact ⟨parameter'', hparam'', hkeeps.trans hkeeps'⟩

theorem Keeps.node (h : Keeps parameters parameters') {id : NodeId} {node : Node}
    (hnode : nodeAt? parameters owner id = some node) :
    ∃ node', nodeAt? parameters' owner id = some node' ∧ node'.name = node.name ∧
      node'.parent = node.parent := by
  obtain ⟨parameter, hparam, hid⟩ := Option.bind_eq_some_iff.1 hnode
  obtain ⟨parameter', hparam', hkeeps⟩ := h hparam
  obtain ⟨node', hnode', hplace⟩ := hkeeps hid
  exact ⟨node', by rw [nodeAt?_eq hparam', hnode'], hplace⟩

theorem Keeps.node_exists (h : Keeps parameters parameters') {id : NodeId} {node : Node}
    (hnode : nodeAt? parameters owner id = some node) :
    ∃ node', nodeAt? parameters' owner id = some node' := by
  obtain ⟨node', hnode', -⟩ := h.node hnode
  exact ⟨node', hnode'⟩

/-- Kept nodes keep their paths. -/
theorem Keeps.pathAt?_eq (h : Keeps parameters parameters') (hwf : WellFormed parameters)
    (hwf' : WellFormed parameters') {id : NodeId} {node : Node}
    (hnode : nodeAt? parameters owner id = some node) :
    pathAt? parameters' owner id = pathAt? parameters owner id := by
  obtain ⟨parameter, hparam, hid⟩ := Option.bind_eq_some_iff.1 hnode
  obtain ⟨parameter', hparam', hkeeps⟩ := h hparam
  rw [Parameter.pathAt?_eq hparam, Parameter.pathAt?_eq hparam']
  exact hkeeps.path?_eq (hwf hparam) (hwf' hparam') (by rw [hid]; rfl)

end Parameter

namespace Analysis

open Parameter Forest

variable {parameters parameters' : List Parameter} {owner : Nat}

theorem onForest_of_getElem? {α : Type} {parameter : Parameter}
    (hparam : parameters[owner]? = some parameter) {edit : Forest.Edit α} {a : α} {forest : Forest}
    (hedit : edit parameter.forest = .ok a forest) :
    onForest owner edit parameters = .ok a (parameters.set owner { parameter with forest }) := by
  simp only [onForest, hparam, hedit]

/-- A recorder that edits nothing but the forest of the parameter at position `owner`. -/
def OnForest {α : Type} (owner : Nat) (recorder : Recorder α) (edit : Forest.Edit α) : Prop :=
  ∀ parameters : List Parameter, owner < parameters.length →
    recorder parameters = onForest owner edit parameters

theorem onForest_self {α : Type} (owner : Nat) (edit : Forest.Edit α) :
    OnForest owner (onForest owner edit) edit := fun _ _ => rfl

theorem onForest_pure {α : Type} (owner : Nat) (a : α) : OnForest owner (pure a) (pure a) := by
  intro parameters hlt
  have hparam : parameters[owner]? = some parameters[owner] := List.getElem?_eq_getElem hlt
  have hset : parameters.set owner parameters[owner] = parameters := List.set_getElem_self hlt
  have hpure : (pure a : Forest.Edit α) parameters[owner].forest = .ok a _ := rfl
  rw [onForest_of_getElem? hparam hpure, hset]
  rfl

theorem onForest_bind {α β : Type} {first : Recorder α} {edit : Forest.Edit α}
    {next : α → Recorder β} {nextEdit : α → Forest.Edit β} (h : OnForest owner first edit)
    (hnext : ∀ a, OnForest owner (next a) (nextEdit a)) :
    OnForest owner (first >>= next) (edit >>= nextEdit) := by
  intro parameters hlt
  have hparam : parameters[owner]? = some parameters[owner] := List.getElem?_eq_getElem hlt
  show EStateM.bind first next parameters = onForest owner (EStateM.bind edit nextEdit) parameters
  simp only [EStateM.bind, h parameters hlt, onForest, hparam]
  cases hedit : edit parameters[owner].forest with
  | error e forest => rfl
  | ok a forest =>
    simp only
    rw [hnext a _ (by rw [List.length_set]; exact hlt)]
    simp only [onForest, getElem?_set_owner hparam, List.set_set]

theorem onForest_foldlM {α β : Type} {step : α → β → Recorder α} {edit : α → β → Forest.Edit α}
    (h : ∀ a b, OnForest owner (step a b) (edit a b)) (bs : List β) (a : α) :
    OnForest owner (bs.foldlM step a) (bs.foldlM edit a) := by
  induction bs generalizing a with
  | nil => exact onForest_pure owner a
  | cons b bs ih =>
    simp only [List.foldlM_cons]
    exact onForest_bind (h a b) ih

theorem onForest_visit (owner : Nat) (parent : Option NodeId) (member : Member) :
    OnForest owner (visit owner parent member) (Forest.visit parent member) := by
  refine onForest_bind (onForest_self owner _) fun result => ?_
  exact onForest_bind (onForest_self owner _) fun _ => onForest_pure owner result.1

/-- Recording a path is one edit of one forest. -/
theorem onForest_record (plan : MemberPlan) :
    OnForest plan.owner (record plan) (Forest.enter plan.first plan.later plan.status) := by
  refine onForest_bind (onForest_visit plan.owner none plan.first) fun root => ?_
  refine onForest_bind ?_ fun leaf => ?_
  · exact onForest_foldlM (fun parent => onForest_visit plan.owner (some parent)) plan.later root
  · exact onForest_bind (onForest_self plan.owner _) fun _ => onForest_pure plan.owner leaf

/-- The types of all known nodes agree with `types`, which tells the type of every path of every
parameter. -/
def Fits (types : Nat → List Name → Option TypeId) (parameters : List Parameter) : Prop :=
  ∀ ⦃owner : Nat⦄ ⦃parameter : Parameter⦄, parameters[owner]? = some parameter →
    parameter.forest.Fits (types owner)

namespace MemberPlan

/-- A planned path of an existing parameter, with the types that `types` tells. -/
structure Along (types : Nat → List Name → Option TypeId) (plan : MemberPlan)
    (parameters : List Parameter) : Prop where
  owner_lt : plan.owner < parameters.length
  along : Forest.Along (types plan.owner) [] (plan.first :: plan.later)

/-- The planned path itself. -/
def EndsAt (plan : MemberPlan) (owner : Nat) (path : List Name) : Prop :=
  owner = plan.owner ∧ path = plan.path

/-- The paths on the way down the planned path. -/
def Passes (plan : MemberPlan) (owner : Nat) (path : List Name) : Prop :=
  owner = plan.owner ∧ OnWay plan.path path

/-- The planned path and the paths below it. -/
def Heads (plan : MemberPlan) (owner : Nat) (path : List Name) : Prop :=
  owner = plan.owner ∧ plan.path <+: path

instance (plan : MemberPlan) (owner : Nat) (path : List Name) : Decidable (plan.EndsAt owner path) :=
  inferInstanceAs (Decidable (_ ∧ _))

instance (plan : MemberPlan) (owner : Nat) (path : List Name) : Decidable (plan.Passes owner path) :=
  inferInstanceAs (Decidable (_ ∧ _ ∧ _))

instance (plan : MemberPlan) (owner : Nat) (path : List Name) : Decidable (plan.Heads owner path) :=
  inferInstanceAs (Decidable (_ ∧ _))

variable {plan : MemberPlan} {owner : Nat} {path : List Name}

theorem path_ne_nil (plan : MemberPlan) : plan.path ≠ [] := List.cons_ne_nil _ _

theorem EndsAt.passes (h : plan.EndsAt owner path) : plan.Passes owner path :=
  ⟨h.1, by rw [h.2]; exact onWay_self plan.path_ne_nil⟩

theorem EndsAt.heads (h : plan.EndsAt owner path) : plan.Heads owner path :=
  ⟨h.1, h.2 ▸ List.prefix_refl _⟩

end MemberPlan

theorem MemberPlan.Along.isSome {types : Nat → List Name → Option TypeId} {plan : MemberPlan}
    (h : plan.Along types parameters) {path : List Name} (hway : plan.Passes owner path) :
    (types owner path).isSome := by
  obtain ⟨rfl, hne, hpre⟩ := hway
  exact h.along.isSome List.nil_prefix hne hpre

/-- `parameters'` is `parameters` after recording `plan`. -/
abbrev Recorded (types : Nat → List Name → Option TypeId) (plan : MemberPlan) :
    List Parameter → List Parameter → Prop :=
  Edited plan.owner (Grown (types plan.owner) (some plan.status) plan.path)

variable {types : Nat → List Name → Option TypeId} {plan : MemberPlan}

/-- A planned path can always be recorded. -/
theorem record_spec (hwf : WellFormed parameters) (hfits : Fits types parameters)
    (hplan : plan.Along types parameters) :
    ∃ leaf after, record plan parameters = .ok leaf after ∧ Recorded types plan parameters after ∧
      found? after plan.owner plan.path = some leaf := by
  obtain ⟨parameter, hparam⟩ : ∃ parameter, parameters[plan.owner]? = some parameter :=
    ⟨_, List.getElem?_eq_getElem hplan.owner_lt⟩
  obtain ⟨leaf, forest, henter, hgrown, hleaf⟩ :=
    (hwf hparam).enter_spec (hfits hparam) hplan.along plan.status
  refine ⟨leaf, _, ?_, ⟨_, forest, hparam, hgrown, rfl⟩, ?_⟩
  · rw [onForest_record plan _ hplan.owner_lt, onForest_of_getElem? hparam henter]
  · rw [found?_eq (getElem?_set_owner hparam _)]
    exact hleaf

theorem Recorded.wellFormed (h : Recorded types plan parameters parameters')
    (hwf : WellFormed parameters) : WellFormed parameters' :=
  Edited.wellFormed h hwf fun _ hgrown => hgrown.wellFormed

theorem Recorded.fits (h : Recorded types plan parameters parameters')
    (hfits : Fits types parameters) : Fits types parameters' := by
  intro other parameter' hparam'
  by_cases hother : other = plan.owner
  · subst hother
    obtain ⟨parameter, forest, hparam, hgrown, hself⟩ := h.getElem?_self
    rw [hself] at hparam'
    cases hparam'
    exact hgrown.fits (hfits hparam)
  · rw [h.getElem?_ne hother] at hparam'
    exact hfits hparam'

/-- The node at the end of a path: it was there before, or it is new and there was none. -/
def Origin (parameters : List Parameter) (owner : Nat) (path : List Name) (id : NodeId)
    (base : Node) : Prop :=
  found? parameters owner path = some id ∧ nodeAt? parameters owner id = some base ∨
    found? parameters owner path = none ∧ nodeAt? parameters owner id = none ∧
      ∃ name parent, base = .new name parent

/-- Off the way every path leads where it led before. -/
theorem Recorded.found?_off (h : Recorded types plan parameters parameters') {path : List Name}
    (hoff : ¬ plan.Passes owner path) :
    found? parameters' owner path = found? parameters owner path := by
  by_cases howner : owner = plan.owner
  · subst howner
    obtain ⟨parameter, forest, hparam, hgrown, hself⟩ := h.getElem?_self
    rw [found?_eq hself, found?_eq hparam]
    exact hgrown.find?_off path fun hway => hoff ⟨rfl, hway⟩
  · rw [found?, found?, h.getElem?_ne howner]

/-- On the way there is a visited node, either the old one or a new one. -/
theorem Recorded.found?_on (h : Recorded types plan parameters parameters') {path : List Name}
    (hway : plan.Passes owner path) : ∃ id base, found? parameters' owner path = some id ∧
      nodeAt? parameters' owner id = some (base.visited (types owner path)
        (if path = plan.path then some plan.status else none)) ∧
      Origin parameters owner path id base := by
  obtain ⟨rfl, hway⟩ := hway
  obtain ⟨parameter, forest, hparam, hgrown, hself⟩ := h.getElem?_self
  obtain ⟨id, base, hfind, hnode, hbase⟩ := hgrown.find?_on path hway
  refine ⟨id, base, ?_, ?_, ?_⟩
  · rw [found?_eq hself]
    exact hfind
  · rw [nodeAt?_eq hself]
    exact hnode
  · rw [Origin, found?_eq hparam, nodeAt?_eq hparam]
    exact hbase

/-- Nodes that are not on the way are as they were. -/
theorem Recorded.nodeAt?_off (h : Recorded types plan parameters parameters') {id : NodeId}
    (hoff : ∀ path, plan.Passes owner path → found? parameters' owner path ≠ some id) :
    nodeAt? parameters' owner id = nodeAt? parameters owner id := by
  by_cases howner : owner = plan.owner
  · subst howner
    obtain ⟨parameter, forest, hparam, hgrown, hself⟩ := h.getElem?_self
    rw [nodeAt?_eq hself, nodeAt?_eq hparam]
    apply hgrown.node?_off
    intro path hway hfind
    exact hoff path ⟨rfl, hway⟩ (by rw [found?_eq hself]; exact hfind)
  · rw [nodeAt?, nodeAt?, h.getElem?_ne howner]

/-- A path that was there still leads to the same node. -/
theorem Recorded.found?_of_some (h : Recorded types plan parameters parameters') {path : List Name}
    {id : NodeId} (hfind : found? parameters owner path = some id) :
    found? parameters' owner path = some id := by
  by_cases hway : plan.Passes owner path
  · obtain ⟨id', base, hfind', -, ⟨hold, -⟩ | ⟨hnone, -⟩⟩ := h.found?_on hway
    · rw [hfind', ← hold, hfind]
    · rw [hfind] at hnone
      cases hnone
  · rw [h.found?_off hway, hfind]

/-- Exactly the paths on the way are added. -/
theorem Recorded.found?_isSome_iff (h : Recorded types plan parameters parameters')
    {path : List Name} : (found? parameters' owner path).isSome ↔
      (found? parameters owner path).isSome ∨ plan.Passes owner path := by
  by_cases hway : plan.Passes owner path
  · obtain ⟨id, base, hfind, -⟩ := h.found?_on hway
    simp [hfind, hway]
  · simp [h.found?_off hway, hway]

/-- The node at the end of any path afterwards. -/
theorem Recorded.found (h : Recorded types plan parameters parameters') (hwf : WellFormed parameters)
    {path : List Name} {id : NodeId} (hfind : found? parameters' owner path = some id) :
    ∃ base node, Origin parameters owner path id base ∧ nodeAt? parameters' owner id = some node ∧
      node.type = (if plan.Passes owner path then types owner path else base.type) ∧
      node.status = (if plan.EndsAt owner path then some plan.status else base.status) ∧
      node.link = base.link := by
  by_cases hway : plan.Passes owner path
  · obtain ⟨id', base, hfind', hnode, horigin⟩ := h.found?_on hway
    obtain rfl : id = id' := Option.some.inj (hfind.symm.trans hfind')
    refine ⟨base, _, horigin, hnode, by rw [if_pos hway]; rfl, ?_, rfl⟩
    simp only [Node.visited, MemberPlan.EndsAt, hway.1, true_and]
    split_ifs <;> rfl
  · have hoff : ∀ other, plan.Passes owner other → found? parameters' owner other ≠ some id := by
      intro other hother hfound
      exact hway ((h.wellFormed hwf).found?_injective hfound hfind ▸ hother)
    have hold := hfind
    rw [h.found?_off hway] at hold
    obtain ⟨node, hnode, -⟩ := nodeAt?_of_found? hold
    refine ⟨node, node, Or.inl ⟨hold, hnode⟩, by rw [h.nodeAt?_off hoff, hnode], ?_, ?_, rfl⟩
    · rw [if_neg hway]
    · rw [if_neg fun hend => hway hend.passes]

theorem Recorded.keeps (h : Recorded types plan parameters parameters') :
    Keeps parameters parameters' :=
  Edited.keeps h fun hgrown => hgrown.keeps

/-- Two recordings one after the other: the origin of a node before the second, traced back to
before the first. -/
theorem Recorded.origin (h : Recorded types plan parameters parameters') (hwf : WellFormed parameters)
    {path : List Name} {id : NodeId} {node : Node} (horigin : Origin parameters' owner path id node) :
    ∃ base, Origin parameters owner path id base ∧
      node.type = (if plan.Passes owner path then types owner path else base.type) ∧
      node.status = (if plan.EndsAt owner path then some plan.status else base.status) ∧
      node.link = base.link := by
  obtain ⟨hfind, hnode⟩ | ⟨hnone, hnew, hbase⟩ := horigin
  · obtain ⟨base, node', horigin, hnode', hmarks⟩ := h.found hwf hfind
    rw [hnode] at hnode'
    cases hnode'
    exact ⟨base, horigin, hmarks⟩
  · have hway : ¬ plan.Passes owner path := by
      intro hway
      obtain ⟨id', base, hfind, -⟩ := h.found?_on hway
      rw [hfind] at hnone
      cases hnone
    refine ⟨node, Or.inr ⟨by rw [← h.found?_off hway, hnone], ?_, hbase⟩, ?_, ?_, rfl⟩
    · cases hold : nodeAt? parameters owner id with
      | none => rfl
      | some old =>
        obtain ⟨node', hnode'⟩ := h.keeps.node_exists hold
        rw [hnew] at hnode'
        cases hnode'
    · rw [if_neg hway]
    · rw [if_neg fun hend => hway hend.passes]

/-- Nodes that no path leads to stay as they are and out of reach. -/
theorem Recorded.unreached (h : Recorded types plan parameters parameters') {id : NodeId}
    {node : Node} (hnode : nodeAt? parameters owner id = some node)
    (hout : ∀ path, found? parameters owner path ≠ some id) :
    nodeAt? parameters' owner id = some node ∧ ∀ path, found? parameters' owner path ≠ some id := by
  have hout' : ∀ path, found? parameters' owner path ≠ some id := by
    intro path hfind
    by_cases hway : plan.Passes owner path
    · obtain ⟨id', base, hfind', -, ⟨hold, -⟩ | ⟨-, hnone, -⟩⟩ := h.found?_on hway
      · obtain rfl : id = id' := Option.some.inj (hfind.symm.trans hfind')
        exact hout path hold
      · obtain rfl : id = id' := Option.some.inj (hfind.symm.trans hfind')
        rw [hnode] at hnone
        cases hnone
    · exact hout path (by rw [← h.found?_off hway, hfind])
  exact ⟨by rw [h.nodeAt?_off fun path _ => hout' path, hnode], hout'⟩

/-- New nodes are on the way, where no path led before. -/
theorem Recorded.created (h : Recorded types plan parameters parameters') {id : NodeId} {node : Node}
    (hnode : nodeAt? parameters' owner id = some node) (hnone : nodeAt? parameters owner id = none) :
    ∃ path, plan.Passes owner path ∧ found? parameters owner path = none := by
  by_contra hno
  rw [h.nodeAt?_off, hnone] at hnode
  · cases hnode
  · intro path hway hfind
    obtain ⟨id', base, hfind', -, ⟨hold, hbase⟩ | ⟨hnew, -⟩⟩ := h.found?_on hway
    · obtain rfl : id = id' := Option.some.inj (hfind.symm.trans hfind')
      rw [hnone] at hbase
      cases hbase
    · exact hno ⟨path, hway, hnew⟩

theorem get_bind {α : Type} (next : List Parameter → Recorder α) (parameters : List Parameter) :
    (get >>= next) parameters = next parameters parameters := rfl

/-- Excluding a node takes two edits, if there is a parameter to exclude it from. -/
theorem exclude_apply (owner : Nat) (node : NodeId) (excludedOwner : Nat) (excluded : NodeId)
    (parameters : List Parameter) : exclude owner node excludedOwner excluded parameters =
      parameters[excludedOwner]?.elim (.error .brokenReference parameters) fun target =>
        EStateM.bind (onForest excludedOwner (Forest.detach excluded))
          (fun _ => onForest owner (Forest.setLink node ⟨target.name, excluded⟩)) parameters := by
  rw [exclude, get_bind]
  cases parameters[excludedOwner]? <;> rfl

/-- One node is replaced by another that stands at the same place. -/
def Replaced (id : NodeId) (node node' : Node) (forest forest' : Forest) : Prop :=
  forest.node? id = some node ∧ node'.place = node.place ∧ forest' = forest.set id node'

theorem replaced_set {forest : Forest} {id : NodeId} {node node' : Node}
    (hnode : forest.node? id = some node) (hplace : node'.place = node.place) :
    Replaced id node node' forest (forest.set id node') :=
  ⟨hnode, hplace, rfl⟩

theorem Replaced.samePlaces {id : NodeId} {node node' : Node} {forest forest' : Forest}
    (h : Replaced id node node' forest forest') : forest.SamePlaces forest' := by
  obtain ⟨hnode, hplace, rfl⟩ := h
  exact samePlaces_set hnode hplace

variable {id : NodeId} {node node' : Node}

theorem Replaced.found?_eq (h : Edited owner (Replaced id node node') parameters parameters')
    (other : Nat) (path : List Name) :
    found? parameters' other path = found? parameters other path := by
  by_cases hother : other = owner
  · subst hother
    obtain ⟨parameter, forest, hparam, hreplaced, hself⟩ := h.getElem?_self
    rw [Parameter.found?_eq hself, Parameter.found?_eq hparam]
    exact hreplaced.samePlaces.find?_eq path
  · rw [found?, found?, h.getElem?_ne hother]

theorem Replaced.nodeAt?_eq (h : Edited owner (Replaced id node node') parameters parameters')
    (other : Nat) (otherId : NodeId) : nodeAt? parameters' other otherId =
      if other = owner ∧ otherId = id then some node' else nodeAt? parameters other otherId := by
  by_cases hother : other = owner
  · subst hother
    obtain ⟨parameter, forest, hparam, ⟨hnode, -, rfl⟩, hself⟩ := h.getElem?_self
    rw [Parameter.nodeAt?_eq hself, Parameter.nodeAt?_eq hparam]
    simpa using node?_set hnode otherId
  · rw [nodeAt?, nodeAt?, h.getElem?_ne hother, if_neg fun hsame => hother hsame.1]

/-- Detaching the node at the end of a path takes away that path and all paths through it. -/
theorem Detached.found?_eq (h : Edited owner (Detached id) parameters parameters')
    (hwf : WellFormed parameters) {path : List Name} (hpath : found? parameters owner path = some id)
    (other : Nat) (otherPath : List Name) : found? parameters' other otherPath =
      if other = owner ∧ path <+: otherPath then none else found? parameters other otherPath := by
  by_cases hother : other = owner
  · subst hother
    obtain ⟨parameter, forest, hparam, hdetached, hself⟩ := h.getElem?_self
    rw [Parameter.found?_eq hparam] at hpath
    rw [Parameter.found?_eq hself, Parameter.found?_eq hparam]
    simpa using hdetached.find?_eq (hwf hparam) hpath otherPath
  · rw [found?, found?, h.getElem?_ne hother, if_neg fun hsame => hother hsame.1]

theorem Detached.nodeAt?_ne (h : Edited owner (Detached id) parameters parameters') {other : Nat}
    {otherId : NodeId} (hne : ¬ (other = owner ∧ otherId = id)) :
    nodeAt? parameters' other otherId = nodeAt? parameters other otherId := by
  by_cases hother : other = owner
  · subst hother
    obtain ⟨parameter, forest, hparam, ⟨node, -, -, hafter⟩, hself⟩ := h.getElem?_self
    rw [Parameter.nodeAt?_eq hself, Parameter.nodeAt?_eq hparam]
    exact (hafter otherId).trans (if_neg fun hid => hne ⟨rfl, hid⟩)
  · rw [nodeAt?, nodeAt?, h.getElem?_ne hother]

theorem Detached.nodeAt?_self (h : Edited owner (Detached id) parameters parameters') :
    ∃ node, nodeAt? parameters owner id = some node ∧
      nodeAt? parameters' owner id = some { node with attached := false } := by
  obtain ⟨parameter, forest, hparam, ⟨node, hnode, -, hafter⟩, hself⟩ := h.getElem?_self
  refine ⟨node, by rw [Parameter.nodeAt?_eq hparam, hnode], ?_⟩
  rw [Parameter.nodeAt?_eq hself]
  exact (hafter id).trans (if_pos rfl)

end Analysis

end InputDetail
