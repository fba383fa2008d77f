import InputDetail.Proofs.Analysis.Fates
import InputDetail.Proofs.Analysis.Independence
import InputDetail.Proofs.Forest.Walk

/-!
# Attached nodes

A node is detached only if nothing is below it. So every attached node is at the end of a path, and
nothing is ever below a detached one.
-/
namespace InputDetail.Analysis

open Parameter

/-- A path leads to every attached node. -/
def Rooted (parameters : List Parameter) : Prop :=
  ∀ ⦃owner id node⦄, nodeAt? parameters owner id = some node → node.attached = true →
    ∃ path, found? parameters owner path = some id

variable {types : Nat → List Name → Option TypeId} {change : Change}
  {parameters after : List Parameter}

/-- Recording one more statement. -/
theorem Rooted.step (h : Rooted parameters) (houtcome : Outcome types change parameters after) :
    Rooted after := by
  intro owner id node hnode hatt
  cases houtcome.fate hnode with
  | found path hfind => exact ⟨path, hfind⟩
  | excluded _ secondary _ _ howner _ hexcluded _ =>
    subst howner
    obtain ⟨hout, -⟩ := hexcluded.holds hnode
    rw [hatt] at hout
    cases hout
  | unreached base status hbefore hout hsame =>
    subst hsame
    obtain ⟨path, hfind⟩ := h hbefore hatt
    exact absurd hfind (hout path)

theorem Reachable.rooted (h : Reachable parameters) : Rooted parameters := by
  induction h with
  | start nothing =>
    intro owner id node hnode
    obtain ⟨parameter, hparam, hid⟩ := Option.bind_eq_some_iff.1 hnode
    rw [nothing parameter (List.mem_of_getElem? hparam)] at hid
    cases hid
  | @analysis parameters before model document ih =>
    refine stateAfter_of_step before.built.wellFormed ih fun hwf hrooted hok => ?_
    obtain ⟨change, -, houtcome⟩ := outcome_of_analyzeStatement hwf hok
    exact hrooted.step houtcome

/-- Nothing is below a detached node. -/
theorem Rooted.hasChildren_eq_false (h : Rooted parameters) {owner : Nat} {parameter : Parameter}
    (hparam : parameters[owner]? = some parameter) {id : NodeId} {node : Node}
    (hnode : parameter.forest.node? id = some node) (hatt : node.attached = false) :
    parameter.forest.hasChildren id = false := by
  rw [Forest.hasChildren_eq_false_iff]
  intro name
  rw [Forest.child?_eq_none_iff]
  rintro child ⟨held, hheld, -, hheldAtt, hparent⟩
  obtain ⟨path, hfind⟩ := h (by rw [nodeAt?_eq hparam, hheld]) hheldAtt
  rw [found?_eq hparam] at hfind
  obtain ⟨above, last, rfl⟩ :=
    List.eq_nil_or_concat' path |>.resolve_left (Forest.ne_nil_of_find? hfind)
  obtain ⟨position, hseek, hchild⟩ := Forest.find?_concat_eq_some.1 hfind
  obtain ⟨held', hheld', -, -, hparent'⟩ := Forest.isChild_of_child? hchild
  rw [hheld] at hheld'
  cases hheld'
  rw [hparent] at hparent'
  subst hparent'
  obtain ⟨node', hnode', hatt'⟩ := Forest.node?_of_find? (Forest.seek_eq_some_some.1 hseek)
  rw [hnode] at hnode'
  cases hnode'
  rw [hatt] at hatt'
  cases hatt'

section

variable {owner : Nat} {parameter : Parameter} {id : NodeId} {model : Model} {store : ExprStore}
  {root : ExprId}

/-- The walk takes in the attached nodes. -/
theorem Rooted.mem_walk (h : Rooted parameters) (hwf : WellFormed parameters)
    (hparam : parameters[owner]? = some parameter) {node : Node}
    (hnode : parameter.forest.node? id = some node) :
    id ∈ parameter.forest.walk ↔ node.attached = true := by
  rw [(hwf hparam).mem_walk]
  constructor
  · rintro ⟨path, hfind⟩
    obtain ⟨node', hnode', hatt⟩ := Forest.node?_of_find? hfind
    rw [hnode] at hnode'
    cases hnode'
    exact hatt
  · intro hatt
    obtain ⟨path, hfind⟩ := h (by rw [nodeAt?_eq hparam, hnode]) hatt
    rw [found?_eq hparam] at hfind
    exact ⟨path, hfind⟩

/-- A statement takes no path out of the forest but the one that it excludes. -/
theorem found?_or_excluded {path : List Name}
    (hplan : planStatement model store parameters root = .ok change)
    (heffect : Effect types change parameters after) (hfind : found? parameters owner path = some id) :
    found? after owner path = some id ∨ ∃ gone ∈ excluded? store root,
      position? parameters gone.parameter = some owner ∧ gone.members = path := by
  by_cases hleft : ∃ secondary ∈ change.excluded?, secondary.Heads owner path
  · obtain ⟨secondary, hsecondary, hheads⟩ := hleft
    have hbelow := nothing_below_of_planStatement hplan hsecondary
    have hend := hheads.eq_of_nothing_below hbelow (by rw [hfind]; rfl)
    obtain ⟨-, hexcluded, -⟩ := locates_of_planStatement hplan
    obtain ⟨gone, hgone, hmembers, _, hlocate⟩ := hexcluded secondary hsecondary
    have hposition : position? parameters gone.parameter = some owner :=
      hheads.1 ▸ (locate?_eq_some.1 hlocate).1
    exact Or.inr ⟨gone, hgone, hposition, by rw [hend, hmembers]⟩
  · exact Or.inl (heffect.found?_of_some hfind fun secondary hsecondary hheads =>
      hleft ⟨secondary, hsecondary, hheads⟩)

/-- A statement takes no node out of the walk but the one at the end of the path that it excludes. -/
theorem mem_walk_after (hwf : WellFormed parameters) (hparam : parameters[owner]? = some parameter) :
    ∃ parameter', (stateAfter model ⟨store, [root]⟩ parameters)[owner]? = some parameter' ∧
      ∀ id ∈ parameter.forest.walk, id ∈ parameter'.forest.walk ∨
        ∃ gone ∈ excluded? store root, position? parameters gone.parameter = some owner ∧
          parameter.forest.find? gone.members = some id := by
  unfold stateAfter
  rw [analyze_singleton]
  cases hresult : analyzeStatement model store root parameters with
  | error halt left =>
    obtain ⟨-, rfl⟩ := plan_of_analyzeStatement_error hwf hresult
    exact ⟨parameter, hparam, fun id hmem => Or.inl hmem⟩
  | ok _ after =>
    obtain ⟨change, hplan, heffect⟩ := effect_of_analyzeStatement hwf hresult
    obtain ⟨parameter', hparam', -⟩ := heffect.keeps hparam
    refine ⟨parameter', hparam', fun id hmem => ?_⟩
    obtain ⟨path, hfind⟩ := (hwf hparam).mem_walk.1 hmem
    rw [(heffect.wellFormed hparam').mem_walk]
    obtain hkept | ⟨gone, hgone, hposition, rfl⟩ :=
      found?_or_excluded hplan heffect (by rw [found?_eq hparam, hfind])
    · rw [found?_eq hparam'] at hkept
      exact Or.inl ⟨path, hkept⟩
    · exact Or.inr ⟨gone, hgone, hposition, hfind⟩

/-- In every forest that analyses reach, the attached nodes are those of the walk, and nothing is below
a detached node. One more statement, recorded or refused, takes no node out of the walk but the one at
the end of the path that it excludes. -/
theorem attached_iff_mem_walk (h : Reachable parameters)
    (hparam : parameters[owner]? = some parameter) :
    (∀ id node, parameter.forest.node? id = some node →
        (node.attached = true ↔ id ∈ parameter.forest.walk) ∧
          (node.attached = false → parameter.forest.hasChildren id = false)) ∧
      ∀ model store root, ∃ parameter',
        (stateAfter model ⟨store, [root]⟩ parameters)[owner]? = some parameter' ∧
          ∀ id ∈ parameter.forest.walk, id ∈ parameter'.forest.walk ∨
            ∃ gone ∈ excluded? store root, position? parameters gone.parameter = some owner ∧
              parameter.forest.find? gone.members = some id := by
  have hwf := h.built.wellFormed
  refine ⟨fun id node hnode => ⟨?_, ?_⟩, fun model store root => mem_walk_after hwf hparam⟩
  · exact (h.rooted.mem_walk hwf hparam hnode).symm
  · exact h.rooted.hasChildren_eq_false hparam hnode

end

/-- The alternation detaches the second side; then a member below the first side is declared. -/
theorem attached_iff_mem_walk_sample :
    let reached := stateAfter Sample.model ⟨Sample.store, [⟨4⟩, ⟨5⟩, ⟨7⟩]⟩ Sample.parameters
    ∃ parameter, Reachable reached ∧ reached[0]? = some parameter ∧
      (∀ id node, parameter.forest.node? id = some node →
        (node.attached = true ↔ id ∈ parameter.forest.walk) ∧
          (node.attached = false → parameter.forest.hasChildren id = false)) ∧
      ∀ model store root, ∃ parameter',
        (stateAfter model ⟨store, [root]⟩ reached)[0]? = some parameter' ∧
          ∀ id ∈ parameter.forest.walk, id ∈ parameter'.forest.walk ∨
            ∃ gone ∈ excluded? store root, position? reached gone.parameter = some 0 ∧
              parameter.forest.find? gone.members = some id := by
  intro reached
  have hreach : Reachable reached := (Reachable.start Sample.nothing_recorded).analysis _ _
  have hsome : reached[0]?.isSome = true := by decide +kernel
  obtain ⟨parameter, hparam⟩ := Option.isSome_iff_exists.1 hsome
  exact ⟨parameter, hreach, hparam, attached_iff_mem_walk hreach hparam⟩

end InputDetail.Analysis
