import InputDetail.Proofs.Analysis.LinkGraph

/-!
# What no node lacks

A node is created with a type, whatever types the analyses use. A node that is linked to got a status
when it was detached, and it keeps one. So nothing is missing that an outline says of a member.
-/
namespace InputDetail.Analysis

open Parameter

variable {types : Nat → List Name → Option TypeId} {parameters after : List Parameter}

/-- Links are sound, every node has a type, and every node that is linked to has a status. -/
structure Complete (parameters : List Parameter) : Prop extends LinksSound parameters where
  typed : ∀ {owner id node}, nodeAt? parameters owner id = some node → node.type.isSome
  marked : ∀ {source target node}, LinksTo parameters source target →
    nodeAt? parameters target.owner target.node = some node → node.status.isSome

theorem complete_of_empty (hempty : ∀ parameter ∈ parameters, parameter.forest = .empty) :
    Complete parameters where
  toLinksSound := linksSound_of_empty hempty
  typed hnode := by simp [nodeAt?_of_empty hempty] at hnode
  marked _ hnode := by simp [nodeAt?_of_empty hempty] at hnode

namespace Complete

variable {change : Change} (h : Complete parameters) (houtcome : Outcome types change parameters after)
include h houtcome

theorem typed_of_step (hsound : change.Sound types parameters) {owner : Nat} {id : NodeId}
    {node : Node} (hnode : nodeAt? after owner id = some node) : node.type.isSome := by
  cases houtcome.fate hnode with
  | found path hfind =>
    obtain ⟨base, _, horigin, hnode', hmarks⟩ := houtcome.found hfind
    obtain rfl := Option.some.inj (hnode.symm.trans hnode')
    by_cases hway : ∃ plan ∈ change.recorded, plan.Passes owner path
    · obtain ⟨plan, hplan, hpasses⟩ := hway
      rw [hmarks.type_on plan hplan hpasses]
      exact (hsound.along plan hplan).isSome hpasses
    · rw [hmarks.type_off fun plan hplan hpasses => hway ⟨plan, hplan, hpasses⟩]
      obtain ⟨-, hbase⟩ | ⟨hnone, -⟩ := horigin
      · exact h.typed hbase
      · obtain ⟨hold | hplan, -⟩ := houtcome.isSome_iff.1 (Option.isSome_iff_exists.2 ⟨id, hfind⟩)
        · rw [hnone] at hold
          cases hold
        · exact absurd hplan hway
  | excluded primary secondary _ hlink howner _ hexcluded _ =>
    subst hlink howner
    obtain ⟨-, htype, -⟩ := hexcluded.holds hnode
    rw [htype]
    exact (hsound.along secondary (by simp [Change.recorded])).isSome
      (MemberPlan.EndsAt.passes ⟨rfl, rfl⟩)
  | unreached base status hbefore _ hsame =>
    subst hsame
    have hbase : base.type.isSome := h.typed hbefore
    exact hbase

theorem marked_of_step {model : Model} {store : ExprStore}
    {statement : ExprId} (hplan : planStatement model store parameters statement = .ok change)
    {source target : Place} {node : Node} (hlink : LinksTo after source target)
    (hnode : nodeAt? after target.owner target.node = some node) : node.status.isSome := by
  obtain ⟨-, hold⟩ | ⟨-, secondary, -, howner, hexcluded⟩ := houtcome.linksTo_cases hplan hlink
  · obtain ⟨held, hheld, hatt⟩ := Option.map_eq_some_iff.1 (h.detached hold)
    obtain hsame | ⟨_, _, -, -, hsame⟩ := houtcome.detached hheld hatt
    · obtain rfl := Option.some.inj (hnode.symm.trans hsame)
      exact h.marked hold hheld
    · obtain rfl := Option.some.inj (hnode.symm.trans hsame)
      rfl
  · rw [howner] at hnode
    obtain ⟨-, -, hstatus⟩ := hexcluded.holds hnode
    rw [hstatus]
    rfl

end Complete

theorem Reachable.complete (h : Reachable parameters) : Complete parameters := by
  induction h with
  | start nothing => exact complete_of_empty nothing
  | @analysis parameters before model document ih =>
    refine stateAfter_of_step before.built.wellFormed ih fun hwf hcomplete hok => ?_
    obtain ⟨change, hplan, houtcome⟩ := outcome_of_analyzeStatement hwf hok
    exact ⟨hcomplete.toLinksSound.step houtcome hplan,
      hcomplete.typed_of_step houtcome (planStatement_sound hplan),
      hcomplete.marked_of_step houtcome hplan⟩

end InputDetail.Analysis
