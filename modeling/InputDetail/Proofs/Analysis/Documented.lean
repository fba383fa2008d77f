import InputDetail.Proofs.Analysis.Independence
import InputDetail.Proofs.Analysis.LinkGraph
import InputDetail.Proofs.Analysis.Settled

/-!
# What becomes of documented paths

A path is documented if the node at its end has a status. The status is that of the last statement
that declared the path, and it stays until an alternation excludes the path.
-/
namespace InputDetail.Analysis

open Parameter

namespace Path

/-- The path leads to the place. -/
def LeadsTo (parameters : List Parameter) (path : Path) (place : Place) : Prop :=
  position? parameters path.parameter = some place.owner ∧
    Parameter.found? parameters place.owner path.members = some place.node

/-- The status of the node at the end of the path. -/
def status? (parameters : List Parameter) (path : Path) : Option Status :=
  (locate? parameters path.parameter).bind fun (_, parameter) =>
    statusAt parameter.forest path.members

variable {parameters after : List Parameter} {path : Path} {place : Place} {status : Status}

theorem documented_iff_status? : path.Documented parameters ↔ (path.status? parameters).isSome := by
  rw [Documented, status?]
  cases locate? parameters path.parameter <;> simp

theorem documented_iff_exists :
    path.Documented parameters ↔ ∃ status, path.status? parameters = some status :=
  documented_iff_status?.trans Option.isSome_iff_exists

theorem status?_eq_some_iff : path.status? parameters = some status ↔ ∃ place node,
    path.LeadsTo parameters place ∧ nodeAt? parameters place.owner place.node = some node ∧
      node.status = some status := by
  simp only [status?, statusAt, Option.bind_eq_some_iff, Prod.exists, locate?_eq_some]
  constructor
  · rintro ⟨owner, parameter, ⟨hposition, hparam⟩, node, ⟨id, hfind, hnode⟩, hstatus⟩
    refine ⟨⟨owner, id⟩, node, ⟨hposition, ?_⟩, ?_, hstatus⟩
    · rw [found?_eq hparam, hfind]
    · rw [nodeAt?_eq hparam, hnode]
  · rintro ⟨⟨owner, id⟩, node, ⟨hposition, hfind⟩, hnode, hstatus⟩
    obtain ⟨parameter, hparam, -⟩ := getElem?_of_position? hposition
    rw [found?_eq hparam] at hfind
    rw [nodeAt?_eq hparam] at hnode
    exact ⟨owner, parameter, ⟨hposition, hparam⟩, node, ⟨id, hfind, hnode⟩, hstatus⟩

theorem status?_of_empty (hempty : ∀ parameter ∈ parameters, parameter.forest = .empty) :
    path.status? parameters = none := by
  cases hstatus : path.status? parameters with
  | none => rfl
  | some status =>
    obtain ⟨_, _, ⟨-, hfind⟩, -⟩ := status?_eq_some_iff.1 hstatus
    simp [found?_of_empty hempty] at hfind

/-- Only paths with members have a status. -/
theorem members_ne_nil_of_status? (h : path.status? parameters = some status) :
    path.members ≠ [] := by
  intro hnil
  obtain ⟨_, _, ⟨-, hfind⟩, -⟩ := status?_eq_some_iff.1 h
  obtain ⟨_, -, hfind⟩ := Option.bind_eq_some_iff.1 hfind
  exact Forest.ne_nil_of_find? hfind hnil

theorem locates_iff {plan : MemberPlan} : path.Locates parameters plan ↔
    plan.path = path.members ∧ position? parameters path.parameter = some plan.owner := by
  refine and_congr_right fun _ => ?_
  constructor
  · rintro ⟨parameter, hlocate⟩
    exact (locate?_eq_some.1 hlocate).1
  · intro hposition
    obtain ⟨parameter, hparam, -⟩ := getElem?_of_position? hposition
    exact ⟨parameter, locate?_eq_some.2 ⟨hposition, hparam⟩⟩

theorem leadsTo_iff_of_locates {plan : MemberPlan} (h : path.Locates parameters plan) :
    path.LeadsTo parameters place ↔ place.owner = plan.owner ∧
      Parameter.found? parameters plan.owner plan.path = some place.node := by
  obtain ⟨hmembers, hposition⟩ := locates_iff.1 h
  rw [LeadsTo, hposition, Option.some.injEq, eq_comm, hmembers]
  refine and_congr_right fun howner => ?_
  rw [howner]

section

variable {types : Nat → List Name → Option TypeId} {change : Change} {model : Model}
  {store : ExprStore} {id : ExprId} (h : Outcome types change parameters after)
  (hplan : planStatement model store parameters id = .ok change)
include h

/-- The status of a path is the one that the statement writes there, or else the one it had. -/
theorem status?_cases (hstatus : path.status? after = some status) :
    (∃ plan ∈ change.primary?, path.Locates parameters plan ∧ plan.status = status) ∨
      path.status? parameters = some status := by
  obtain ⟨⟨owner, id⟩, node, ⟨hposition, hfind⟩, hnode, hmark⟩ := status?_eq_some_iff.1 hstatus
  rw [position?_congr h.names] at hposition
  obtain ⟨plan, hprimary, ⟨rfl, hmembers⟩, hwritten⟩ | ⟨-, ⟨-, hnone⟩ | ⟨old, hold, hsame⟩⟩ :=
    h.status_cases hfind hnode
  · refine Or.inl ⟨plan, hprimary, locates_iff.2 ⟨hmembers.symm, hposition⟩, ?_⟩
    rwa [hwritten, Option.some.injEq] at hmark
  · simp [hnone] at hmark
  · have hfind' := h.found?_before hfind hold
    exact Or.inr (status?_eq_some_iff.2
      ⟨⟨owner, id⟩, old, ⟨hposition, hfind'⟩, hold, hsame.trans hmark⟩)

include hplan

/-- The documented path of a statement gets the status of the statement. -/
theorem status?_of_primary {plan : MemberPlan} (hprimary : plan ∈ change.primary?)
    (hlocates : path.Locates parameters plan) : path.status? after = some plan.status := by
  obtain ⟨hmembers, hposition⟩ := locates_iff.1 hlocates
  obtain ⟨id, node, hfind, hnode, hstatus⟩ := h.found_primary hplan hprimary
  refine status?_eq_some_iff.2 ⟨⟨plan.owner, id⟩, node, ⟨?_, ?_⟩, hnode, hstatus⟩
  · rw [position?_congr h.names, hposition]
  · rw [← hmembers, hfind]

/-- A documented path stays documented, or an alternation excludes it. -/
theorem Documented.step (hdocumented : path.Documented parameters) :
    path.Documented after ∨ ∃ secondary ∈ change.excluded?, path.Locates parameters secondary := by
  obtain ⟨known, hknown⟩ := documented_iff_exists.1 hdocumented
  obtain ⟨⟨owner, id⟩, node, ⟨hposition, hfind⟩, hnode, hmark⟩ := status?_eq_some_iff.1 hknown
  by_cases hexcluded : ∃ secondary ∈ change.excluded?, secondary.Heads owner path.members
  · obtain ⟨secondary, hsecondary, hheads⟩ := hexcluded
    have hmembers := hheads.eq_of_nothing_below (nothing_below_of_planStatement hplan hsecondary)
      (Option.isSome_iff_exists.2 ⟨id, hfind⟩)
    obtain ⟨rfl, -⟩ := hheads
    exact Or.inr ⟨secondary, hsecondary, locates_iff.2 ⟨hmembers.symm, hposition⟩⟩
  left
  have hfind' := h.found?_of_some hfind fun secondary hsecondary hheads =>
    hexcluded ⟨secondary, hsecondary, hheads⟩
  obtain ⟨node', hnode'⟩ := h.keeps.node_exists hnode
  obtain ⟨status, hmark'⟩ : ∃ status, node'.status = some status := by
    obtain ⟨plan, -, -, hwritten⟩ | ⟨-, ⟨hnone, -⟩ | ⟨old, hold, hsame⟩⟩ :=
      h.status_cases hfind' hnode'
    · exact ⟨plan.status, hwritten⟩
    · simp [hnone] at hnode
    · rw [hnode] at hold
      cases hold
      exact ⟨known, hsame ▸ hmark⟩
  have hposition' : position? after path.parameter = some owner := by
    rw [position?_congr h.names, hposition]
  exact documented_iff_exists.2 ⟨status, status?_eq_some_iff.2
    ⟨⟨owner, id⟩, node', ⟨hposition', hfind'⟩, hnode', hmark'⟩⟩

end

end Path

end InputDetail.Analysis
