import InputDetail.Proofs.Analysis.Atomicity

/-!
# What becomes of a node

After a statement is recorded, a path leads to a node, or the statement has just detached the node,
or no path led to the node before either. So what holds of all nodes, attached or not, is kept by
statements if it is kept in these three cases.
-/
namespace InputDetail.Analysis

open Forest Parameter

variable {types : Nat → List Name → Option TypeId} {parameters parameters' after : List Parameter}
  {owner : Nat} {id : NodeId} {node : Node}

/-- Where a node is after a change, and where it was before. -/
inductive Fate (types : Nat → List Name → Option TypeId) (change : Change)
    (parameters after : List Parameter) (owner : Nat) (id : NodeId) (node : Node) : Prop
  /-- A path leads to the node. -/
  | found (path : List Name) (found : found? after owner path = some id)
  /-- The change excludes the node, which keeps its own link. -/
  | excluded (primary secondary : MemberPlan) (base : Node)
      (link : change = .link primary secondary) (owner_eq : owner = secondary.owner)
      (origin : Origin parameters owner secondary.path id base)
      (excluded : Excluded types secondary id parameters after) (link_eq : node.link = base.link)
  /-- No path led to the node before; at most its status is new. -/
  | unreached (base : Node) (status : Option Status)
      (before : nodeAt? parameters owner id = some base)
      (out : ∀ path, found? parameters owner path ≠ some id) (same : node = { base with status })

/-- A node that no path leads to after recording was there before, out of reach as it is now. -/
theorem Recorded.unreached_before {plan : MemberPlan}
    (h : Recorded types plan parameters parameters')
    (hnode : nodeAt? parameters' owner id = some node)
    (hout : ∀ path, found? parameters' owner path ≠ some id) :
    nodeAt? parameters owner id = some node ∧ ∀ path, found? parameters owner path ≠ some id := by
  refine ⟨?_, fun path hfind => hout path (h.found?_of_some hfind)⟩
  rw [← h.nodeAt?_off fun path _ => hout path, hnode]

theorem fate_record {plan : MemberPlan} (h : Recorded types plan parameters after)
    (hnode : nodeAt? after owner id = some node) :
    Fate types (.record plan) parameters after owner id node := by
  by_cases hfound : ∃ path, found? after owner path = some id
  · obtain ⟨path, hfind⟩ := hfound
    exact .found path hfind
  · obtain ⟨hbefore, hout⟩ :=
      h.unreached_before hnode fun path hfind => hfound ⟨path, hfind⟩
    exact .unreached node node.status hbefore hout rfl

/-- If nothing is below a path, then no longer path leads anywhere. -/
theorem MemberPlan.Heads.eq_of_nothing_below {plan : MemberPlan} {path : List Name}
    (h : plan.Heads owner path)
    (hbelow : ∀ name, found? parameters plan.owner (plan.path ++ [name]) = none)
    (hfind : (found? parameters owner path).isSome) : path = plan.path := by
  obtain ⟨rfl, rest, rfl⟩ := h
  cases rest with
  | nil => exact List.append_nil _
  | cons name rest =>
    have hstep : (found? parameters plan.owner (plan.path ++ [name])).isSome :=
      found?_isSome_of_prefix (by simp) ⟨rest, by simp⟩ hfind
    rw [hbelow] at hstep
    cases hstep

namespace Linking

variable {primary secondary : MemberPlan} {target : Parameter} {linked excluded : NodeId}
  {held : Node} {first both middle : List Parameter} {path : List Name}

section

variable (h : Linking types primary secondary target linked excluded held parameters first both middle
  after)
  (hbelow : ∀ name, found? parameters secondary.owner (secondary.path ++ [name]) = none)
include h

/-- A node that no path leads to after both paths are recorded was there before, out of reach. -/
theorem unreached_before (hnode : nodeAt? after owner id = some node)
    (hout : ∀ path, found? both owner path ≠ some id) :
    nodeAt? parameters owner id = some node ∧ ∀ path, found? parameters owner path ≠ some id := by
  have hlinked : ¬ (owner = primary.owner ∧ id = linked) := by
    rintro ⟨rfl, rfl⟩
    exact hout _ h.found?_both_primary
  have hexcluded : ¬ (owner = secondary.owner ∧ id = excluded) := by
    rintro ⟨rfl, rfl⟩
    exact hout _ h.found_secondary
  rw [h.nodeAt?_eq, if_neg hlinked, h.nodeAt?_both hexcluded] at hnode
  obtain ⟨hfirst, hout⟩ := h.record_secondary.unreached_before hnode hout
  exact h.record_primary.unreached_before hfirst hout

include hbelow in
/-- If nothing is below the secondary path, then recording both paths leads to nothing below it. -/
theorem nothing_below (name : Name) :
    found? both secondary.owner (secondary.path ++ [name]) = none := by
  rw [← Option.not_isSome_iff_eq_none, h.record_secondary.found?_isSome_iff,
    h.record_primary.found?_isSome_iff, hbelow]
  rintro ((hnone | hprimary) | hsecondary)
  · cases hnone
  · exact h.apart ⟨hprimary.1.symm, (List.prefix_append _ _).trans hprimary.2.2⟩
  · exact not_onWay_concat_self _ _ hsecondary.2

include hbelow in
theorem fate (hwf : WellFormed parameters) (hnode : nodeAt? after owner id = some node) :
    Fate types (.link primary secondary) parameters after owner id node := by
  by_cases hfound : ∃ path, found? after owner path = some id
  · obtain ⟨path, hfind⟩ := hfound
    exact .found path hfind
  by_cases hboth : ∃ path, found? both owner path = some id
  · obtain ⟨path, hfind⟩ := hboth
    have hheads : secondary.Heads owner path := by
      by_contra hleft
      exact hfound ⟨path, by rw [h.found?_eq hwf, if_neg hleft, hfind]⟩
    obtain rfl := hheads.1
    obtain rfl := hheads.eq_of_nothing_below (h.nothing_below hbelow) (by rw [hfind]; rfl)
    obtain rfl : excluded = id := Option.some.inj (h.found_secondary.symm.trans hfind)
    obtain ⟨base, atBoth, horigin, hatBoth, -, -, -, hlink⟩ := h.marks hwf hfind
    rw [h.nodeAt?_excluded hwf hatBoth, Option.some.injEq] at hnode
    exact .excluded primary secondary base rfl rfl horigin (h.excluded_spec hwf) (hnode ▸ hlink)
  · obtain ⟨hbefore, hout⟩ := h.unreached_before hnode fun path hfind => hboth ⟨path, hfind⟩
    exact .unreached node node.status hbefore hout rfl

end

end Linking

theorem fate_relink {primary secondary : MemberPlan} {linked : NodeId} {held : Node}
    {middle : List Parameter} (hheld : nodeAt? parameters secondary.owner linked = some held)
    (hatt : held.attached = false) (hrecorded : Recorded types primary parameters middle)
    (hstatus : Edited secondary.owner
      (Replaced linked held { held with status := some secondary.status }) middle after)
    (hnode : nodeAt? after owner id = some node) :
    Fate types (.relink primary secondary linked) parameters after owner id node := by
  have hfound := Replaced.found?_eq hstatus owner
  by_cases hpath : ∃ path, found? after owner path = some id
  · obtain ⟨path, hfind⟩ := hpath
    exact .found path hfind
  by_cases hlinked : owner = secondary.owner ∧ id = linked
  · obtain ⟨rfl, rfl⟩ := hlinked
    rw [Replaced.nodeAt?_eq hstatus, if_pos ⟨rfl, rfl⟩, Option.some.injEq] at hnode
    exact .unreached held (some secondary.status) hheld (found?_ne_of_detached hheld hatt) hnode.symm
  · rw [Replaced.nodeAt?_eq hstatus, if_neg hlinked] at hnode
    obtain ⟨hbefore, hout⟩ := hrecorded.unreached_before hnode fun path hfind =>
      hpath ⟨path, by rw [hfound, hfind]⟩
    exact .unreached node node.status hbefore hout rfl

/-- Nothing is below a path that a statement excludes. -/
theorem nothing_below_of_planStatement {model : Model} {store : ExprStore} {statement : ExprId}
    {change : Change} (hplan : planStatement model store parameters statement = .ok change)
    {secondary : MemberPlan} (hsecondary : secondary ∈ change.excluded?) (name : Name) :
    found? parameters secondary.owner (secondary.path ++ [name]) = none := by
  obtain ⟨_, _, plan, -, -, rfl⟩ | ⟨_, _, _, _, -, hboth⟩ := planStatement_cases hplan
  · cases plan <;> cases hsecondary
  · obtain ⟨_, _, -, -, hdefect, ⟨-, rfl⟩ | ⟨linked, -, rfl⟩⟩ := planAlternation_cases hboth
    · obtain rfl := Option.some.inj hsecondary
      exact hasChildren_eq_false_iff.1 (alternationDefect?_eq_none.1 hdefect).2 name
    · cases hsecondary

theorem fate_of_carryOut {change : Change} (hwf : WellFormed parameters)
    (hfits : Fits types parameters) (hsound : change.Sound types parameters)
    (hbelow : ∀ secondary ∈ change.excluded?, ∀ name,
      found? parameters secondary.owner (secondary.path ++ [name]) = none)
    (hok : carryOut change parameters = .ok () after)
    (hnode : nodeAt? after owner id = some node) :
    Fate types change parameters after owner id node := by
  cases change with
  | flag position status =>
    cases hok
    obtain ⟨hfound, hnodes⟩ := found?_congr (forests_setFlag position status parameters)
    by_cases hpath : ∃ path, found? parameters owner path = some id
    · obtain ⟨path, hfind⟩ := hpath
      exact .found path (by rw [hfound, hfind])
    · rw [hnodes] at hnode
      exact .unreached node node.status hnode (fun path hfind => hpath ⟨path, hfind⟩) rfl
  | record plan =>
    obtain ⟨leaf, after', hrecord, hrecorded, -⟩ := record_spec hwf hfits hsound
    simp only [carryOut, discard, Functor.discard, Functor.mapConst, EStateM.map,
      Function.comp_apply, hrecord] at hok
    cases hok
    exact fate_record hrecorded hnode
  | link primary secondary =>
    obtain ⟨_, _, _, _, _, _, _, after', hcarry, hlinking⟩ := exists_linking hwf hfits hsound
    rw [hok] at hcarry
    cases hcarry
    exact hlinking.fate (hbelow secondary rfl) hwf hnode
  | relink primary secondary linked =>
    obtain ⟨held, middle, after', hcarry, hheld, hatt, hrecorded, hstatus⟩ :=
      exists_relinking hwf hfits hsound
    rw [hok] at hcarry
    cases hcarry
    exact fate_relink hheld hatt hrecorded hstatus hnode

/-- Everything that carrying out a change does, and what becomes of every node. -/
structure Outcome (types : Nat → List Name → Option TypeId) (change : Change)
    (parameters after : List Parameter) : Prop extends Effect types change parameters after where
  fate : ∀ {owner id node}, nodeAt? after owner id = some node →
    Fate types change parameters after owner id node

/-- A new node has a path that was missing, on the way of a path that is gone down. -/
theorem Outcome.path_of_new {change : Change} (h : Outcome types change parameters after)
    (hnode : nodeAt? after owner id = some node) (hnew : nodeAt? parameters owner id = none) :
    ∃ path, pathAt? after owner id = some path ∧ found? parameters owner path = none ∧
      ∃ plan ∈ change.recorded, plan.Passes owner path := by
  cases h.fate hnode with
  | found path hfind =>
    obtain ⟨base, _, ⟨-, hbefore⟩ | ⟨hmissing, -⟩, -⟩ := h.found hfind
    · simp [hnew] at hbefore
    · obtain ⟨hold | hplan, -⟩ := h.isSome_iff.1 (Option.isSome_iff_exists.2 ⟨id, hfind⟩)
      · simp [hmissing] at hold
      · exact ⟨path, h.wellFormed.pathAt?_of_found? hfind, hmissing, hplan⟩
  | excluded primary secondary _ hlink howner horigin hexcluded _ =>
    subst hlink howner
    obtain ⟨-, hbefore⟩ | ⟨hmissing, -⟩ := horigin
    · simp [hnew] at hbefore
    · exact ⟨secondary.path, hexcluded.path, hmissing, secondary,
        Change.mem_recorded_of_excluded? rfl, MemberPlan.EndsAt.passes ⟨rfl, rfl⟩⟩
  | unreached _ _ hbefore _ _ => simp [hnew] at hbefore

section

variable {model : Model} {store : ExprStore} {statement : ExprId} {change : Change}

/-- A statement that is in order is recorded with types that fit, and nothing else happens. -/
theorem outcome_of_plan (hwf : WellFormed parameters) (hfits : Fits types parameters)
    (hplan : planStatement model store parameters statement = .ok change)
    (hsound : change.Sound types parameters)
    (hok : analyzeStatement model store statement parameters = .ok () after) :
    Outcome types change parameters after := by
  simp only [analyzeStatement, hplan] at hok
  obtain ⟨after', hcarry, heffect⟩ := carryOut_spec hwf hfits hsound
  rw [hok] at hcarry
  cases hcarry
  exact ⟨heffect, fate_of_carryOut hwf hfits hsound
    (fun _ hsecondary => nothing_below_of_planStatement hplan hsecondary) hok⟩

theorem outcome_of_analyzeStatement (hwf : WellFormed parameters)
    (hok : analyzeStatement model store statement parameters = .ok () after) :
    ∃ change, planStatement model store parameters statement = .ok change ∧
      Outcome (plannedType model.types parameters) change parameters after := by
  obtain ⟨change, hplan⟩ := plan_of_analyzeStatement hok
  exact ⟨change, hplan, outcome_of_plan hwf (fits_plannedType model.types parameters) hplan
    (planStatement_sound hplan) hok⟩

end

end InputDetail.Analysis
