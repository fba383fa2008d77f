import InputDetail.Proofs.Analysis.Atomicity

/-!
# What an alternation excludes

An alternation records both of its paths and detaches the end of the second, so that only the first
leads somewhere. It does not look for the second path again if the first is linked already: a second
path that has been recorded anew in between stays where it is.
-/
namespace InputDetail.Analysis

open Parameter

namespace Path

/-- The node that a documented path leads to. -/
def found? (parameters : List Parameter) (path : Path) : Option NodeId :=
  (locate? parameters path.parameter).bind fun (_, parameter) =>
    parameter.forest.find? path.members

/-- The end of `primary` is linked to a detached node whose path is `secondary`. -/
def Excludes (parameters : List Parameter) (primary secondary : Path) : Prop :=
  ∃ owner source target id node link held,
    locate? parameters primary.parameter = some source ∧
    locate? parameters secondary.parameter = some (owner, target) ∧
    source.2.forest.find? primary.members = some id ∧ source.2.forest.node? id = some node ∧
    node.link = some ⟨secondary.parameter, link⟩ ∧ target.forest.node? link = some held ∧
    held.attached = false ∧ target.forest.path? link = some secondary.members

end Path

variable {model : Model} {store : ExprStore} {parameters after : List Parameter} {id : ExprId}

theorem found?_of_locate? {path : Path} {owner : Nat} {parameter : Parameter}
    (h : locate? parameters path.parameter = some (owner, parameter)) :
    path.found? parameters = Parameter.found? parameters owner path.members := by
  rw [Path.found?, h, Option.bind_some, found?_eq (getElem?_of_locate? h).1]

/-- The node that a documented path leads to, before and after a change. -/
theorem found?_of_plan {plan : MemberPlan} {path : Path} {parameter : Parameter}
    (h : after.map (·.name) = parameters.map (·.name)) (hpath : plan.path = path.members)
    (hlocate : locate? parameters path.parameter = some (plan.owner, parameter)) :
    path.found? parameters = Parameter.found? parameters plan.owner plan.path ∧
      path.found? after = Parameter.found? after plan.owner plan.path := by
  obtain ⟨parameter', hlocate'⟩ := locate?_isSome_of_names h hlocate
  rw [found?_of_locate? hlocate, found?_of_locate? hlocate', hpath]
  exact ⟨rfl, rfl⟩

theorem excludes_iff {primary secondary : MemberPlan} {first second : Path}
    {source target : Parameter} (hfirst : primary.path = first.members)
    (hsecond : secondary.path = second.members)
    (hsource : locate? parameters first.parameter = some (primary.owner, source))
    (htarget : locate? parameters second.parameter = some (secondary.owner, target)) :
    first.Excludes parameters second ↔ (linked? parameters primary secondary).isSome := by
  obtain ⟨hsource', -⟩ := getElem?_of_locate? hsource
  obtain ⟨htarget', hname⟩ := getElem?_of_locate? htarget
  rw [Option.isSome_iff_exists]
  simp only [linked?_eq_some, found?_eq hsource', nodeAt?_eq hsource', nodeAt?_eq htarget',
    pathAt?_eq htarget', hfirst, hsecond]
  constructor
  · rintro ⟨owner, source', target'', id, node, link, held, hlocate, hlocate', hfind, hnode, hlink,
      hheld, hatt, hpath⟩
    rw [hsource] at hlocate
    rw [htarget] at hlocate'
    cases hlocate
    cases hlocate'
    exact ⟨link, id, target, node, held, htarget', hfind, hnode, by rw [hlink, hname], hheld, hatt,
      hpath⟩
  · rintro ⟨link, id, target', node, held, htarget'', hfind, hnode, hlink, hheld, hatt, hpath⟩
    rw [htarget'] at htarget''
    cases htarget''
    exact ⟨secondary.owner, (primary.owner, source), target, id, node, link, held, hsource, htarget,
      hfind, hnode, by rw [hlink, hname], hheld, hatt, hpath⟩

/-- After an alternation is recorded its first path leads somewhere. Its second path does so exactly
if the first was linked to it before and the second had been recorded again. -/
theorem found?_after_alternation (hreach : Reachable parameters) {span : Span}
    {status : Status} {first second : ExprId}
    (hstatement : statementAt store id = .ok (.alternation span status first second))
    (hok : analyzeStatement model store id parameters = .ok () after) :
    ∃ primary secondary, pathAt store first = .ok primary ∧ pathAt store second = .ok secondary ∧
      (primary.found? after).isSome ∧
      ((secondary.found? after).isSome ↔
        primary.Excludes parameters secondary ∧ (secondary.found? parameters).isSome) := by
  obtain ⟨change, hplan, heffect⟩ := effect_of_analyzeStatement hreach.built.wellFormed hok
  obtain ⟨_, _, _, hdeclaration, -⟩ | ⟨_, _, _, _, halternation, hplan⟩ := planStatement_cases hplan
  · rw [hstatement] at hdeclaration
    cases hdeclaration
  rw [hstatement] at halternation
  cases halternation
  obtain ⟨primary, secondary, hprimary, hsecondary, hdefect, hcase⟩ := planAlternation_cases hplan
  obtain ⟨-, -, path, source, hpath, hmembers, hsource⟩ := planPath_members hprimary
  obtain ⟨-, -, path', target, hpath', hmembers', htarget⟩ := planPath_members hsecondary
  refine ⟨path, path', hpath, hpath', ?_⟩
  obtain ⟨-, hafter⟩ := found?_of_plan heffect.names hmembers hsource
  obtain ⟨hbefore', hafter'⟩ := found?_of_plan heffect.names hmembers' htarget
  have hapart := (alternationDefect?_eq_none.1 hdefect).1
  rw [excludes_iff hmembers hmembers' hsource htarget, hafter, hafter', hbefore', heffect.isSome_iff,
    heffect.isSome_iff]
  have hself : primary.Passes primary.owner primary.path :=
    MemberPlan.EndsAt.passes ⟨rfl, rfl⟩
  obtain ⟨hlinked, rfl⟩ | ⟨linked, hlinked, rfl⟩ := hcase
  · have hgone : secondary.Heads secondary.owner secondary.path := MemberPlan.EndsAt.heads ⟨rfl, rfl⟩
    simp only [Change.excluded?, Option.mem_def, Option.some.injEq, forall_eq', hlinked,
      Option.isSome_none, Bool.false_eq_true, false_and, iff_false, not_and, not_not]
    exact ⟨⟨Or.inr ⟨primary, by simp [Change.recorded], hself⟩, hapart⟩, fun _ => hgone⟩
  · have haway : ¬ primary.Passes secondary.owner secondary.path :=
      fun hway => hapart ⟨hway.1.symm, hway.2.2⟩
    simp [Change.excluded?, Change.recorded, hlinked, hself, haway]

/-- The alternation of `a` and `b`, then `b`, then the alternation again: both paths stay. -/
theorem found?_after_alternation_sample :
    let before := stateAfter Sample.model ⟨Sample.store, [⟨5⟩, ⟨4⟩]⟩ Sample.parameters
    let after := stateAfter Sample.model ⟨Sample.store, [⟨5⟩]⟩ before
    let primary : Path := ⟨⟨7⟩, [⟨5⟩]⟩
    let secondary : Path := ⟨⟨7⟩, [⟨6⟩]⟩
    Reachable before ∧
      statementAt Sample.store ⟨5⟩ = .ok (.alternation ⟨0, 0⟩ .mandatory ⟨1⟩ ⟨2⟩) ∧
      analyzeStatement Sample.model Sample.store ⟨5⟩ before = .ok () after ∧
      (primary.found? after).isSome ∧ (secondary.found? after).isSome ∧
      primary.Excludes before secondary ∧ (secondary.found? before).isSome := by
  intro before after primary secondary
  have hreach : Reachable before := (Reachable.start Sample.nothing_recorded).analysis _ _
  have hstatement : statementAt Sample.store ⟨5⟩ =
      .ok (.alternation ⟨0, 0⟩ .mandatory ⟨1⟩ ⟨2⟩) := by decide +kernel
  have hhalt : halt? Sample.model ⟨Sample.store, [⟨5⟩]⟩ before = none := by decide +kernel
  have hok : analyzeStatement Sample.model Sample.store ⟨5⟩ before = .ok () after := by
    rw [← analyze_singleton, analyze_of_halt?_none hhalt]
  obtain ⟨path, path', hpath, hpath', hfirst, hsecond⟩ := found?_after_alternation hreach hstatement hok
  have hprimary : pathAt Sample.store ⟨1⟩ = .ok primary := by decide +kernel
  have hsecondary : pathAt Sample.store ⟨2⟩ = .ok secondary := by decide +kernel
  obtain rfl : primary = path := Except.ok.inj (hprimary.symm.trans hpath)
  obtain rfl : secondary = path' := Except.ok.inj (hsecondary.symm.trans hpath')
  have hboth : (secondary.found? after).isSome := by decide +kernel
  obtain ⟨hexcludes, hbefore⟩ := hsecond.1 hboth
  exact ⟨hreach, hstatement, hok, hfirst, hboth, hexcludes, hbefore⟩

end InputDetail.Analysis
