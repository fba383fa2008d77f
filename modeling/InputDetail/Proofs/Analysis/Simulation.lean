import InputDetail.Proofs.Analysis.View

/-!
# Only the visible state matters

What a change shows at a path follows from the change and from what was shown there before. So two
states with one view accept the same statements and have one view ever after, however their nodes are
numbered and whatever they hold out of sight.
-/
namespace InputDetail.Analysis

open Parameter Outline

namespace Change

/-- The link that is shown at a path which a change leaves, if `old` was shown before. `names` are those
of the parameters. -/
def linkShown (types : Nat → List Name → Option TypeId) (names : List Name) (change : Change)
    (owner : Nat) (path : List Name) (old : Option LinkSight) : Option LinkSight :=
  match change with
  | .link primary secondary => if primary.EndsAt owner path then
      names[secondary.owner]?.map fun name => ⟨name, some (some secondary.path,
        types secondary.owner secondary.path, some secondary.status)⟩
    else old
  | .relink primary secondary _ => if primary.EndsAt owner path then
      old.map fun seen => { seen with
        target := seen.target.map fun (way, type, _) => (way, type, some secondary.status) }
    else old
  | _ => old

/-- What is shown at a path which a change leaves, if `old` was shown before. -/
def sight (types : Nat → List Name → Option TypeId) (names : List Name) (change : Change)
    (owner : Nat) (path : List Name) (old : Sight) : Sight where
  type := if ∃ plan ∈ change.recorded, plan.Passes owner path then types owner path else old.type
  status := (change.primary?.filter (·.EndsAt owner path)).elim old.status fun plan => some plan.status
  link := change.linkShown types names owner path old.link

/-- The number of a node whose link is repeated plays no part in what is recorded and shown. -/
theorem eq_of_unnumbered {change change' : Change} (h : change'.unnumbered = change.unnumbered) :
    change'.recorded = change.recorded ∧ change'.excluded? = change.excluded? ∧
      change'.flags = change.flags ∧
      ∀ types names, change'.sight types names = change.sight types names := by
  cases change <;> cases change' <;> cases h <;> exact ⟨rfl, rfl, rfl, fun _ _ => rfl⟩

end Change

variable {types : Nat → List Name → Option TypeId} {change change' : Change} {model : Model}
  {store : ExprStore} {parameters parameters' after after' : List Parameter} {statement : ExprId}
  {owner : Nat} {path : List Name} {id : NodeId} {base node : Node}

/-- The node that a recorded path ends at was shown before, or it was not there and held nothing. -/
theorem nodeSight_of_origin (h : Origin parameters owner path id base) :
    nodeSight parameters base = (shown? parameters owner path).getD ⟨none, none, none⟩ := by
  obtain ⟨hfind, hnode⟩ | ⟨hnone, -, name, parent, rfl⟩ := h
  · rw [shown?, hfind, Option.bind_some, hnode, Option.map_some, Option.getD_some]
  · rw [shown?, hnone]
    rfl

section

variable (h : Effect types change parameters after) (hwf : WellFormed parameters)
  (hsound : LinksSound parameters)
include h hwf hsound

/-- The target of a link looks as it did, unless the link is repeated. -/
theorem Effect.linkSight_eq {source : Place} {link : Link} (hlink : source.link? parameters = some link)
    (hother : ∀ primary secondary linked, change = .relink primary secondary linked →
      ¬ LinksTo parameters source ⟨secondary.owner, linked⟩) :
    linkSight after link = linkSight parameters link := by
  obtain ⟨target, hlinks⟩ := hsound.leads hlink
  obtain ⟨held, hheld, hatt⟩ := Option.map_eq_some_iff.1 (hsound.detached hlinks)
  obtain ⟨link', hlink', hposition, hid⟩ := hlinks
  obtain rfl : link = link' := Option.some.inj (hlink.symm.trans hlink')
  rw [← hid] at hheld
  obtain hsame | ⟨primary, secondary, heq, howner, -⟩ := h.detached hheld hatt
  · have hposition' : position? after link.parameter = some target.owner := by
      rw [position?_congr h.names, hposition]
    rw [Analysis.linkSight_eq hposition hheld, Analysis.linkSight_eq hposition' hsame,
      h.keeps.pathAt?_eq hwf h.wellFormed hheld]
  · exact absurd ⟨link, hlink, howner ▸ hposition, rfl⟩ (hother primary secondary link.node heq)

/-- Links that are neither made nor repeated look as they did. -/
theorem Effect.link_kept (horigin : Origin parameters owner path id base) (hlink : node.link = base.link)
    (hother : ∀ primary secondary linked, change = .relink primary secondary linked →
      ¬ LinksTo parameters ⟨owner, id⟩ ⟨secondary.owner, linked⟩) :
    node.link.map (linkSight after) = base.link.map (linkSight parameters) := by
  rw [hlink]
  have hsource := link?_of_origin horigin
  cases hbase : base.link with
  | none => rfl
  | some link =>
    rw [hbase] at hsource
    rw [Option.map_some, Option.map_some, h.linkSight_eq hwf hsound hsource hother]

omit hsound in
/-- A repeated link shows the new status. -/
theorem Effect.linkSight_of_relink {primary secondary : MemberPlan} {linked : NodeId}
    (heq : change = .relink primary secondary linked) {held : Node} {link : Link}
    (hposition : position? parameters link.parameter = some secondary.owner)
    (hlinked : link.node = linked) (hheld : nodeAt? parameters secondary.owner linked = some held) :
    linkSight after link = { linkSight parameters link with
      target := (linkSight parameters link).target.map fun (way, type, _) =>
        (way, type, some secondary.status) } := by
  subst hlinked
  have hposition' : position? after link.parameter = some secondary.owner := by
    rw [position?_congr h.names, hposition]
  rw [Analysis.linkSight_eq hposition hheld, Analysis.linkSight_eq hposition' (h.relinked heq hheld),
    h.keeps.pathAt?_eq hwf h.wellFormed hheld]
  rfl

end

section

variable (h : Effect types change parameters after) (hwf : WellFormed parameters)
  (hsound : LinksSound parameters)
  (hplan : planStatement model store parameters statement = .ok change)
include h hplan

omit hwf hsound in
/-- A new link shows the path, the type and the status of the statement. -/
theorem Effect.linkSight_of_link {primary secondary : MemberPlan}
    (heq : change = .link primary secondary)
    (hfind : found? after primary.owner primary.path = some id)
    (hnode : nodeAt? after primary.owner id = some node) : node.link.map (linkSight after) =
      (parameters.map (·.name))[secondary.owner]?.map fun name => ⟨name,
        some (some secondary.path, types secondary.owner secondary.path, some secondary.status)⟩ := by
  obtain ⟨parameter, excluded, hparam, hexcluded, hlink⟩ := h.linked heq
  obtain ⟨held, hheld, -, htype, hstatus⟩ := hexcluded.node
  have hposition : position? after parameter.name = some secondary.owner := by
    rw [position?_congr h.names, position?_of_planStatement hplan (by rw [heq]; rfl) hparam]
  rw [hlink hfind hnode, Option.map_some, Analysis.linkSight_eq hposition hheld, hexcluded.path, htype,
    hstatus, List.getElem?_map, hparam]
  rfl

include hwf hsound

/-- The link at the end of a path that a change leaves. -/
theorem Effect.link_shown (horigin : Origin parameters owner path id base)
    (hfind : found? after owner path = some id) (hnode : nodeAt? after owner id = some node)
    (hmarks : change.Marks types owner path base node) : node.link.map (linkSight after) =
      change.linkShown types (parameters.map (·.name)) owner path
        (base.link.map (linkSight parameters)) := by
  cases change with
  | flag position status => exact h.link_kept hwf hsound horigin (hmarks.link_off (by simp)) (by simp)
  | record plan => exact h.link_kept hwf hsound horigin (hmarks.link_off (by simp)) (by simp)
  | link primary secondary =>
    rw [Change.linkShown]
    split_ifs with hend
    · obtain ⟨rfl, rfl⟩ := hend
      exact h.linkSight_of_link hplan rfl hfind hnode
    · refine h.link_kept hwf hsound horigin (hmarks.link_off ?_) (by simp)
      rintro _ _ ⟨⟩
      exact hend
  | relink primary secondary linked =>
    obtain ⟨source, target, old, held, htarget, hold, holdNode, hlink, hheld, -⟩ :=
      linked?_eq_some.1 (planStatement_sound hplan).2
    have hposition := position?_of_planStatement hplan rfl htarget
    have hbase : node.link = base.link := hmarks.link_off (by simp)
    rw [Change.linkShown]
    split_ifs with hend
    · obtain ⟨rfl, rfl⟩ := hend
      obtain ⟨hfound, hnode'⟩ | ⟨hnone, -⟩ := horigin
      · obtain rfl : source = id := Option.some.inj (hold.symm.trans hfound)
        obtain rfl : old = base := Option.some.inj (holdNode.symm.trans hnode')
        rw [hbase, hlink, Option.map_some, Option.map_some, Option.map_some,
          h.linkSight_of_relink hwf rfl hposition rfl hheld]
      · rw [hold] at hnone
        cases hnone
    · refine h.link_kept hwf hsound horigin hbase ?_
      rintro _ _ _ ⟨⟩ hlinks
      have hsource : LinksTo parameters ⟨primary.owner, source⟩ ⟨secondary.owner, linked⟩ :=
        ⟨_, by rw [Place.link?, holdNode, Option.bind_some, hlink], hposition, rfl⟩
      have hsame := hsound.apart hlinks hsource
      rw [Place.mk.injEq] at hsame
      obtain ⟨rfl, rfl⟩ := hsame
      have hfound := h.found?_before hfind holdNode
      exact hend ⟨rfl, hwf.found?_injective hfound hold⟩

/-- What is shown at a path that a change leaves follows from what was shown there. -/
theorem Effect.shown?_eq (hfind : found? after owner path = some id) : shown? after owner path =
    some (change.sight types (parameters.map (·.name)) owner path
      ((shown? parameters owner path).getD ⟨none, none, none⟩)) := by
  obtain ⟨base, node, horigin, hnode, hmarks⟩ := h.found hfind
  rw [shown?, hfind, Option.bind_some, hnode, Option.map_some, ← nodeSight_of_origin horigin, nodeSight,
    h.link_shown hwf hsound hplan horigin hfind hnode hmarks]
  have htype : node.type = if ∃ plan ∈ change.recorded, plan.Passes owner path then types owner path
      else base.type := by
    split_ifs with hway
    · obtain ⟨plan, hmem, hpasses⟩ := hway
      exact hmarks.type_on plan hmem hpasses
    · exact hmarks.type_off fun plan hmem hpasses => hway ⟨plan, hmem, hpasses⟩
  have hstatus : node.status = (change.primary?.filter (·.EndsAt owner path)).elim base.status
      fun plan => some plan.status := by
    cases hprimary : change.primary? with
    | none => exact hmarks.status_off (by simp [hprimary])
    | some plan =>
      by_cases hend : plan.EndsAt owner path
      · simpa [Option.filter, hend] using hmarks.status_on plan hprimary hend
      · simpa [Option.filter, hend] using hmarks.status_off (by simpa [hprimary] using hend)
  rw [htype, hstatus]
  rfl

end

/-- Statements change the statuses of whole parameters only by their flags. -/
theorem Effect.facts (h : Effect types change parameters after) :
    after.map facts = (change.flags parameters).map facts := by
  have hfacts := congrArg (List.map Analysis.facts) h.blank
  simp only [List.map_map] at hfacts
  exact hfacts

theorem Change.facts_flags (change : Change) (h : parameters'.map facts = parameters.map facts) :
    (change.flags parameters').map facts = (change.flags parameters).map facts := by
  cases change with
  | flag owner status =>
    apply List.ext_getElem?
    intro index
    have hget := congrArg (·[index]?) h
    simp only [Change.flags, List.getElem?_map, List.getElem?_modify] at hget ⊢
    cases hparam : parameters[index]? with
    | none => simpa [hparam] using hget
    | some parameter =>
      rw [hparam, Option.map_some] at hget
      obtain ⟨parameter', hparam', hsame⟩ := Option.map_eq_some_iff.1 hget
      simp only [Analysis.facts, Prod.mk.injEq] at hsame
      rw [hparam']
      split_ifs <;> simp [Analysis.facts, hsame]
  | record plan => exact h
  | link primary secondary => exact h
  | relink primary secondary linked => exact h

/-- Changes that differ in the number of a node at most keep the views of two states the same. -/
theorem SameView.step (h : SameView parameters parameters') (hwf : WellFormed parameters)
    (hwf' : WellFormed parameters') (hsound : LinksSound parameters) (hsound' : LinksSound parameters')
    (hplan : planStatement model store parameters statement = .ok change)
    (hplan' : planStatement model store parameters' statement = .ok change')
    (hchange : change'.unnumbered = change.unnumbered) (heffect : Effect types change parameters after)
    (heffect' : Effect types change' parameters' after') : SameView after after' where
  facts := by
    rw [heffect.facts, heffect'.facts, (Change.eq_of_unnumbered hchange).2.2.1]
    exact change.facts_flags h.facts
  shown owner path := by
    obtain ⟨hrecorded, hexcluded, -, hsight⟩ := Change.eq_of_unnumbered hchange
    have hsome : (found? after' owner path).isSome ↔ (found? after owner path).isSome := by
      rw [heffect.isSome_iff, heffect'.isSome_iff, hrecorded, hexcluded, h.found?_isSome]
    cases hfind : found? after owner path with
    | none =>
      have hnone : found? after' owner path = none := by
        rw [← Option.not_isSome_iff_eq_none, hsome, hfind]
        simp
      rw [shown?, shown?, hfind, hnone]
      rfl
    | some id =>
      obtain ⟨id', hfind'⟩ := Option.isSome_iff_exists.1 (hsome.2 (by rw [hfind]; rfl))
      rw [heffect.shown?_eq hwf hsound hplan hfind, heffect'.shown?_eq hwf' hsound' hplan' hfind', hsight,
        h.names, h.shown]

/-- What a recorded statement leaves is reached by an analysis. -/
theorem Reachable.of_analyzeStatement (h : Reachable parameters)
    (hok : analyzeStatement model store statement parameters = .ok () after) : Reachable after := by
  have hafter : stateAfter model ⟨store, [statement]⟩ parameters = after := by
    rw [stateAfter, analyze_singleton, hok]
  exact hafter ▸ h.analysis model ⟨store, [statement]⟩

/-- A statement is recorded in both of two states with one view, which keep one view, or it is refused
in both for the same reason. -/
theorem SameView.analyzeStatement (h : SameView parameters parameters') (hreach : Reachable parameters)
    (hreach' : Reachable parameters') (model : Model) (store : ExprStore) (statement : ExprId) :
    (∃ after after', analyzeStatement model store statement parameters = .ok () after ∧
      analyzeStatement model store statement parameters' = .ok () after' ∧ SameView after after') ∨
    ∃ halt, analyzeStatement model store statement parameters = .error halt parameters ∧
      analyzeStatement model store statement parameters' = .error halt parameters' := by
  have hplans := h.planStatement_eq hreach.linksSound hreach'.linksSound model store statement
  cases hplan : planStatement model store parameters statement with
  | error halt =>
    rw [hplan] at hplans
    cases hplan' : planStatement model store parameters' statement with
    | error halt' =>
      rw [hplan'] at hplans
      cases hplans
      exact Or.inr ⟨halt, by simp only [Analysis.analyzeStatement, hplan],
        by simp only [Analysis.analyzeStatement, hplan']⟩
    | ok change' =>
      rw [hplan'] at hplans
      cases hplans
  | ok change =>
    rw [hplan] at hplans
    cases hplan' : planStatement model store parameters' statement with
    | error halt' =>
      rw [hplan'] at hplans
      cases hplans
    | ok change' =>
      rw [hplan'] at hplans
      have hwf := hreach.built.wellFormed
      have hwf' := hreach'.built.wellFormed
      obtain ⟨after, hok, heffect⟩ := analyzeStatement_spec hwf hplan
      obtain ⟨after', hok', heffect'⟩ := analyzeStatement_spec hwf' hplan'
      rw [h.plannedType_eq] at heffect'
      exact Or.inl ⟨after, after', hok, hok', h.step hwf hwf' hreach.linksSound hreach'.linksSound hplan
        hplan' (Except.ok.inj hplans) heffect heffect'⟩

/-- Two states with one view give the same result of any analysis, and have one view afterwards. -/
theorem SameView.analyze (h : SameView parameters parameters') (hreach : Reachable parameters)
    (hreach' : Reachable parameters') (model : Model) (store : ExprStore) (roots : List ExprId) :
    halt? model ⟨store, roots⟩ parameters' = halt? model ⟨store, roots⟩ parameters ∧
      SameView (stateAfter model ⟨store, roots⟩ parameters)
        (stateAfter model ⟨store, roots⟩ parameters') := by
  induction roots generalizing parameters parameters' with
  | nil => exact ⟨rfl, h⟩
  | cons root roots ih =>
    unfold halt? stateAfter
    rw [analyze_cons, analyze_cons]
    obtain ⟨after, after', hok, hok', hafter⟩ | ⟨halt, herror, herror'⟩ :=
      h.analyzeStatement hreach hreach' model store root
    · rw [hok, hok']
      exact ih hafter (hreach.of_analyzeStatement hok) (hreach'.of_analyzeStatement hok')
    · rw [herror, herror']
      exact ⟨rfl, h⟩

/-- Analyses of two states with the same view succeed or fail alike, with the same error, and leave
states with the same view. -/
theorem analyze_view (hreach : Reachable parameters) (hreach' : Reachable parameters')
    (hview : view parameters' = view parameters) (model : Model) (document : Document) :
    halt? model document parameters' = halt? model document parameters ∧
      view (stateAfter model document parameters') = view (stateAfter model document parameters) := by
  obtain ⟨hhalt, hsame⟩ :=
    (sameView_iff.2 hview).analyze hreach hreach' model document.store document.roots
  exact ⟨hhalt, sameView_iff.1 hsame⟩

/-- In one state `a` and `b` are recorded by their alternation, in the other `b` was recorded before, so
that the numbers of the two nodes are exchanged. The view is the same, and the alternation is recognized
in both. -/
theorem analyze_view_sample :
    let first := stateAfter Sample.model ⟨Sample.store, [⟨5⟩]⟩ Sample.parameters
    let second := stateAfter Sample.model ⟨Sample.store, [⟨4⟩, ⟨5⟩]⟩ Sample.parameters
    let again : Document := ⟨Sample.store, [⟨5⟩]⟩
    Reachable first ∧ Reachable second ∧ view second = view first ∧ first ≠ second ∧
      halt? Sample.model again second = none ∧
      view (stateAfter Sample.model again second) = view (stateAfter Sample.model again first) := by
  intro first second again
  have hreach : Reachable first := (Reachable.start Sample.nothing_recorded).analysis _ _
  have hreach' : Reachable second := (Reachable.start Sample.nothing_recorded).analysis _ _
  have hview : view second = view first := by
    refine sameView_iff.1 (sameView_of_paths hreach.built.wellFormed hreach'.built.wellFormed ?_ ?_)
    · decide +kernel
    · decide +kernel
  have hhalt : halt? Sample.model again first = none := by decide +kernel
  obtain ⟨hsame, hafter⟩ := analyze_view hreach hreach' hview Sample.model again
  exact ⟨hreach, hreach', hview, by decide +kernel, hsame.trans hhalt, hafter⟩

end InputDetail.Analysis
