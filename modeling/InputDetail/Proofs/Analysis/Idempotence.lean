import InputDetail.Proofs.Analysis.Alternation
import InputDetail.Proofs.Analysis.Conflicts

/-!
# The same statement twice

A statement that has just been recorded is in order, and changes nothing when it is recorded again.
For a declaration both changes are the same. An alternation links its sides the first time, and the
second time it finds them linked: the excluded node is detached and has the path of the second side,
which no longer leads anywhere. Either way the second change writes the statuses that are there.
-/
namespace InputDetail.Analysis

open Parameter

variable {model : Model} {store : ExprStore} {base parameters after : List Parameter} {id : ExprId}

/-- The parameters hold already all that the change records and writes. -/
structure Change.Done (parameters : List Parameter) (change : Change) : Prop where
  excluded? : change.excluded? = none
  found : ∀ plan ∈ change.recorded, (found? parameters plan.owner plan.path).isSome
  flag : ∀ {owner : Nat} {status : Status} {parameter : Parameter}, change = .flag owner status →
    parameters[owner]? = some parameter → parameter.status = status
  status : ∀ {owner written status node}, change.Writes parameters owner written status →
    nodeAt? parameters owner written = some node → node.status = some status

section

variable {types : TypeTable} {change : Change}
  (heffect : Effect (staticType types base) change parameters after)
include heffect

/-- What goes down known paths only creates no node. -/
theorem Effect.nothingNew
    (hfound : ∀ plan ∈ change.recorded, (found? parameters plan.owner plan.path).isSome) :
    NothingNew parameters after := by
  intro owner id node' hnode'
  cases hnode : nodeAt? parameters owner id with
  | some node => exact ⟨node, rfl⟩
  | none =>
    obtain ⟨plan, hrecorded, path, ⟨rfl, hne, hbegins⟩, hnew⟩ := heffect.created hnode' hnode
    have hsome := found?_isSome_of_prefix hne hbegins (hfound plan hrecorded)
    rw [hnew] at hsome
    cases hsome

theorem Effect.eq_of_done (htyped : Typed types base parameters)
    (hsound : change.Sound (staticType types base) parameters) (hwf : WellFormed parameters)
    (hdone : change.Done parameters) : after = parameters := by
  refine ext_nodeAt? (bare_of_effect heffect) (fun owner => ?_) fun owner id => ?_
  · obtain ⟨status, hflag, hset⟩ | ⟨-, hkept⟩ := flag_of_effect heffect owner
    · rw [hset]
      cases hparam : parameters[owner]? with
      | none => rfl
      | some parameter => rw [Option.map_some, Option.map_some, hdone.flag hflag hparam]
    · exact hkept
  · cases hnode : nodeAt? parameters owner id with
    | none =>
      rw [← Option.not_isSome_iff_eq_none, Option.isSome_iff_exists]
      rintro ⟨node', hnode'⟩
      obtain ⟨node, hold⟩ := heffect.nothingNew hdone.found hnode'
      rw [hnode] at hold
      cases hold
    | some node =>
      obtain ⟨node', hnode', hsame, hwrites, hkeeps⟩ :=
        heffect.node_of_node htyped hsound hdone.excluded? hwf hnode
      have hstatus : node'.status = node.status := by
        by_cases hwritten : ∃ status, change.Writes parameters owner id status
        · obtain ⟨status, hwritten⟩ := hwritten
          rw [hwrites status hwritten, hdone.status hwritten hnode]
        · exact hkeeps fun status hwrite => hwritten ⟨status, hwrite⟩
      rw [hnode', Node.eq_of_unmarked hsame hstatus]

end

section

variable {types : Nat → List Name → Option TypeId} {change : Change}
  (h : Outcome types change parameters after)
  (hplan : planStatement model store parameters id = .ok change) {primary secondary : MemberPlan}
include h hplan

/-- The end of the documented path has the status of the statement. -/
theorem Outcome.status_primary (hprimary : primary ∈ change.primary?) {seen : NodeId} {node : Node}
    (hfind : found? after primary.owner primary.path = some seen)
    (hnode : nodeAt? after primary.owner seen = some node) : node.status = some primary.status := by
  obtain ⟨_, _, hfind', hnode', hstatus⟩ := h.found_primary hplan hprimary
  rw [hfind] at hfind'
  cases hfind'
  rw [hnode] at hnode'
  cases hnode'
  exact hstatus

/-- A recorded declaration is done. -/
theorem Outcome.done_of_declaration (hdeclaration : change.secondary? = none) :
    change.Done after := by
  constructor
  case excluded? =>
    cases change with
    | link primary secondary => cases hdeclaration
    | flag owner status => rfl
    | record plan => rfl
    | relink primary secondary linked => rfl
  case found =>
    intro plan hrecorded
    cases change with
    | flag owner status => cases hrecorded
    | record primary =>
      obtain rfl := List.mem_singleton.1 hrecorded
      obtain ⟨_, _, hfind, -⟩ := h.found_primary hplan rfl
      rw [hfind]
      rfl
    | link primary secondary => cases hdeclaration
    | relink primary secondary linked => cases hdeclaration
  case flag =>
    rintro owner status parameter rfl hparam
    obtain ⟨_, heq, hset⟩ | ⟨hne, -⟩ := flag_of_effect h.toEffect owner
    · cases heq
      rw [hparam, Option.map_some] at hset
      obtain ⟨_, -, hstatus⟩ := Option.map_eq_some_iff.1 hset.symm
      exact hstatus.symm
    · exact absurd rfl (hne status)
  case status =>
    rintro owner written status node (⟨plan, hprimary, rfl, hfind, rfl⟩ | ⟨_, _, rfl, -⟩) hnode
    · exact h.status_primary hplan hprimary hfind hnode
    · cases hdeclaration

/-- The sides of a recorded alternation are linked, and repeating the link is done. -/
theorem Outcome.exists_linked (hwf : WellFormed parameters) (hprimary : primary ∈ change.primary?)
    (hsecondary : secondary ∈ change.secondary?) :
    ∃ linked, linked? after primary secondary = some linked ∧
      (Change.relink primary secondary linked).Done after := by
  obtain ⟨source, node, hfind, hnode, -⟩ := h.found_primary hplan hprimary
  obtain ⟨parameter, linked, held, hparam, hlink, hheld, hatt, hstatus, hpath⟩ :=
    h.link_of_alternation hwf hplan hprimary hsecondary hfind hnode
  obtain ⟨target, htarget, hname, -⟩ := getElem?_of_bare (bare_of_effect h.toEffect) hparam
  refine ⟨linked, linked?_eq_some.2 ⟨source, target, node, held, htarget, hfind, hnode, ?_, hheld, hatt,
    hpath⟩, rfl, ?_, nofun, ?_⟩
  · rw [hlink, hname]
  · intro plan hrecorded
    obtain rfl := List.mem_singleton.1 hrecorded
    rw [hfind]
    rfl
  · rintro owner written status known (⟨plan, heq, rfl, hend, rfl⟩ | ⟨_, _, heq, rfl, rfl⟩) hknown
    · cases heq
      exact h.status_primary hplan hprimary hend hknown
    · cases heq
      rw [hheld] at hknown
      cases hknown
      exact hstatus

omit hplan in
/-- Nothing is below the second path of an alternation afterwards, as nothing was before. -/
theorem Outcome.alternationDefect?_eq_none (hprimary : primary ∈ change.primary?)
    (hsecondary : secondary ∈ change.secondary?)
    (hdefect : alternationDefect? parameters primary secondary = none) :
    alternationDefect? after primary secondary = none := by
  obtain ⟨hapart, hbelow⟩ := Analysis.alternationDefect?_eq_none.1 hdefect
  refine Analysis.alternationDefect?_eq_none.2 ⟨hapart, hasChildren_eq_false_iff.2 fun name => ?_⟩
  rw [← Option.not_isSome_iff_eq_none, h.isSome_iff]
  rintro ⟨hthere, hleft⟩
  cases change with
  | flag owner status => cases hprimary
  | record plan => cases hsecondary
  | link primary' secondary' =>
    cases hsecondary
    exact hleft secondary rfl ⟨rfl, List.prefix_append _ _⟩
  | relink primary' secondary' linked =>
    cases hprimary
    cases hsecondary
    obtain hold | ⟨plan, hrecorded, howner, -, hbegins⟩ := hthere
    · rw [hasChildren_eq_false_iff.1 hbelow name] at hold
      cases hold
    · obtain rfl := List.mem_singleton.1 hrecorded
      exact hapart ⟨howner.symm, (List.prefix_append _ _).trans hbegins⟩

end

section

variable (hempty : ∀ parameter ∈ base, parameter.forest = .empty) (hpolicy : model.policy = .lastWins)
  (htyped : Typed model.types base parameters) (hwf : WellFormed parameters)
include hempty hpolicy htyped hwf

/-- A recorded statement is in order again, and what it would change then is done. -/
theorem exists_done {change : Change} (hplan : planStatement model store parameters id = .ok change)
    (h : Outcome (staticType model.types base) change parameters after) :
    ∃ again, planStatement model store after id = .ok again ∧ again.Done after := by
  have htyped' := htyped.of_effect (htyped.sound hplan) h.toEffect
  have hsame := planPath_congr hempty hpolicy htyped htyped' store
  obtain ⟨status, documented, plan, hstatement, hpath, rfl⟩ |
    ⟨span, status, first, second, hstatement, hboth⟩ := planStatement_cases hplan
  · rw [← hsame] at hpath
    cases plan with
    | flag owner status =>
      exact ⟨_, planStatement_of_declaration hstatement hpath, h.done_of_declaration hplan rfl⟩
    | members plan =>
      exact ⟨_, planStatement_of_declaration hstatement hpath, h.done_of_declaration hplan rfl⟩
  · obtain ⟨primary, secondary, hfirst, hsecond, hdefect, hcase⟩ := planAlternation_cases hboth
    have hprimary : primary ∈ change.primary? := by
      obtain ⟨-, rfl⟩ | ⟨_, -, rfl⟩ := hcase <;> rfl
    have hsecondary : secondary ∈ change.secondary? := by
      obtain ⟨-, rfl⟩ | ⟨_, -, rfl⟩ := hcase <;> rfl
    rw [← hsame] at hfirst hsecond
    obtain ⟨linked, hlinked, hdone⟩ := h.exists_linked hplan hwf hprimary hsecondary
    exact ⟨_, planStatement_of_linked hstatement hfirst hsecond
      (h.alternationDefect?_eq_none hprimary hsecondary hdefect) hlinked, hdone⟩

theorem analyzeStatement_of_typed
    (hok : analyzeStatement model store id parameters = .ok () after) :
    analyzeStatement model store id after = .ok () after := by
  obtain ⟨change, hplan⟩ := plan_of_analyzeStatement hok
  have hsound := htyped.sound hplan
  have houtcome := outcome_of_plan hwf htyped.fits hplan hsound hok
  have htyped' := htyped.of_effect hsound houtcome.toEffect
  obtain ⟨again, hplan', hdone⟩ := exists_done hempty hpolicy htyped hwf hplan houtcome
  obtain ⟨final, hok', heffect⟩ := htyped'.analyzeStatement_spec houtcome.wellFormed hplan'
  obtain rfl := heffect.eq_of_done htyped' (htyped'.sound hplan') houtcome.wellFormed hdone
  exact hok'

end

/-- What is recorded is typed over the same parameters without anything recorded. -/
theorem NodesTyped.typed_blank {types : TypeTable} (h : NodesTyped types parameters)
    (hwf : WellFormed parameters) : Typed types (parameters.map blank) parameters := by
  have hbare : (parameters.map blank).map bare = parameters.map bare := by
    rw [List.map_map]
    rfl
  constructor
  case bare => exact hbare.symm
  case node =>
    rw [staticType_of_bare hbare]
    exact (h.typed hwf).node

/-- A recorded statement still agrees with all statuses, if it did before. -/
theorem Agrees.kept (h : Agrees store parameters id) (hwf : WellFormed parameters)
    (hok : analyzeStatement model store id parameters = .ok () after) : Agrees store after id := by
  intro path status hdeclares known hknown
  obtain hnew | hold := declares_or_status? hwf hok hknown
  · exact Option.some.inj (hnew.2.symm.trans hdeclares.2)
  · exact h hdeclares known hold

/-- Whatever was analyzed and constructed before, and under either policy: a statement that is recorded
can be recorded once more at once, and that changes nothing at all. All types come from one table, which
grows; with types of another table, a member that has been detached need not resolve again. -/
theorem analyzeStatement_again (h : Evolved model.types parameters)
    (hok : analyzeStatement model store id parameters = .ok () after) :
    analyzeStatement model store id after = .ok () after := by
  have hwf := h.reachable.built.wellFormed
  have htyped := h.nodesTyped.typed_blank hwf
  have hempty : ∀ parameter ∈ parameters.map blank, parameter.forest = .empty := by
    intro parameter hmem
    obtain ⟨_, -, rfl⟩ := List.mem_map.1 hmem
    rfl
  obtain ⟨types, policy⟩ := model
  cases policy with
  | lastWins => exact analyzeStatement_of_typed hempty rfl htyped hwf hok
  | reject =>
    obtain ⟨hlast, hagrees⟩ := analyzeStatement_reject_iff.1 hok
    exact analyzeStatement_reject_iff.2
      ⟨analyzeStatement_of_typed hempty rfl htyped hwf hlast, hagrees.kept hwf hlast⟩

/-- The alternation of `a` and `b` detaches a member `b` that was declared before. The second time it
is not there to be detached. -/
theorem analyzeStatement_again_sample :
    let strict : Model := ⟨Sample.types, .reject⟩
    let before := stateAfter Sample.model ⟨Sample.store, [⟨4⟩]⟩ Sample.parameters
    let after := stateAfter strict ⟨Sample.store, [⟨5⟩]⟩ before
    Evolved Sample.types before ∧ analyzeStatement strict Sample.store ⟨5⟩ before = .ok () after ∧
      before.map (·.forest.size) = [1] ∧ after.map (·.forest.size) = [2] ∧
      analyzeStatement strict Sample.store ⟨5⟩ after = .ok () after := by
  intro strict before after
  have hevolved : Evolved Sample.types before :=
    (Evolved.start Sample.nothing_recorded).analysis .lastWins _
  have hhalt : halt? strict ⟨Sample.store, [⟨5⟩]⟩ before = none := by decide +kernel
  have hok : analyzeStatement strict Sample.store ⟨5⟩ before = .ok () after := by
    rw [← analyze_singleton, analyze_of_halt?_none hhalt]
  exact ⟨hevolved, hok, by decide +kernel, by decide +kernel, analyzeStatement_again hevolved hok⟩

end InputDetail.Analysis
