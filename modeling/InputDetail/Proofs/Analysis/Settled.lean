import InputDetail.Proofs.Analysis.Exclusion
import InputDetail.Proofs.Analysis.Statuses

/-!
# Settled statements

A statement is settled if the parameters hold already what it records: the path of a declaration has
a status, or the first path of an alternation is linked to a detached node at the second path, and
nothing is recorded below the second path. A settled statement is in order, and it writes statuses
over statuses.
-/
namespace InputDetail.Analysis

open Parameter

/-- The path leads to a node with a status. -/
def Path.Documented (parameters : List Parameter) (path : Path) : Prop :=
  ∃ located, locate? parameters path.parameter = some located ∧
    (statusAt located.2.forest path.members).isSome

/-- The parameters hold already what the statement records. -/
def Settled (store : ExprStore) (parameters : List Parameter) (id : ExprId) : Prop :=
  match statementAt store id with
  | .error _ => False
  | .ok (.declaration _ documented) => ∀ path, pathAt store documented = .ok path →
    path.members ≠ [] → path.Documented parameters
  | .ok (.alternation _ _ first second) => ∃ primary secondary,
    pathAt store first = .ok primary ∧ pathAt store second = .ok secondary ∧
      primary.Excludes parameters secondary ∧
      ∀ name, (secondary.child name).found? parameters = none

namespace Change

/-- The change as it is if nothing is linked before. -/
def fresh : Change → Change
  | .relink primary secondary _ => .link primary secondary
  | change => change

/-- The change writes statuses over statuses, and nothing else. -/
def Settled (parameters : List Parameter) : Change → Prop
  | .flag _ _ => True
  | .record plan => ∃ id node, found? parameters plan.owner plan.path = some id ∧
    nodeAt? parameters plan.owner id = some node ∧ node.status.isSome
  | .link _ _ => False
  | .relink _ _ _ => True

theorem Settled.excluded?_eq_none {parameters : List Parameter} {change : Change}
    (h : change.Settled parameters) : change.excluded? = none := by
  cases change with
  | link primary secondary => exact h.elim
  | flag owner status => rfl
  | record plan => rfl
  | relink primary secondary linked => rfl

end Change

variable {model : Model} {store : ExprStore} {base parameters parameters' : List Parameter}
  {id : ExprId}

/-- The end of a planned path has a status. -/
theorem documented_iff {plan : MemberPlan} {path : Path} {parameter : Parameter}
    (hpath : plan.path = path.members)
    (hlocate : locate? parameters path.parameter = some (plan.owner, parameter)) :
    path.Documented parameters ↔ (Change.record plan).Settled parameters := by
  obtain ⟨hparam, -⟩ := getElem?_of_locate? hlocate
  simp only [Path.Documented, hlocate, Option.some.injEq, exists_eq_left', Change.Settled, hpath,
    found?_eq hparam, nodeAt?_eq hparam, statusAt, Option.isSome_iff_exists, Option.bind_eq_some_iff]
  constructor
  · rintro ⟨status, node, ⟨id, hfind, hnode⟩, hstatus⟩
    exact ⟨id, node, hfind, hnode, status, hstatus⟩
  · rintro ⟨id, node, hfind, hnode, status, hstatus⟩
    exact ⟨status, node, ⟨id, hfind, hnode⟩, hstatus⟩

/-- Nothing is below a planned path if it has no children. -/
theorem nothing_below_iff {plan : MemberPlan} {path : Path} {parameter : Parameter}
    (hpath : plan.path = path.members)
    (hlocate : locate? parameters path.parameter = some (plan.owner, parameter)) :
    (∀ name, (path.child name).found? parameters = none) ↔ hasChildren parameters plan = false := by
  rw [hasChildren_eq_false_iff]
  refine forall_congr' fun name => ?_
  have hlocate' : locate? parameters (path.child name).parameter = some (plan.owner, parameter) :=
    hlocate
  rw [found?_of_locate? hlocate', Path.child, hpath]

theorem planStatement_of_declaration {status : Status} {documented : ExprId} {plan : Plan}
    (hstatement : statementAt store id = .ok (.declaration status documented))
    (hpath : planPath model store parameters status documented = .ok plan) :
    planStatement model store parameters id = .ok (match plan with
      | .flag owner status => .flag owner status
      | .members plan => .record plan) := by
  simp only [planStatement, hstatement, bind, Except.bind, hpath]
  cases plan <;> rfl

/-- An alternation whose paths are in order, and whose first path is linked to the second. -/
theorem planStatement_of_linked {span : Span} {status : Status} {first second : ExprId}
    {primary secondary : MemberPlan} {linked : NodeId}
    (hstatement : statementAt store id = .ok (.alternation span status first second))
    (hprimary : planPath model store parameters status first = .ok (.members primary))
    (hsecondary : planPath model store parameters status second = .ok (.members secondary))
    (hdefect : alternationDefect? parameters primary secondary = none)
    (hlinked : linked? parameters primary secondary = some linked) :
    planStatement model store parameters id = .ok (.relink primary secondary linked) := by
  simp only [planStatement, hstatement, planAlternation, hprimary, hsecondary, bind, Except.bind,
    hdefect, hlinked]
  rfl

/-- A plan that settles the statement shows that it is settled. -/
theorem settled_of_plan {change : Change}
    (hplan : planStatement model store parameters id = .ok change)
    (hsettled : change.Settled parameters) : Settled store parameters id := by
  unfold Settled
  obtain ⟨status, documented, plan, hstatement, hpath, rfl⟩ |
    ⟨span, status, first, second, hstatement, hboth⟩ := planStatement_cases hplan
  · simp only [hstatement]
    intro path hread hmembers
    obtain ⟨path', owner, parameter, hread', hlocate, ⟨hnil, -, rfl⟩ |
      ⟨name, rest, firstMember, later, -, -, -, rfl⟩⟩ := planPath_cases hpath
    · rw [hread] at hread'
      cases hread'
      exact absurd hnil hmembers
    · obtain ⟨-, -, path'', parameter', hread'', hnames, hlocate'⟩ := planPath_members hpath
      rw [hread] at hread''
      cases hread''
      exact (documented_iff hnames hlocate').2 hsettled
  · simp only [hstatement]
    obtain ⟨primary, secondary, hprimary, hsecondary, hdefect, ⟨-, rfl⟩ | ⟨linked, hlinked, rfl⟩⟩ :=
      planAlternation_cases hboth
    · exact hsettled.elim
    · obtain ⟨-, -, path, source, hread, hnames, hlocate⟩ := planPath_members hprimary
      obtain ⟨-, -, path', target, hread', hnames', hlocate'⟩ := planPath_members hsecondary
      refine ⟨path, path', hread, hread', ?_, ?_⟩
      · rw [excludes_iff hnames hnames' hlocate hlocate', hlinked]
        rfl
      · exact (nothing_below_iff hnames' hlocate').2 (alternationDefect?_eq_none.1 hdefect).2

section

variable (hempty : ∀ parameter ∈ base, parameter.forest = .empty) (hpolicy : model.policy = .lastWins)
  (htyped : Typed model.types base parameters) (htyped' : Typed model.types base parameters')
include hempty hpolicy htyped htyped'

/-- If the last status wins, paths are planned alike in all states of a history. -/
theorem planPath_congr (store : ExprStore) (status : Status) (id : ExprId) :
    planPath model store parameters' status id = planPath model store parameters status id := by
  rw [htyped'.planPath_eq hempty (by simp [hpolicy]), htyped.planPath_eq hempty (by simp [hpolicy])]

/-- In all states of a history a statement makes the same change, if it is in order, up to links that
are there. -/
theorem fresh_eq {change change' : Change}
    (hplan : planStatement model store parameters id = .ok change)
    (hplan' : planStatement model store parameters' id = .ok change') :
    change'.fresh = change.fresh := by
  have hsame := planPath_congr hempty hpolicy htyped htyped' store
  obtain ⟨status, path, plan, hstatement, hpath, rfl⟩ |
    ⟨span, status, first, second, hstatement, hboth⟩ := planStatement_cases hplan
  · obtain ⟨_, _, plan', hstatement', hpath', rfl⟩ | ⟨_, _, _, _, hstatement', -⟩ :=
      planStatement_cases hplan'
    · rw [hstatement] at hstatement'
      cases hstatement'
      rw [hsame, hpath] at hpath'
      cases hpath'
      rfl
    · rw [hstatement] at hstatement'
      cases hstatement'
  · obtain ⟨_, _, _, hstatement', -⟩ | ⟨_, _, _, _, hstatement', hboth'⟩ := planStatement_cases hplan'
    · rw [hstatement] at hstatement'
      cases hstatement'
    · rw [hstatement] at hstatement'
      cases hstatement'
      obtain ⟨primary, secondary, hprimary, hsecondary, -, hcase⟩ := planAlternation_cases hboth
      obtain ⟨_, _, hprimary', hsecondary', -, hcase'⟩ := planAlternation_cases hboth'
      rw [hsame, hprimary] at hprimary'
      rw [hsame, hsecondary] at hsecondary'
      cases hprimary'
      cases hsecondary'
      obtain ⟨-, rfl⟩ | ⟨linked, -, rfl⟩ := hcase <;> obtain ⟨-, rfl⟩ | ⟨linked', -, rfl⟩ := hcase' <;>
        rfl

/-- A settled statement that was in order at some time is in order again. -/
theorem Settled.plan (hsettled : Settled store parameters' id) {change : Change}
    (hplan : planStatement model store parameters id = .ok change) :
    ∃ change', planStatement model store parameters' id = .ok change' ∧
      change'.Settled parameters' := by
  have hsame := planPath_congr hempty hpolicy htyped htyped' store
  unfold Settled at hsettled
  obtain ⟨status, documented, plan, hstatement, hpath, rfl⟩ |
    ⟨span, status, first, second, hstatement, hboth⟩ := planStatement_cases hplan
  · simp only [hstatement] at hsettled
    rw [← hsame] at hpath
    refine ⟨_, planStatement_of_declaration hstatement hpath, ?_⟩
    cases plan with
    | flag owner status => trivial
    | members plan =>
      obtain ⟨-, -, path, parameter, hread, hnames, hlocate⟩ := planPath_members hpath
      exact (documented_iff hnames hlocate).1
        (hsettled path hread (hnames ▸ plan.path_ne_nil))
  · simp only [hstatement] at hsettled
    obtain ⟨path, path', hread, hread', hexcludes, hbelow⟩ := hsettled
    obtain ⟨primary, secondary, hprimary, hsecondary, hdefect, -⟩ := planAlternation_cases hboth
    rw [← hsame] at hprimary hsecondary
    obtain ⟨-, -, _, source, hread'', hnames, hlocate⟩ := planPath_members hprimary
    rw [hread] at hread''
    cases hread''
    obtain ⟨-, -, _, target, hread'', hnames', hlocate'⟩ := planPath_members hsecondary
    rw [hread'] at hread''
    cases hread''
    rw [excludes_iff hnames hnames' hlocate hlocate'] at hexcludes
    obtain ⟨linked, hlinked⟩ := Option.isSome_iff_exists.1 hexcludes
    rw [nothing_below_iff hnames' hlocate'] at hbelow
    have hdefect' : alternationDefect? parameters' primary secondary = none :=
      alternationDefect?_eq_none.2 ⟨(alternationDefect?_eq_none.1 hdefect).1, hbelow⟩
    exact ⟨_, planStatement_of_linked hstatement hprimary hsecondary hdefect' hlinked, trivial⟩

end

/-- A settled statement goes down known paths only. -/
theorem Change.Settled.found?_isSome {id : ExprId} {change : Change} (h : change.Settled parameters)
    (hplan : planStatement model store parameters id = .ok change) {plan : MemberPlan}
    (hrecorded : plan ∈ change.recorded) {owner : Nat} {path : List Name}
    (hway : plan.Passes owner path) : (found? parameters owner path).isSome := by
  obtain ⟨rfl, hne, hprefix⟩ := hway
  have hend : (found? parameters plan.owner plan.path).isSome := by
    cases change with
    | flag owner status => cases hrecorded
    | record plan' =>
      obtain rfl := List.mem_singleton.1 hrecorded
      obtain ⟨id, node, hfind, -⟩ := h
      rw [hfind]
      rfl
    | link primary secondary => exact h.elim
    | relink primary secondary linked =>
      obtain rfl := List.mem_singleton.1 hrecorded
      obtain ⟨source, link, ⟨node, hfind, -⟩, -⟩ := linked_of_planStatement hplan
      rw [hfind]
      rfl
  exact found?_isSome_of_prefix hne hprefix hend

/-- A settled statement writes statuses over statuses. -/
theorem Change.Settled.status_isSome {id : ExprId} {change : Change} (h : change.Settled parameters)
    (hcoherent : Coherent model.types base parameters)
    (hplan : planStatement model store parameters id = .ok change) {owner : Nat} {written : NodeId}
    {status : Status} (hwrites : change.Writes parameters owner written status) {node : Node}
    (hnode : nodeAt? parameters owner written = some node) : node.status.isSome := by
  cases change with
  | flag owner status =>
    obtain ⟨plan, hplan, -⟩ | ⟨primary, secondary, heq, -⟩ := hwrites
    · cases hplan
    · cases heq
  | record plan =>
    obtain ⟨_, hprimary, rfl, hfind, -⟩ | ⟨primary, secondary, heq, -⟩ := hwrites
    · cases hprimary
      obtain ⟨id, known, hfind', hknown, hstatus⟩ := h
      rw [hfind] at hfind'
      cases hfind'
      rw [hnode] at hknown
      cases hknown
      exact hstatus
    · cases heq
  | link primary secondary => exact h.elim
  | relink primary secondary linked =>
    obtain ⟨source, link, hlinked, hposition, rfl⟩ := linked_of_planStatement hplan
    obtain ⟨⟨known, hknown, hstatus⟩, target, hposition', held, hheld, -, hheldStatus⟩ :=
      hcoherent.linked hlinked
    obtain ⟨_, hprimary, rfl, hfind, -⟩ | ⟨_, _, heq, rfl, -⟩ := hwrites
    · cases hprimary
      obtain ⟨_, hfind', -⟩ := hlinked
      rw [hfind] at hfind'
      cases hfind'
      rw [hnode] at hknown
      cases hknown
      exact hstatus
    · cases heq
      rw [hposition] at hposition'
      cases hposition'
      rw [hnode] at hheld
      cases hheld
      exact hheldStatus

/-- A settled statement is in order in restated parameters, and restates them once more. -/
theorem Restated.step (h : Restated parameters parameters')
    (hempty : ∀ parameter ∈ base, parameter.forest = .empty) (hpolicy : model.policy = .lastWins)
    (hcoherent : Coherent model.types base parameters) {change : Change}
    (hplan : planStatement model store parameters id = .ok change)
    (hsettled : change.Settled parameters) :
    planStatement model store parameters' id = .ok change ∧
      ∀ {after}, Effect (staticType model.types base) change parameters' after →
        Restated parameters after := by
  have hcoherent' := hcoherent.of_fills h.fills
  have hplan' : planStatement model store parameters' id = .ok change :=
    (h.fills.planStatement_eq hempty hpolicy hcoherent.wellFormed hcoherent.typed id).trans hplan
  have hsound := hcoherent'.typed.sound hplan'
  have hlink := hsettled.excluded?_eq_none
  refine ⟨hplan', fun {after} heffect => ?_⟩
  have hold : NothingNew parameters' after := by
    intro owner id node' hnode'
    cases hnode : nodeAt? parameters' owner id with
    | some node => exact ⟨node, rfl⟩
    | none =>
      obtain ⟨plan, hrecorded, path, hway, hnew⟩ := heffect.created hnode' hnode
      have hsome := hsettled.found?_isSome hplan hrecorded hway
      rw [← h.fills.found?_eq, hnew] at hsome
      cases hsome
  have hfills : Fills parameters' after :=
    heffect.fills hcoherent'.typed hsound hlink hcoherent'.wellFormed hold
  refine ⟨h.fills.trans hfills, hfills.symm.trans h.filled.toAlike, ?_⟩
  intro owner written node' node hnode' hnode hstatus
  obtain ⟨middle, hmiddle, -⟩ := h.fills.node hnode
  obtain ⟨_, hsame, -, hwrites, hkeeps⟩ :=
    heffect.node_of_node hcoherent'.typed hsound hlink hcoherent'.wellFormed hmiddle
  rw [hnode'] at hsame
  cases hsame
  by_cases hwritten : ∃ status, change.Writes parameters' owner written status
  · obtain ⟨status, hwritten⟩ := hwritten
    rw [Change.writes_congr h.fills.found?_eq] at hwritten
    exact hsettled.status_isSome hcoherent hplan hwritten hnode
  · rw [hkeeps fun status hwrite => hwritten ⟨status, hwrite⟩] at hstatus
    exact h.filled.status hmiddle hnode hstatus

end InputDetail.Analysis
