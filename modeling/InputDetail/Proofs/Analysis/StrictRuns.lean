import InputDetail.Proofs.Analysis.LinkGraph

/-!
# Runs that reject conflicts

Where conflicts are rejected, a statement meets no other status at the ends of its paths, and both
sides of an alternation get the same status. Repeating an alternation writes to a detached node that
was not looked at; but that node has the status of the node which is linked to it. So statuses are
never changed, whatever was detached and declared again in between.
-/
namespace InputDetail.Analysis

open Parameter

/-- The status of the node, if there is one and it has any. -/
def Place.status? (parameters : List Parameter) (place : Place) : Option Status :=
  (nodeAt? parameters place.owner place.node).bind (·.status)

/-- Linked nodes have the same status. -/
def Even (parameters : List Parameter) : Prop :=
  ∀ ⦃source target⦄, LinksTo parameters source target →
    ∃ status, source.status? parameters = some status ∧ target.status? parameters = some status

/-- The change declares one status, meets no other at the ends of its paths, and repeats only links
that are there. -/
structure Change.Consistent (parameters : List Parameter) (change : Change) : Prop where
  agrees : ∀ {plan id known}, plan ∈ change.primary? ∨ plan ∈ change.secondary? →
    found? parameters plan.owner plan.path = some id →
    Place.status? parameters ⟨plan.owner, id⟩ = some known → known = plan.status
  same : ∀ {primary secondary}, primary ∈ change.primary? → secondary ∈ change.secondary? →
    secondary.status = primary.status
  linked : ∀ {primary secondary linked}, change = .relink primary secondary linked →
    ∃ id, found? parameters primary.owner primary.path = some id ∧
      LinksTo parameters ⟨primary.owner, id⟩ ⟨secondary.owner, linked⟩

variable {types : TypeTable} {store : ExprStore} {parameters after : List Parameter}
  {statement : ExprId} {change : Change} {place : Place} {status : Status}

theorem status?_eq {owner : Nat} {id : NodeId} {node : Node}
    (hnode : nodeAt? parameters owner id = some node) :
    Place.status? parameters ⟨owner, id⟩ = node.status := by
  rw [Place.status?, hnode, Option.bind_some]

/-- The end of a path that is planned has no other status. -/
theorem known_of_planPath {documented : ExprId} {plan : MemberPlan} {id : NodeId} {known : Status}
    (h : planPath ⟨types, .reject⟩ store parameters status documented = .ok (.members plan))
    (hfind : found? parameters plan.owner plan.path = some id)
    (hknown : Place.status? parameters ⟨plan.owner, id⟩ = some known) : known = plan.status := by
  obtain ⟨path, owner, parameter, -, hlocate, ⟨-, -, heq⟩ |
    ⟨name, rest, first, later, hmembers, hresolve, hagree, heq⟩⟩ := planPath_cases h
  · cases heq
  · cases heq
    have hparam := (getElem?_of_locate? hlocate).1
    obtain ⟨hname, hnames, -⟩ := resolveMembers_along hresolve
    have hpath : MemberPlan.path ⟨owner, first, later, status⟩ = path.members := by
      rw [MemberPlan.path, hname, hnames, hmembers]
    rw [found?_eq hparam, hpath] at hfind
    rw [Place.status?, nodeAt?_eq hparam] at hknown
    have hstatus : statusAt parameter.forest path.members = some known := by
      rw [statusAt, hfind, Option.bind_some, hknown]
    simpa [hstatus] using hagree

theorem consistent_of_planStatement
    (h : planStatement ⟨types, .reject⟩ store parameters statement = .ok change) :
    change.Consistent parameters := by
  obtain ⟨declared, path, plan, -, hplan, rfl⟩ | ⟨span, declared, first, second, -, hboth⟩ :=
    planStatement_cases h
  · cases plan with
    | flag owner declared => exact ⟨nofun, nofun, nofun⟩
    | members plan =>
      refine ⟨fun {other id known} hside hfind hknown => ?_, nofun, nofun⟩
      obtain rfl : plan = other := by
        obtain hother | hother := hside
        · exact Option.some.inj hother
        · cases hother
      exact known_of_planPath hplan hfind hknown
  · obtain ⟨primary, secondary, hprimary, hsecondary, -, hcase⟩ := planAlternation_cases hboth
    have hagrees : ∀ {plan id known}, primary = plan ∨ secondary = plan →
        found? parameters plan.owner plan.path = some id →
        Place.status? parameters ⟨plan.owner, id⟩ = some known → known = plan.status := by
      rintro plan id known (rfl | rfl) hfind hknown
      · exact known_of_planPath hprimary hfind hknown
      · exact known_of_planPath hsecondary hfind hknown
    have hsame : ∀ {plan other}, primary = plan → secondary = other → other.status = plan.status := by
      rintro plan other rfl rfl
      rw [(planPath_members hprimary).2.1, (planPath_members hsecondary).2.1]
    obtain ⟨-, rfl⟩ | ⟨linked, hlinked, rfl⟩ := hcase
    · constructor
      case agrees => exact fun hside => hagrees (hside.imp Option.some.inj Option.some.inj)
      case same => exact fun hfirst hsecond => hsame (Option.some.inj hfirst) (Option.some.inj hsecond)
      case linked => exact nofun
    · constructor
      case agrees => exact fun hside => hagrees (hside.imp Option.some.inj Option.some.inj)
      case same => exact fun hfirst hsecond => hsame (Option.some.inj hfirst) (Option.some.inj hsecond)
      case linked =>
        intro first second held heq
        cases heq
        obtain ⟨source, target, node, _, htarget, hfind, hnode, hlink, -⟩ := linked?_eq_some.1 hlinked
        have hposition := position?_of_planStatement h rfl htarget
        refine ⟨source, hfind, ⟨target.name, linked⟩, ?_, hposition, rfl⟩
        rw [Place.link?, hnode, Option.bind_some, hlink]

/-- A statement changes no status. -/
theorem status?_of_outcome {types : Nat → List Name → Option TypeId}
    (houtcome : Outcome types change parameters after) (hconsistent : change.Consistent parameters)
    (heven : Even parameters) (hstatus : place.status? parameters = some status) :
    place.status? after = some status := by
  obtain ⟨owner, id⟩ := place
  obtain ⟨base, hbase, hknown⟩ := Option.bind_eq_some_iff.1 hstatus
  obtain ⟨node, hnode⟩ := houtcome.keeps.node_exists hbase
  rw [status?_eq hnode]
  cases houtcome.fate hnode with
  | found path hfind =>
    obtain ⟨plan, hplan, hends, hnew⟩ | ⟨-, ⟨hnone, -⟩ | ⟨old, hold, hsame⟩⟩ :=
      houtcome.status_cases hfind hnode
    · have hbefore := houtcome.found?_before hfind hbase
      obtain ⟨rfl, rfl⟩ := hends
      rw [hnew, hconsistent.agrees (Or.inl hplan) hbefore hstatus]
    · rw [hbase] at hnone
      cases hnone
    · rw [hbase] at hold
      cases hold
      rw [← hsame, hknown]
  | excluded primary secondary base' hlink howner horigin hexcluded _ =>
    subst hlink howner
    obtain ⟨-, -, hnew⟩ := hexcluded.holds hnode
    obtain ⟨hbefore, -⟩ | ⟨-, hnone, -⟩ := horigin
    · rw [hnew, hconsistent.agrees (Or.inr rfl) hbefore hstatus]
    · rw [hbase] at hnone
      cases hnone
  | unreached base' _ hbefore hout _ =>
    obtain hsame | ⟨primary, secondary, rfl, rfl, hnew⟩ := houtcome.unreached_cases hbase hout
    · rw [hnode, Option.some.injEq] at hsame
      rw [hsame, hknown]
    · obtain ⟨source, hfind, hlinks⟩ := hconsistent.linked rfl
      obtain ⟨shared, hsource, htarget⟩ := heven hlinks
      have hshared : shared = status := Option.some.inj (htarget.symm.trans hstatus)
      have hprimary : shared = primary.status := hconsistent.agrees (Or.inl rfl) hfind hsource
      rw [hnode, Option.some.injEq] at hnew
      rw [hnew, ← hshared, hprimary, hconsistent.same rfl rfl]

/-- Recording one more statement. -/
theorem Even.step {types : Nat → List Name → Option TypeId} {model : Model} (heven : Even parameters)
    (houtcome : Outcome types change parameters after) (hconsistent : change.Consistent parameters)
    (hplan : planStatement model store parameters statement = .ok change) : Even after := by
  intro source target hlinks
  obtain ⟨-, hold⟩ | ⟨⟨primary, secondary, rfl, howner, hfind⟩, _, hsecondary, htarget, hexcluded⟩ :=
    houtcome.linksTo_cases hplan hlinks
  · obtain ⟨status, hsource, htarget⟩ := heven hold
    exact ⟨status, status?_of_outcome houtcome hconsistent heven hsource,
      status?_of_outcome houtcome hconsistent heven htarget⟩
  · obtain rfl := Option.some.inj hsecondary
    obtain ⟨id, first, hfind', hfirst, hstatus⟩ := houtcome.found_primary hplan rfl
    obtain rfl : id = source.node := Option.some.inj (hfind'.symm.trans hfind)
    obtain ⟨second, hsecond, -, -, hstatus'⟩ := hexcluded.node
    refine ⟨primary.status, ?_, ?_⟩
    · rw [Place.status?, howner, hfirst, Option.bind_some, hstatus]
    · rw [Place.status?, htarget, hsecond, Option.bind_some, hstatus', hconsistent.same rfl rfl]

/-- The states that analyses reach which all reject conflicts, each with its own table of types and
its own block, recorded to its end or not. The states between the statements of a block are reached by
blocks that end there. -/
inductive StrictRun (start : List Parameter) : List Parameter → Prop
  | refl : StrictRun start start
  | analysis {before : List Parameter} (run : StrictRun start before) (types : TypeTable)
      (document : Document) : StrictRun start (stateAfter ⟨types, .reject⟩ document before)

theorem StrictRun.reachable {start : List Parameter} (h : StrictRun start after)
    (hstart : Reachable start) : Reachable after := by
  induction h with
  | refl => exact hstart
  | analysis _ types document ih => exact ih.analysis ⟨types, .reject⟩ document

/-- One analysis keeps linked nodes even and changes no status. -/
theorem Even.stateAfter (h : Even parameters) (hwf : WellFormed parameters) (types : TypeTable)
    (document : Document) :
    Even (stateAfter ⟨types, .reject⟩ document parameters) ∧
      ∀ place status, Place.status? parameters place = some status →
        Place.status? (stateAfter ⟨types, .reject⟩ document parameters) place = some status := by
  refine stateAfter_of_step (p := fun reached => Even reached ∧ ∀ place status,
    Place.status? parameters place = some status → Place.status? reached place = some status)
    hwf ⟨h, fun _ _ hstatus => hstatus⟩ ?_
  rintro reached after root hwf ⟨heven, hkept⟩ hok
  obtain ⟨change, hplan, houtcome⟩ := outcome_of_analyzeStatement hwf hok
  have hconsistent := consistent_of_planStatement hplan
  refine ⟨heven.step houtcome hconsistent hplan, fun place status hstatus => ?_⟩
  exact status?_of_outcome houtcome hconsistent heven (hkept place status hstatus)

theorem StrictRun.even {start : List Parameter} (h : StrictRun start after)
    (hstart : Reachable start) (heven : Even start) : Even after ∧
      ∀ place status, Place.status? start place = some status →
        Place.status? after place = some status := by
  induction h with
  | refl => exact ⟨heven, fun _ _ hstatus => hstatus⟩
  | analysis run types document ih =>
    have hwf := (run.reachable hstart).built.wellFormed
    obtain ⟨hafter, hkept⟩ := ih.1.stateAfter hwf types document
    exact ⟨hafter, fun place status hstatus => hkept place status (ih.2 place status hstatus)⟩

theorem even_of_empty (hempty : ∀ parameter ∈ parameters, parameter.forest = .empty) :
    Even parameters := fun _ _ hlinks => absurd hlinks (not_linksTo_of_empty hempty)

/-- In a run that rejects conflicts, a node that has a status has the same one at all later times,
detached or not, and every node that is linked has the status of the node it is linked to. -/
theorem status_of_strictRun {start before : List Parameter}
    (hempty : ∀ parameter ∈ start, parameter.forest = .empty) (hbefore : StrictRun start before)
    (hafter : StrictRun before after) :
    (∀ owner id node status, nodeAt? before owner id = some node → node.status = some status →
        ∃ node', nodeAt? after owner id = some node' ∧ node'.status = some status) ∧
      ∀ owner id node link, nodeAt? after owner id = some node → node.link = some link →
        ∃ held status, Parameter.linked? after link = some held ∧ node.status = some status ∧
          held.status = some status := by
  have hreach : Reachable before := hbefore.reachable (.start hempty)
  have hreach' : Reachable after := hafter.reachable hreach
  have heven : Even before := (hbefore.even (.start hempty) (even_of_empty hempty)).1
  obtain ⟨heven', hkept⟩ := hafter.even hreach heven
  constructor
  · intro owner id node status hnode hstatus
    have hknown : Place.status? before ⟨owner, id⟩ = some status := by rw [status?_eq hnode, hstatus]
    exact Option.bind_eq_some_iff.1 (hkept ⟨owner, id⟩ status hknown)
  · intro owner id node link hnode hlink
    obtain ⟨target, held, hlinks, hheld, hlinked, -⟩ := hreach'.linksSound.exists_linked hnode hlink
    obtain ⟨status, hsource, htarget⟩ := heven' hlinks
    rw [status?_eq hnode] at hsource
    rw [Place.status?, hheld, Option.bind_some] at htarget
    exact ⟨held, status, hlinked, hsource, htarget⟩

/-- An alternation is recorded and repeated; then its first side alone is refused, because it would be
optional. -/
theorem status_of_strictRun_sample :
    let before := stateAfter ⟨Sample.types, .reject⟩ ⟨Sample.store, [⟨5⟩]⟩ Sample.parameters
    let after := stateAfter ⟨Sample.types, .reject⟩ ⟨Sample.store, [⟨5⟩, ⟨1⟩]⟩ before
    (∀ parameter ∈ Sample.parameters, parameter.forest = .empty) ∧
      StrictRun Sample.parameters before ∧ StrictRun before after ∧
      (∀ owner id node status, nodeAt? before owner id = some node → node.status = some status →
        ∃ node', nodeAt? after owner id = some node' ∧ node'.status = some status) ∧
      ∀ owner id node link, nodeAt? after owner id = some node → node.link = some link →
        ∃ held status, Parameter.linked? after link = some held ∧ node.status = some status ∧
          held.status = some status := by
  intro before after
  have hbefore : StrictRun Sample.parameters before :=
    StrictRun.refl.analysis Sample.types ⟨Sample.store, [⟨5⟩]⟩
  have hafter : StrictRun before after :=
    StrictRun.refl.analysis Sample.types ⟨Sample.store, [⟨5⟩, ⟨1⟩]⟩
  exact ⟨Sample.nothing_recorded, hbefore, hafter,
    status_of_strictRun Sample.nothing_recorded hbefore hafter⟩

end InputDetail.Analysis
