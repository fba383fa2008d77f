import InputDetail.Proofs.Analysis.Independence
import InputDetail.Proofs.Analysis.Typing

/-!
# What plans record

What independent statements record can be told from their plans alone, without the order in which
they were recorded: the plans are those that are made before anything is recorded, each path that a
plan goes down is there unless a plan excludes it, and each node holds what the one plan that ends
there says. The description is kept by every statement that is independent of those before it.
-/
namespace InputDetail

namespace Analysis

open Parameter

variable {model : Model} {store : ExprStore} {base parameters after : List Parameter}

/-- The link leads to a detached node that holds what is recorded at the end of `secondary`. -/
def Leads (types : Nat → List Name → Option TypeId) (secondary : MemberPlan)
    (parameters : List Parameter) (link : Option Link) : Prop :=
  ∃ target id held type, locate? parameters target.name = some (secondary.owner, target) ∧
    link = some ⟨target.name, id⟩ ∧ nodeAt? parameters secondary.owner id = some held ∧
    held.attached = false ∧ held.type = some type ∧
    types secondary.owner secondary.path = some type ∧ held.status = some secondary.status ∧
    pathAt? parameters secondary.owner id = some secondary.path

/-- What is known of the node at the end of a path, if the plans in `done` have been carried out. -/
structure Told (types : Nat → List Name → Option TypeId) (done : Change → Prop)
    (parameters : List Parameter) (owner : Nat) (path : List Name) (node : Node) : Prop where
  type : ∃ type, node.type = some type ∧ types owner path = some type
  status : ∀ status, node.status = some status ↔
    ∃ change, done change ∧ ∃ plan ∈ change.primary?, plan.EndsAt owner path ∧ plan.status = status
  link_on : ∀ {primary secondary}, done (.link primary secondary) → primary.EndsAt owner path →
    Leads types secondary parameters node.link
  link_off : (∀ primary secondary, done (.link primary secondary) → ¬ primary.EndsAt owner path) →
    node.link = none

/-- The parameters hold what the plans in `done` record, whatever their order was. -/
structure Describes (types : Nat → List Name → Option TypeId) (base : List Parameter)
    (done : Change → Prop) (parameters : List Parameter) : Prop where
  wellFormed : WellFormed parameters
  bare : parameters.map bare = base.map bare
  flag_on : ∀ {owner status}, done (.flag owner status) → ∀ {parameter},
    parameters[owner]? = some parameter → parameter.status = status
  flag_off : ∀ {owner}, (∀ status, ¬ done (.flag owner status)) →
    parameters[owner]?.map (·.status) = base[owner]?.map (·.status)
  isSome_iff : ∀ {owner path}, (found? parameters owner path).isSome ↔
    (∃ change, done change ∧ ∃ plan ∈ change.recorded, plan.Passes owner path) ∧
      ∀ change, done change → ∀ secondary ∈ change.excluded?, ¬ secondary.Heads owner path
  node : ∀ {owner path id node}, found? parameters owner path = some id →
    nodeAt? parameters owner id = some node → Told types done parameters owner path node

theorem Describes.typed {types : TypeTable} {done : Change → Prop}
    (h : Describes (staticType types base) base done parameters) : Typed types base parameters where
  bare := h.bare
  node hfind hnode := (h.node hfind hnode).type

theorem describes_nothing (hempty : ∀ parameter ∈ base, parameter.forest = .empty)
    (types : Nat → List Name → Option TypeId) : Describes types base (fun _ => False) base where
  wellFormed _ parameter hparam := by
    rw [hempty parameter (List.mem_of_getElem? hparam)]
    exact Forest.wellFormed_empty
  bare := rfl
  flag_on h := h.elim
  flag_off _ := rfl
  isSome_iff := by simp [found?_of_empty hempty]
  node hfind := by simp [found?_of_empty hempty] at hfind

section

variable {types : TypeTable} {done : Change → Prop} {path : Path}
  (hempty : ∀ parameter ∈ base, parameter.forest = .empty)
  (h : Describes (staticType types base) base done parameters)
include hempty h

/-- No plan ends at the path. -/
def Fresh (base : List Parameter) (done : Change → Prop) (path : Path) : Prop :=
  ∀ change, done change → ∀ plan ∈ change.recorded, ¬ path.Locates base plan

omit hempty h in
theorem Fresh.not_endsAt (hfresh : Fresh base done path) {plan : MemberPlan}
    (hlocates : path.Locates base plan) {change : Change} (hdone : done change)
    {other : MemberPlan} (hother : other ∈ change.recorded) :
    ¬ other.EndsAt plan.owner plan.path := by
  rintro ⟨howner, hpath⟩
  obtain ⟨hmembers, parameter, hlocate⟩ := hlocates
  exact hfresh change hdone other hother
    ⟨by rw [← hpath, hmembers], parameter, by rw [hlocate, howner]⟩

theorem planPath_eq {model : Model} (hmodel : model.types = types) {status : Status} {id : ExprId}
    (hfresh : ∀ path, pathAt store id = .ok path → Fresh base done path) :
    planPath model store parameters status id = planPath model store base status id := by
  subst hmodel
  refine h.typed.planPath_eq hempty fun _ {path owner parameter} hpath hlocate => ?_
  obtain ⟨hparam, -⟩ := getElem?_of_locate? hlocate
  obtain ⟨original, hlocate', -⟩ := locate_of_bare h.bare.symm hlocate
  rw [statusAt, ← found?_eq hparam]
  cases hfind : found? parameters owner path.members with
  | none => rfl
  | some id =>
    obtain ⟨node, hnode, -⟩ := nodeAt?_of_found? hfind
    rw [Option.bind_some, ← nodeAt?_eq hparam, hnode, Option.bind_some]
    cases hknown : node.status with
    | none => rfl
    | some known =>
      obtain ⟨change, hdone, plan, hplan, hend, -⟩ := ((h.node hfind hnode).status known).1 hknown
      exact absurd ⟨hend.2.symm, original, by rw [hlocate', hend.1]⟩
        (hfresh path hpath change hdone plan (Change.mem_recorded_of_primary? hplan))

theorem hasChildren_eq_false {secondary : MemberPlan}
    (hclear : ∀ change, done change → ∀ plan ∈ change.recorded,
      ¬ secondary.Heads plan.owner plan.path) :
    hasChildren parameters secondary = false ∧ hasChildren base secondary = false := by
  rw [hasChildren_eq_false_iff, hasChildren_eq_false_iff]
  refine ⟨fun name => ?_, fun name => found?_of_empty hempty _ _⟩
  rw [← Option.not_isSome_iff_eq_none, h.isSome_iff]
  rintro ⟨⟨change, hdone, plan, hplan, howner, -, hpre⟩, -⟩
  exact hclear change hdone plan hplan ⟨howner.symm, (List.prefix_append _ _).trans hpre⟩

theorem linked?_eq_none {primary : MemberPlan} (secondary : MemberPlan)
    (hfresh : ∀ change, done change → ∀ plan ∈ change.recorded,
      ¬ plan.EndsAt primary.owner primary.path) :
    linked? parameters primary secondary = none ∧ linked? base primary secondary = none := by
  constructor
  · rw [Option.eq_none_iff_forall_ne_some]
    intro linked hlinked
    obtain ⟨source, target, node, held, -, hfind, hnode, hlink, -⟩ := linked?_eq_some.1 hlinked
    rw [(h.node hfind hnode).link_off] at hlink
    · cases hlink
    · intro other secondary hdone
      exact hfresh _ hdone other (by simp [Change.recorded])
  · rw [Option.eq_none_iff_forall_ne_some]
    intro linked hlinked
    obtain ⟨source, target, node, held, -, hfind, -⟩ := linked?_eq_some.1 hlinked
    rw [found?_of_empty hempty] at hfind
    cases hfind

/-- A statement that is independent of those recorded is planned as if nothing was recorded. -/
theorem planStatement_eq {model : Model} (hmodel : model.types = types) {id : ExprId}
    (hfresh : ∀ path ∈ named store id, Fresh base done path)
    (hclear : ∀ path ∈ excluded? store id, ∀ secondary, path.Locates base secondary →
      ∀ change, done change → ∀ plan ∈ change.recorded, ¬ secondary.Heads plan.owner plan.path) :
    planStatement model store parameters id = planStatement model store base id := by
  unfold planStatement
  cases hstatement : statementAt store id with
  | error halt => rfl
  | ok statement =>
  cases statement with
  | declaration status path =>
    simp only [bind, Except.bind]
    rw [planPath_eq hempty h hmodel]
    intro found hfound
    exact hfresh found (by simp [named, hstatement, hfound, Except.toOption])
  | alternation span status first second =>
    simp only [bind, Except.bind]
    have hfirst : ∀ path, pathAt store first = .ok path → Fresh base done path := fun path hpath =>
      hfresh path (by simp [named, hstatement, hpath, Except.toOption])
    have hsecond : ∀ path, pathAt store second = .ok path → Fresh base done path := fun path hpath =>
      hfresh path (by simp [named, hstatement, hpath, Except.toOption])
    unfold planAlternation
    rw [planPath_eq hempty h hmodel hfirst, planPath_eq hempty h hmodel hsecond]
    cases hprimary : planPath model store base status first with
    | error halt => rfl
    | ok plan =>
    cases hsecondary : planPath model store base status second with
    | error halt => rfl
    | ok plan' =>
    cases plan with
    | flag owner status => rfl
    | members primary =>
    cases plan' with
    | flag owner status => rfl
    | members secondary =>
      obtain ⟨path, hpath, hlocates⟩ := locates_of_planPath hprimary
      obtain ⟨path', hpath', hlocates'⟩ := locates_of_planPath hsecondary
      have hexcluded : path' ∈ excluded? store id := by
        simp [excluded?, hstatement, hpath', Except.toOption]
      obtain ⟨hchildren, hchildren'⟩ := hasChildren_eq_false hempty h
        (hclear path' hexcluded secondary hlocates')
      obtain ⟨hlinked, hlinked'⟩ := linked?_eq_none hempty h secondary
        (fun change hdone plan hplan => (hfirst path hpath).not_endsAt hlocates hdone hplan)
      simp only [bind, Except.bind, alternationDefect?, hchildren, hchildren', hlinked, hlinked']

end

section

variable {types : Nat → List Name → Option TypeId} {done : Change → Prop} {change : Change}
  (h : Describes types base done parameters) (heffect : Effect types change parameters after)
  (hapart : ∀ other, done other → change.Apart other)
include h heffect hapart

/-- A path that a plan goes down is not below the excluded end of a plan apart from it. -/
theorem isSome_iff_of_effect {owner : Nat} {path : List Name} :
    (found? after owner path).isSome ↔
      (∃ other, (other = change ∨ done other) ∧ ∃ plan ∈ other.recorded, plan.Passes owner path) ∧
        ∀ other, (other = change ∨ done other) → ∀ secondary ∈ other.excluded?,
          ¬ secondary.Heads owner path := by
  rw [heffect.isSome_iff, h.isSome_iff]
  constructor
  · rintro ⟨⟨⟨other, hother, hplan⟩, hleft⟩ | ⟨plan, hplan, hway⟩, hchange⟩
    · refine ⟨⟨other, Or.inr hother, hplan⟩, ?_⟩
      rintro other (rfl | hdone)
      · exact hchange
      · exact hleft other hdone
    · refine ⟨⟨change, Or.inl rfl, plan, hplan, hway⟩, ?_⟩
      rintro other (rfl | hdone)
      · exact hchange
      · intro secondary hsecondary hheads
        exact (hapart other hdone).right secondary hsecondary plan hplan
          ⟨hway.1.symm.trans hheads.1, hheads.2.trans hway.2.2⟩
  · rintro ⟨⟨other, rfl | hdone, hplan⟩, hleft⟩
    · exact ⟨Or.inr hplan, hleft other (Or.inl rfl)⟩
    · exact ⟨Or.inl ⟨⟨other, hdone, hplan⟩, fun other hdone => hleft other (Or.inr hdone)⟩,
        hleft change (Or.inl rfl)⟩

/-- A node that an earlier plan goes through was there before. -/
theorem old_of_passes {owner : Nat} {path : List Name} {id : NodeId} {node : Node}
    (hfind : found? after owner path = some id) (horigin : Origin parameters owner path id node)
    (hpasses : ∃ other, done other ∧ ∃ plan ∈ other.recorded, plan.Passes owner path) :
    found? parameters owner path = some id ∧ nodeAt? parameters owner id = some node := by
  obtain hold | ⟨hnone, -⟩ := horigin
  · exact hold
  · have hleft := ((isSome_iff_of_effect h heffect hapart).1 (by rw [hfind]; rfl)).2
    have hsome : (found? parameters owner path).isSome :=
      h.isSome_iff.2 ⟨hpasses, fun other hdone => hleft other (Or.inr hdone)⟩
    rw [hnone] at hsome
    cases hsome

omit hapart in
/-- Links stay as they are, and so does what they lead to. -/
theorem leads_of_effect
    (hrelink : ∀ primary secondary linked, change ≠ .relink primary secondary linked)
    {secondary : MemberPlan} {link : Option Link} (hleads : Leads types secondary parameters link) :
    Leads types secondary after link := by
  obtain ⟨target, id, held, type, hlocate, hlink, hheld, hatt, htype, hstatic, hstatus, hpath⟩ := hleads
  obtain ⟨target', hlocate'⟩ := locate?_isSome_of_names heffect.names hlocate
  have hname := (getElem?_of_locate? hlocate').2
  refine ⟨target', id, held, type, by rw [hname, hlocate'], by rw [hlink, hname], ?_, hatt, htype,
    hstatic, hstatus, ?_⟩
  · exact heffect.unreached hheld (found?_ne_of_detached hheld hatt)
      fun primary secondary linked heq => absurd heq (hrelink primary secondary linked)
  · rw [heffect.keeps.pathAt?_eq h.wellFormed heffect.wellFormed hheld, hpath]

omit h hapart in
/-- The new link leads to what is recorded at the end of the excluded path. -/
theorem leads_of_linked {primary secondary : MemberPlan} (heq : change = .link primary secondary)
    (htypes : ∀ {owner path}, secondary.Passes owner path → (types owner path).isSome)
    (hlocate : ∃ name target, locate? parameters name = some (secondary.owner, target))
    {id : NodeId} {node : Node} (hfind : found? after primary.owner primary.path = some id)
    (hnode : nodeAt? after primary.owner id = some node) : Leads types secondary after node.link := by
  obtain ⟨parameter, excluded, hparam, hexcluded, hlink⟩ := heffect.linked heq
  obtain ⟨name, target, hlocated⟩ := hlocate
  obtain ⟨hparam', hname⟩ := getElem?_of_locate? hlocated
  rw [hparam] at hparam'
  cases hparam'
  obtain ⟨target, hlocated'⟩ := locate?_isSome_of_names heffect.names hlocated
  have hname' := (getElem?_of_locate? hlocated').2
  obtain ⟨held, hheld, hatt, htype, hstatus⟩ := hexcluded.node
  obtain ⟨type, hstatic⟩ := Option.isSome_iff_exists.1 (htypes (MemberPlan.EndsAt.passes ⟨rfl, rfl⟩))
  exact ⟨target, excluded, held, type, by rw [hname', hlocated'],
    by rw [hlink hfind hnode, hname', hname], hheld, hatt, htype.trans hstatic, hstatic, hstatus,
    hexcluded.path⟩

section

variable {owner : Nat} {path : List Name} {id : NodeId} {old node : Node}
  (hfind : found? after owner path = some id) (horigin : Origin parameters owner path id old)
  (hmarks : change.Marks types owner path old node)
include hfind horigin hmarks

/-- A node has the type that is told for its path, whichever plan it is from. -/
theorem type_of_effect (htypes : ∀ plan ∈ change.recorded, ∀ {owner path}, plan.Passes owner path →
    (types owner path).isSome) : ∃ type, node.type = some type ∧ types owner path = some type := by
  by_cases hway : ∃ plan ∈ change.recorded, plan.Passes owner path
  · obtain ⟨plan, hplan, hway⟩ := hway
    obtain ⟨type, htype⟩ := Option.isSome_iff_exists.1 (htypes plan hplan hway)
    exact ⟨type, by rw [hmarks.type_on plan hplan hway, htype], htype⟩
  · have hoff : ∀ plan ∈ change.recorded, ¬ plan.Passes owner path :=
      fun plan hplan hpasses => hway ⟨plan, hplan, hpasses⟩
    obtain ⟨⟨other, rfl | hdone, hplan⟩, -⟩ :=
      (isSome_iff_of_effect h heffect hapart).1 (by rw [hfind]; rfl)
    · exact absurd hplan hway
    · obtain ⟨hfind', hnode'⟩ := old_of_passes h heffect hapart hfind horigin ⟨other, hdone, hplan⟩
      rw [hmarks.type_off hoff]
      exact (h.node hfind' hnode').type

/-- A node has the status that the one plan gives that ends there. -/
theorem status_of_effect (status : Status) : node.status = some status ↔
    ∃ other, (other = change ∨ done other) ∧
      ∃ plan ∈ other.primary?, plan.EndsAt owner path ∧ plan.status = status := by
  by_cases hend : ∃ plan ∈ change.primary?, plan.EndsAt owner path
  · obtain ⟨plan, hplan, hend⟩ := hend
    rw [hmarks.status_on plan hplan hend]
    constructor
    · intro heq
      exact ⟨change, Or.inl rfl, plan, hplan, hend, Option.some.inj heq⟩
    · rintro ⟨other, rfl | hdone, plan', hplan', hend', rfl⟩
      · rw [Option.mem_def.1 hplan] at hplan'
        cases hplan'
        rfl
      · exact absurd ⟨hend'.1.symm.trans hend.1, hend'.2.symm.trans hend.2⟩
          ((hapart other hdone).ends plan (Change.mem_recorded_of_primary? hplan) plan'
            (Change.mem_recorded_of_primary? hplan'))
  · have hoff : ∀ plan ∈ change.primary?, ¬ plan.EndsAt owner path :=
      fun plan hplan hends => hend ⟨plan, hplan, hends⟩
    rw [hmarks.status_off hoff]
    constructor
    · intro hstatus
      obtain ⟨hfind', hnode'⟩ | ⟨-, -, _, _, rfl⟩ := horigin
      · obtain ⟨other, hdone, hplan⟩ := ((h.node hfind' hnode').status status).1 hstatus
        exact ⟨other, Or.inr hdone, hplan⟩
      · cases hstatus
    · rintro ⟨other, rfl | hdone, plan, hplan, hend', hstatus⟩
      · exact absurd hend' (hoff plan hplan)
      · obtain ⟨hfind', hnode'⟩ := old_of_passes h heffect hapart hfind horigin
          ⟨other, hdone, plan, Change.mem_recorded_of_primary? hplan, hend'.passes⟩
        exact ((h.node hfind' hnode').status status).2 ⟨other, hdone, plan, hplan, hend', hstatus⟩

end

/-- What is known of the nodes after one more plan. -/
theorem told_of_effect
    (hrelink : ∀ primary secondary linked, change ≠ .relink primary secondary linked)
    (htypes : ∀ plan ∈ change.recorded, ∀ {owner path}, plan.Passes owner path →
      (types owner path).isSome)
    (hlocate : ∀ {primary secondary}, change = .link primary secondary →
      ∃ name target, locate? parameters name = some (secondary.owner, target))
    {owner : Nat} {path : List Name} {id : NodeId} {node : Node}
    (hfind : found? after owner path = some id) (hnode : nodeAt? after owner id = some node) :
    Told types (fun other => other = change ∨ done other) after owner path node := by
  obtain ⟨old, node', horigin, hnode', hmarks⟩ := heffect.found hfind
  rw [hnode] at hnode'
  cases hnode'
  constructor
  case type => exact type_of_effect h heffect hapart hfind horigin hmarks htypes
  case status => exact status_of_effect h heffect hapart hfind horigin hmarks
  case link_on =>
    rintro primary secondary (heq | hdone) hend
    · obtain ⟨rfl, rfl⟩ := hend
      exact leads_of_linked heffect heq.symm (htypes secondary (by simp [← heq, Change.recorded]))
        (hlocate heq.symm) hfind hnode
    · have hoff : ∀ primary' secondary', change = .link primary' secondary' →
          ¬ primary'.EndsAt owner path := by
        intro primary' secondary' heq hend'
        exact (hapart _ hdone).ends primary' (by simp [heq, Change.recorded]) primary
          (by simp [Change.recorded]) ⟨hend.1.symm.trans hend'.1, hend.2.symm.trans hend'.2⟩
      obtain ⟨hfind', hnode'⟩ := old_of_passes h heffect hapart hfind horigin
        ⟨_, hdone, primary, by simp [Change.recorded], hend.passes⟩
      rw [hmarks.link_off hoff]
      exact leads_of_effect h heffect hrelink ((h.node hfind' hnode').link_on hdone hend)
  case link_off =>
    intro hoff
    rw [hmarks.link_off fun primary secondary heq => hoff primary secondary (Or.inl heq.symm)]
    obtain ⟨hfind', hnode'⟩ | ⟨-, -, _, _, rfl⟩ := horigin
    · exact (h.node hfind' hnode').link_off fun primary secondary hdone =>
        hoff primary secondary (Or.inr hdone)
    · rfl

/-- The description is kept by a plan that is apart from the earlier ones. -/
theorem describes_of_effect
    (hrelink : ∀ primary secondary linked, change ≠ .relink primary secondary linked)
    (htypes : ∀ plan ∈ change.recorded, ∀ {owner path}, plan.Passes owner path →
      (types owner path).isSome)
    (hlocate : ∀ {primary secondary}, change = .link primary secondary →
      ∃ name target, locate? parameters name = some (secondary.owner, target)) :
    Describes types base (fun other => other = change ∨ done other) after where
  wellFormed := heffect.wellFormed
  bare := (bare_of_effect heffect).trans h.bare
  flag_on {owner status} hflag {parameter} hparam := by
    obtain ⟨status', rfl, hget⟩ | ⟨hne, hget⟩ := flag_of_effect heffect owner
    · obtain heq | hdone := hflag
      · cases heq
        obtain ⟨original, -, rfl⟩ := Option.map_eq_some_iff.1 (hget.symm.trans (congrArg _ hparam))
        rfl
      · exact absurd rfl ((hapart _ hdone).flags rfl)
    · rw [hparam, Option.map_some] at hget
      obtain ⟨original, horiginal, hstatus⟩ := Option.map_eq_some_iff.1 hget.symm
      rw [← hstatus, h.flag_on (hflag.resolve_left fun heq => hne status heq.symm) horiginal]
  flag_off {owner} hnone := by
    obtain ⟨status, heq, -⟩ | ⟨-, hget⟩ := flag_of_effect heffect owner
    · exact absurd (Or.inl heq.symm) (hnone status)
    · rw [hget, h.flag_off fun status hdone => hnone status (Or.inr hdone)]
  isSome_iff := isSome_iff_of_effect h heffect hapart
  node := told_of_effect h heffect hapart hrelink htypes hlocate

end

/-- An independent statement that is in order at first is recorded, and adds its plan to the
description. -/
theorem Describes.step {done : Change → Prop} {id : ExprId} {change : Change}
    (hempty : ∀ parameter ∈ base, parameter.forest = .empty)
    (h : Describes (staticType model.types base) base done parameters)
    (hapart : ∀ other, done other → change.Apart other)
    (hplan : planStatement model store base id = .ok change)
    (hsame : planStatement model store parameters id = planStatement model store base id) :
    ∃ after, analyzeStatement model store id parameters = .ok () after ∧
      Describes (staticType model.types base) base (fun other => other = change ∨ done other)
        after := by
  have hrelink : ∀ primary secondary linked, change ≠ .relink primary secondary linked := by
    rintro primary secondary linked rfl
    obtain ⟨source, target, node, held, -, hfind, -⟩ :=
      linked?_eq_some.1 ((typed_of_empty hempty model.types).sound hplan).2
    rw [found?_of_empty hempty] at hfind
    cases hfind
  have hplan' := hsame.trans hplan
  obtain ⟨after, hok, heffect⟩ := h.typed.analyzeStatement_spec h.wellFormed hplan'
  refine ⟨after, hok, ?_⟩
  refine describes_of_effect h heffect hapart hrelink
    (fun plan hmem => ((h.typed.sound hplan').along plan hmem).isSome) fun {primary secondary} heq => ?_
  subst heq
  obtain ⟨-, hexcluded, -⟩ := locates_of_planStatement hplan
  obtain ⟨path, -, -, original, hlocate⟩ := hexcluded secondary (by simp [Change.excluded?])
  obtain ⟨target, hlocate', -⟩ := locate_of_bare h.bare hlocate
  exact ⟨path.parameter, target, hlocate'⟩

end Analysis

end InputDetail
