import InputDetail.Proofs.Analysis.Fates
import InputDetail.Proofs.Analysis.Links
import Mathlib.Logic.Relation

/-!
# The graph of links

A link leads from a node to one that is out of reach, maybe in the forest of another parameter. An
alternation makes one such arrow, and takes back the arrow that its first node had before. The first
node is attached then, the second has just been detached, and nothing detached is attached again. So
no two arrows lead to one node, and following arrows never leads back.
-/
namespace InputDetail.Analysis

open Parameter Relation

/-- A node of the parameter at position `owner`. -/
@[ext]
structure Place where
  owner : Nat
  node : NodeId
deriving DecidableEq

namespace Place

def link? (parameters : List Parameter) (place : Place) : Option Link :=
  (nodeAt? parameters place.owner place.node).bind (·.link)

/-- Whether the node is attached, if there is one. -/
def attached? (parameters : List Parameter) (place : Place) : Option Bool :=
  (nodeAt? parameters place.owner place.node).map (·.attached)

end Place

/-- The link of the first node leads to the second, by the name of its parameter and its number. -/
def LinksTo (parameters : List Parameter) (source target : Place) : Prop :=
  ∃ link, source.link? parameters = some link ∧
    position? parameters link.parameter = some target.owner ∧ link.node = target.node

variable {types : Nat → List Name → Option TypeId} {parameters after : List Parameter}
  {owner : Nat} {path : List Name} {id : NodeId} {place source target : Place}

/-- Only nodes have links, so what links and is not out of reach is attached. -/
theorem LinksTo.attached?_eq_true (h : LinksTo parameters source target)
    (hatt : source.attached? parameters ≠ some false) : source.attached? parameters = some true := by
  obtain ⟨link, hlink, -⟩ := h
  obtain ⟨node, hnode, -⟩ := Option.bind_eq_some_iff.1 hlink
  simpa [Place.attached?, hnode] using hatt

theorem attached?_of_found? (h : found? parameters owner path = some id) :
    Place.attached? parameters ⟨owner, id⟩ = some true := by
  obtain ⟨node, hnode, hatt⟩ := nodeAt?_of_found? h
  simp [Place.attached?, hnode, hatt]

/-- A node that is still to be detached was attached before, or there was none. -/
theorem attached?_of_origin {base : Node} (h : Origin parameters owner path id base) :
    Place.attached? parameters ⟨owner, id⟩ ≠ some false := by
  obtain ⟨hfind, -⟩ | ⟨-, hnone, -⟩ := h
  · simp [attached?_of_found? hfind]
  · simp [Place.attached?, hnone]

theorem link?_of_origin {base : Node} (h : Origin parameters owner path id base) :
    Place.link? parameters ⟨owner, id⟩ = base.link := by
  obtain ⟨-, hnode⟩ | ⟨-, hnone, name, parent, rfl⟩ := h
  · simp [Place.link?, hnode]
  · simp [Place.link?, hnone, Node.new]

theorem Excluded.attached? {secondary : MemberPlan}
    (h : Excluded types secondary place.node parameters after)
    (howner : place.owner = secondary.owner) : place.attached? after = some false := by
  obtain ⟨node, hnode, hatt, -⟩ := h.node
  simp [Place.attached?, howner, hnode, hatt]

/-- A change excludes only one node that was there before. -/
theorem Excluded.unique {secondary : MemberPlan} {id' : NodeId} {node : Node}
    (h : Excluded types secondary id parameters after)
    (h' : Excluded types secondary id' parameters after)
    (hnode : nodeAt? parameters secondary.owner id = some node) : id' = id := by
  obtain ⟨_, ⟨hfind, -⟩ | ⟨-, hnone, -⟩⟩ := h.origin
  · obtain ⟨_, ⟨hfind', -⟩ | ⟨hnone, -⟩⟩ := h'.origin
    · rwa [hfind, Option.some.injEq, eq_comm] at hfind'
    · simp [hfind] at hnone
  · simp [hnode] at hnone

/-- The change gives the node a link: it is at the end of the first path of a new alternation. -/
def Change.Links (change : Change) (after : List Parameter) (place : Place) : Prop :=
  ∃ primary secondary, change = .link primary secondary ∧ place.owner = primary.owner ∧
    found? after primary.owner primary.path = some place.node

theorem Change.Links.attached? {change : Change} (h : change.Links after place) :
    place.attached? after = some true := by
  obtain ⟨primary, secondary, -, howner, hfind⟩ := h
  exact attached?_of_found? (howner ▸ hfind)

theorem Change.not_links_of_detached (change : Change) (hout : place.attached? after = some false) :
    ¬ change.Links after place := by
  intro h
  simp [h.attached?] at hout

theorem Change.Links.unique {change : Change} (h : change.Links after place)
    (h' : change.Links after source) : place = source := by
  obtain ⟨primary, secondary, rfl, howner, hfind⟩ := h
  obtain ⟨_, _, heq, howner', hfind'⟩ := h'
  cases heq
  rw [hfind, Option.some.injEq] at hfind'
  exact Place.ext (howner.trans howner'.symm) hfind'

namespace Outcome

variable {change : Change} (h : Outcome types change parameters after)
include h

/-- Every other node keeps its link. -/
theorem link?_eq (hold : ¬ change.Links after place) : place.link? after = place.link? parameters := by
  obtain ⟨owner, id⟩ := place
  cases hnode : nodeAt? after owner id with
  | none =>
    cases hbase : nodeAt? parameters owner id with
    | none => simp [Place.link?, hnode, hbase]
    | some base =>
      obtain ⟨node, hkept⟩ := h.keeps.node_exists hbase
      rw [hnode] at hkept
      cases hkept
  | some node =>
    have hlink : Place.link? after ⟨owner, id⟩ = node.link := by simp [Place.link?, hnode]
    rw [hlink]
    cases h.fate hnode with
    | found path hfind =>
      obtain ⟨base, node', horigin, hnode', hmarks⟩ := h.found hfind
      rw [hnode] at hnode'
      cases hnode'
      rw [link?_of_origin horigin]
      refine hmarks.link_off fun primary secondary heq hend => hold ?_
      obtain ⟨rfl, rfl⟩ := hend
      exact ⟨primary, secondary, heq, rfl, hfind⟩
    | excluded _ _ base _ _ horigin _ hsame => rw [link?_of_origin horigin, hsame]
    | unreached base status hbefore _ hsame => simp [Place.link?, hbefore, hsame]

/-- Detached nodes stay detached. -/
theorem attached?_of_detached (hout : place.attached? parameters = some false) :
    place.attached? after = some false := by
  obtain ⟨base, hbase, hatt⟩ := Option.map_eq_some_iff.1 hout
  obtain hsame | ⟨_, _, -, -, hsame⟩ := h.detached hbase hatt <;>
    simpa [Place.attached?, hsame] using hatt

/-- Only the second node of a new alternation is detached. -/
theorem attached?_of_attached (hatt : place.attached? parameters = some true) :
    place.attached? after = some true ∨ ∃ secondary ∈ change.excluded?,
      place.owner = secondary.owner ∧ Excluded types secondary place.node parameters after := by
  obtain ⟨owner, id⟩ := place
  obtain ⟨base, hbase, hbaseAtt⟩ := Option.map_eq_some_iff.1 hatt
  obtain ⟨node, hnode⟩ := h.keeps.node_exists hbase
  cases h.fate hnode with
  | found path hfind => exact Or.inl (attached?_of_found? hfind)
  | excluded primary secondary _ hlink howner _ hexcluded _ =>
    exact Or.inr ⟨secondary, by rw [hlink]; rfl, howner, hexcluded⟩
  | unreached base' status hbefore _ hsame =>
    rw [hbase] at hbefore
    cases hbefore
    left
    simpa [Place.attached?, hnode, hsame] using hbaseAtt

/-- The arrows from every other node are kept. -/
theorem linksTo_iff (hold : ¬ change.Links after source) :
    LinksTo after source target ↔ LinksTo parameters source target := by
  simp only [LinksTo, h.link?_eq hold, position?_congr h.names]

variable {model : Model} {store : ExprStore} {statement : ExprId}
  (hplan : planStatement model store parameters statement = .ok change)
include hplan

/-- The path that a statement documents leads to a node with the status of the statement. -/
theorem found_primary {plan : MemberPlan} (hprimary : plan ∈ change.primary?) :
    ∃ id node, found? after plan.owner plan.path = some id ∧
      nodeAt? after plan.owner id = some node ∧ node.status = some plan.status := by
  have hrecorded := Change.mem_recorded_of_primary? hprimary
  have hsome : (found? after plan.owner plan.path).isSome := by
    refine h.isSome_iff.2 ⟨Or.inr ⟨plan, hrecorded, MemberPlan.EndsAt.passes ⟨rfl, rfl⟩⟩, ?_⟩
    exact fun _ => (planStatement_sound hplan).not_heads hprimary
  obtain ⟨id, hfind⟩ := Option.isSome_iff_exists.1 hsome
  obtain ⟨_, node, -, hnode, hmarks⟩ := h.found hfind
  exact ⟨id, node, hfind, hnode, hmarks.status_on plan hprimary ⟨rfl, rfl⟩⟩

/-- A new alternation gives its first node a link. -/
theorem exists_links {secondary : MemberPlan} (hsecondary : secondary ∈ change.excluded?) :
    ∃ place, change.Links after place := by
  obtain ⟨primary, rfl⟩ : ∃ primary, change = .link primary secondary := by
    cases change <;> simp_all [Change.excluded?]
  obtain ⟨id, _, hfind, -⟩ := h.found_primary hplan rfl
  exact ⟨⟨primary.owner, id⟩, primary, secondary, rfl, rfl, hfind⟩

/-- The node that gets a link has one arrow afterwards. It leads to the node just detached. -/
theorem linksTo_iff_of_links (hnew : change.Links after source) :
    ∃ secondary ∈ change.excluded?, ∃ excluded, Excluded types secondary excluded parameters after ∧
      ∀ target, LinksTo after source target ↔ target = ⟨secondary.owner, excluded⟩ := by
  obtain ⟨primary, secondary, rfl, howner, hfind⟩ := hnew
  obtain ⟨parameter, excluded, hparam, hexcluded, hlink⟩ := h.linked rfl
  refine ⟨secondary, rfl, excluded, hexcluded, fun target => ?_⟩
  obtain ⟨node, hnode, -⟩ := nodeAt?_of_found? hfind
  have harrow : source.link? after = some ⟨parameter.name, excluded⟩ := by
    simp [Place.link?, howner, hnode, hlink hfind hnode]
  have hposition : position? after parameter.name = some secondary.owner := by
    rw [position?_congr h.names, position?_of_planStatement hplan rfl hparam]
  simp only [LinksTo, harrow, Option.some.injEq, exists_eq_left', hposition, Place.ext_iff]
  exact and_congr eq_comm eq_comm

/-- The new arrow leads to the node that was attached before and is detached now. -/
theorem linksTo_of_excluded (hnew : change.Links after source)
    (hatt : target.attached? parameters = some true) {secondary : MemberPlan}
    (hsecondary : secondary ∈ change.excluded?) (howner : target.owner = secondary.owner)
    (hexcluded : Excluded types secondary target.node parameters after) :
    LinksTo after source target := by
  obtain ⟨_, hsecondary', excluded, hexcluded', harrow⟩ := h.linksTo_iff_of_links hplan hnew
  rw [Option.mem_def.1 hsecondary] at hsecondary'
  cases hsecondary'
  obtain ⟨node, hnode, -⟩ := Option.map_eq_some_iff.1 hatt
  rw [howner] at hnode
  exact (harrow target).2 (Place.ext howner (hexcluded.unique hexcluded' hnode).symm)

/-- An arrow is an old one, or the one that an alternation makes. -/
theorem linksTo_cases (hlinks : LinksTo after source target) :
    ¬ change.Links after source ∧ LinksTo parameters source target ∨
      change.Links after source ∧ ∃ secondary ∈ change.excluded?, target.owner = secondary.owner ∧
        Excluded types secondary target.node parameters after := by
  by_cases hnew : change.Links after source
  · obtain ⟨secondary, hsecondary, excluded, hexcluded, harrow⟩ := h.linksTo_iff_of_links hplan hnew
    obtain rfl := (harrow target).1 hlinks
    exact Or.inr ⟨hnew, secondary, hsecondary, rfl, hexcluded⟩
  · exact Or.inl ⟨hnew, (h.linksTo_iff hnew).1 hlinks⟩

end Outcome

/-- All links lead to detached nodes, each to one of its own, and never back. -/
structure LinksSound (parameters : List Parameter) : Prop where
  leads : ∀ {source link}, source.link? parameters = some link →
    ∃ target, LinksTo parameters source target
  detached : ∀ {source target}, LinksTo parameters source target →
    target.attached? parameters = some false
  apart : ∀ {source source' target}, LinksTo parameters source target →
    LinksTo parameters source' target → source = source'
  acyclic : ∀ place, ¬ TransGen (LinksTo parameters) place place

theorem not_linksTo_of_empty (hempty : ∀ parameter ∈ parameters, parameter.forest = .empty) :
    ¬ LinksTo parameters source target := by
  rintro ⟨link, hlink, -⟩
  simp [Place.link?, nodeAt?_of_empty hempty] at hlink

theorem linksSound_of_empty (hempty : ∀ parameter ∈ parameters, parameter.forest = .empty) :
    LinksSound parameters where
  leads hlink := by simp [Place.link?, nodeAt?_of_empty hempty] at hlink
  detached hlinks := absurd hlinks (not_linksTo_of_empty hempty)
  apart hlinks := absurd hlinks (not_linksTo_of_empty hempty)
  acyclic place hcycle := by
    obtain ⟨next, hlinks, -⟩ := TransGen.head'_iff.1 hcycle
    exact not_linksTo_of_empty hempty hlinks

/-- Nothing leads to the node that an alternation is about to detach. -/
theorem LinksSound.not_linksTo (h : LinksSound parameters) {secondary : MemberPlan}
    (howner : target.owner = secondary.owner)
    (hexcluded : Excluded types secondary target.node parameters after) :
    ¬ LinksTo parameters source target := by
  intro hlinks
  obtain ⟨base, horigin⟩ := hexcluded.origin
  exact attached?_of_origin horigin (howner ▸ h.detached hlinks)

/-- A chain of arrows is old if its first node gets no new link and all other nodes are detached. -/
theorem Outcome.transGen_before {change : Change} (h : Outcome types change parameters after)
    (hdetached : ∀ {source target}, LinksTo after source target → target.attached? after = some false)
    (hold : ¬ change.Links after source) (hchain : TransGen (LinksTo after) source target) :
    TransGen (LinksTo parameters) source target := by
  induction hchain with
  | single hlinks => exact .single ((h.linksTo_iff hold).1 hlinks)
  | tail hchain hlinks ih =>
    obtain ⟨_, -, hmiddle⟩ := TransGen.tail'_iff.1 hchain
    exact ih.tail ((h.linksTo_iff (change.not_links_of_detached (hdetached hmiddle))).1 hlinks)

/-- A chain of arrows stays if its first node gets no new link. -/
theorem Outcome.transGen_after {change : Change} (h : Outcome types change parameters after)
    (hsound : LinksSound parameters) (hold : ¬ change.Links after source)
    (hchain : TransGen (LinksTo parameters) source target) : TransGen (LinksTo after) source target := by
  induction hchain with
  | single hlinks => exact .single ((h.linksTo_iff hold).2 hlinks)
  | tail hchain hlinks ih =>
    obtain ⟨_, -, hmiddle⟩ := TransGen.tail'_iff.1 hchain
    have hout := h.attached?_of_detached (hsound.detached hmiddle)
    exact ih.tail ((h.linksTo_iff (change.not_links_of_detached hout)).2 hlinks)

/-- Recording one more statement. -/
theorem LinksSound.step (hsound : LinksSound parameters) {model : Model} {store : ExprStore}
    {statement : ExprId} {change : Change} (h : Outcome types change parameters after)
    (hplan : planStatement model store parameters statement = .ok change) : LinksSound after := by
  have hdetached : ∀ {source target}, LinksTo after source target →
      target.attached? after = some false := by
    intro source target hlinks
    obtain ⟨-, hold⟩ | ⟨-, secondary, -, howner, hexcluded⟩ := h.linksTo_cases hplan hlinks
    · exact h.attached?_of_detached (hsound.detached hold)
    · exact hexcluded.attached? howner
  constructor
  case leads =>
    intro source link hlink
    by_cases hnew : change.Links after source
    · obtain ⟨secondary, -, excluded, -, harrow⟩ := h.linksTo_iff_of_links hplan hnew
      exact ⟨_, (harrow _).2 rfl⟩
    · rw [h.link?_eq hnew] at hlink
      obtain ⟨target, hlinks⟩ := hsound.leads hlink
      exact ⟨target, (h.linksTo_iff hnew).2 hlinks⟩
  case detached => exact hdetached
  case apart =>
    intro source source' target hlinks hlinks'
    obtain ⟨-, hold⟩ | ⟨hnew, _, -, htarget, hexcluded⟩ := h.linksTo_cases hplan hlinks
    · obtain ⟨-, hold'⟩ | ⟨-, _, -, htarget, hexcluded⟩ := h.linksTo_cases hplan hlinks'
      · exact hsound.apart hold hold'
      · exact absurd hold (hsound.not_linksTo htarget hexcluded)
    · obtain ⟨-, hold'⟩ | ⟨hnew', -⟩ := h.linksTo_cases hplan hlinks'
      · exact absurd hold' (hsound.not_linksTo htarget hexcluded)
      · exact hnew.unique hnew'
  case acyclic =>
    intro place hcycle
    obtain ⟨last, -, hlast⟩ := TransGen.tail'_iff.1 hcycle
    have hold := change.not_links_of_detached (hdetached hlast)
    exact hsound.acyclic place (h.transGen_before hdetached hold hcycle)

theorem Reachable.linksSound (h : Reachable parameters) : LinksSound parameters := by
  induction h with
  | start nothing => exact linksSound_of_empty nothing
  | @analysis parameters before model document ih =>
    refine stateAfter_of_step before.built.wellFormed ih fun hwf hsound hok => ?_
    obtain ⟨change, hplan, h⟩ := outcome_of_analyzeStatement hwf hok
    exact hsound.step h hplan

/-- A link is found through the name of its parameter, at the node that it leads to. -/
theorem LinksSound.exists_linked (h : LinksSound parameters) {node : Node} {link : Link}
    (hnode : nodeAt? parameters owner id = some node) (hlink : node.link = some link) :
    ∃ target held, LinksTo parameters ⟨owner, id⟩ target ∧
      nodeAt? parameters target.owner target.node = some held ∧
      Parameter.linked? parameters link = some held ∧ held.attached = false := by
  have hsource : Place.link? parameters ⟨owner, id⟩ = some link := by
    simp [Place.link?, hnode, hlink]
  obtain ⟨target, hlinks⟩ := h.leads hsource
  obtain ⟨held, hheld, hatt⟩ := Option.map_eq_some_iff.1 (h.detached hlinks)
  refine ⟨target, held, hlinks, hheld, ?_, hatt⟩
  obtain ⟨link', hlink', hposition, hid⟩ := hlinks
  obtain rfl : link = link' := Option.some.inj (hsource.symm.trans hlink')
  rw [Parameter.linked?, byName?_eq, hposition, hid]
  exact hheld

/-- Whatever was analyzed, and however it ended: every link of every node leads to a detached node,
no two links lead to the same node, and following links never leads back. -/
theorem links_of_reachable (h : Reachable parameters) :
    (∀ owner id node link, nodeAt? parameters owner id = some node → node.link = some link →
      ∃ target held, LinksTo parameters ⟨owner, id⟩ target ∧
        nodeAt? parameters target.owner target.node = some held ∧
        Parameter.linked? parameters link = some held ∧ held.attached = false) ∧
    (∀ source source' target, LinksTo parameters source target →
      LinksTo parameters source' target → source = source') ∧
    ∀ place, ¬ TransGen (LinksTo parameters) place place := by
  have hsound := h.linksSound
  refine ⟨fun owner id node link hnode hlink => ?_, fun _ _ _ => hsound.apart, hsound.acyclic⟩
  exact hsound.exists_linked hnode hlink

/-- The alternation of `a` and `b` links the first node to the second. -/
theorem links_of_reachable_sample :
    let after := stateAfter Sample.model ⟨Sample.store, [⟨5⟩]⟩ Sample.parameters
    Reachable after ∧ LinksTo after ⟨0, ⟨0⟩⟩ ⟨0, ⟨1⟩⟩ ∧
      (∃ held, Parameter.linked? after ⟨⟨7⟩, ⟨1⟩⟩ = some held ∧ held.attached = false) ∧
      (∀ source, LinksTo after source ⟨0, ⟨1⟩⟩ → source = ⟨0, ⟨0⟩⟩) ∧
      ¬ LinksTo after ⟨0, ⟨1⟩⟩ ⟨0, ⟨0⟩⟩ := by
  intro after
  have hreach : Reachable after := (Reachable.start Sample.nothing_recorded).analysis _ _
  obtain ⟨hleads, hapart, hacyclic⟩ := links_of_reachable hreach
  have hlink : Place.link? after ⟨0, ⟨0⟩⟩ = some ⟨⟨7⟩, ⟨1⟩⟩ := by decide +kernel
  obtain ⟨node, hnode, hsome⟩ := Option.bind_eq_some_iff.1 hlink
  obtain ⟨target, held, -, -, hheld, hatt⟩ := hleads 0 ⟨0⟩ node _ hnode hsome
  have hfirst : LinksTo after ⟨0, ⟨0⟩⟩ ⟨0, ⟨1⟩⟩ :=
    ⟨⟨⟨7⟩, ⟨1⟩⟩, hlink, by decide +kernel, rfl⟩
  refine ⟨hreach, hfirst, ⟨held, hheld, hatt⟩, fun source hsource => ?_, fun hback => ?_⟩
  · exact hapart source ⟨0, ⟨0⟩⟩ ⟨0, ⟨1⟩⟩ hsource hfirst
  · exact hacyclic ⟨0, ⟨0⟩⟩ ((TransGen.single hfirst).tail hback)

end InputDetail.Analysis
