import InputDetail.Proofs.Analysis.Typing

/-!
# Links between analyses

A node is linked when an alternation ends at it. The link leads to the node that the alternation
detached, and nothing detached is ever attached again; so a link keeps leading to a detached node, and
no two paths lead to nodes with the same link.
-/
namespace InputDetail.Analysis

open Parameter

/-- The node at the end of a path has a link. -/
def Linked (parameters : List Parameter) (owner : Nat) (path : List Name) (id : NodeId)
    (link : Link) : Prop :=
  ∃ node, found? parameters owner path = some id ∧ nodeAt? parameters owner id = some node ∧
    node.link = some link

/-- The link leads to a detached node with a status, in the forest of the parameter at position
`target`. -/
def LeadsOut (parameters : List Parameter) (link : Link) (target : Nat) : Prop :=
  position? parameters link.parameter = some target ∧ ∃ held,
    nodeAt? parameters target link.node = some held ∧ held.attached = false ∧ held.status.isSome

namespace Change

/-- The path whose end is linked to. -/
def secondary? : Change → Option MemberPlan
  | .link _ secondary => some secondary
  | .relink _ secondary _ => some secondary
  | _ => none

theorem secondary?_of_excluded? {change : Change} {secondary : MemberPlan}
    (h : secondary ∈ change.excluded?) : secondary ∈ change.secondary? := by
  cases change with
  | link primary other => exact h
  | flag owner status => cases h
  | record plan => cases h
  | relink primary other linked => cases h

end Change

section

variable {types : Nat → List Name → Option TypeId} {change : Change}
  {parameters after : List Parameter} {owner : Nat} {path : List Name} {id : NodeId}

/-- A link is an old one, or the one that an alternation makes. -/
theorem Effect.linked_cases (heffect : Effect types change parameters after) {link : Link}
    (h : Linked after owner path id link) : Linked parameters owner path id link ∨
      ∃ primary secondary parameter, change = .link primary secondary ∧ primary.EndsAt owner path ∧
        parameters[secondary.owner]? = some parameter ∧ link.parameter = parameter.name ∧
        Excluded types secondary link.node parameters after := by
  obtain ⟨node, hfind, hnode, hlink⟩ := h
  obtain ⟨base, node', horigin, hnode', hmarks⟩ := heffect.found hfind
  rw [hnode] at hnode'
  cases hnode'
  by_cases hend : ∃ primary secondary, change = .link primary secondary ∧ primary.EndsAt owner path
  · obtain ⟨primary, secondary, heq, rfl, rfl⟩ := hend
    obtain ⟨parameter, excluded, hparam, hexcluded, hnew⟩ := heffect.linked heq
    rw [hnew hfind hnode] at hlink
    cases hlink
    exact Or.inr ⟨primary, secondary, parameter, heq, ⟨rfl, rfl⟩, hparam, rfl, hexcluded⟩
  · rw [hmarks.link_off fun primary secondary heq hends =>
      hend ⟨primary, secondary, heq, hends⟩] at hlink
    obtain ⟨hfind', hnode'⟩ | ⟨-, -, name, parent, rfl⟩ := horigin
    · exact Or.inl ⟨base, hfind', hnode', hlink⟩
    · cases hlink

/-- A node that no path leads to stays as it is, unless an alternation is repeated that excludes it. -/
theorem Effect.unreached_cases (heffect : Effect types change parameters after) {held : Node}
    (hheld : nodeAt? parameters owner id = some held)
    (hout : ∀ path, found? parameters owner path ≠ some id) :
    nodeAt? after owner id = some held ∨ ∃ primary secondary, change = .relink primary secondary id ∧
      secondary.owner = owner ∧
      nodeAt? after owner id = some { held with status := some secondary.status } := by
  by_cases hrelink : ∃ primary secondary, change = .relink primary secondary id ∧
      secondary.owner = owner
  · obtain ⟨primary, secondary, heq, rfl⟩ := hrelink
    exact Or.inr ⟨primary, secondary, heq, rfl, heffect.relinked heq hheld⟩
  · refine Or.inl (heffect.unreached hheld hout ?_)
    rintro primary secondary linked heq ⟨rfl, rfl⟩
    exact hrelink ⟨primary, secondary, heq, rfl⟩

/-- A detached node stays as it is, unless an alternation is repeated that excludes it. -/
theorem Effect.detached (heffect : Effect types change parameters after) {held : Node}
    (hheld : nodeAt? parameters owner id = some held) (hatt : held.attached = false) :
    nodeAt? after owner id = some held ∨ ∃ primary secondary, change = .relink primary secondary id ∧
      secondary.owner = owner ∧
      nodeAt? after owner id = some { held with status := some secondary.status } :=
  heffect.unreached_cases hheld (found?_ne_of_detached hheld hatt)

/-- What a link leads to stays detached. -/
theorem Effect.leadsOut (heffect : Effect types change parameters after) {link : Link} {target : Nat}
    (h : LeadsOut parameters link target) : LeadsOut after link target := by
  obtain ⟨hposition, held, hheld, hatt, hstatus⟩ := h
  refine ⟨by rw [position?_congr heffect.names, hposition], ?_⟩
  obtain hsame | ⟨primary, secondary, -, -, hnew⟩ := heffect.detached hheld hatt
  · exact ⟨held, hsame, hatt, hstatus⟩
  · exact ⟨_, hnew, hatt, rfl⟩

end

variable {model : Model} {store : ExprStore} {base parameters after : List Parameter}

theorem position?_of_planStatement {id : ExprId} {change : Change}
    (h : planStatement model store parameters id = .ok change) {secondary : MemberPlan}
    (hsecondary : secondary ∈ change.secondary?) {parameter : Parameter}
    (hparam : parameters[secondary.owner]? = some parameter) :
    position? parameters parameter.name = some secondary.owner := by
  obtain ⟨_, _, plan, -, -, rfl⟩ | ⟨_, _, _, _, -, hplan⟩ := planStatement_cases h
  · cases plan <;> cases hsecondary
  · obtain ⟨primary, secondary', -, hplanned, -, hcase⟩ := planAlternation_cases hplan
    obtain ⟨-, -, path, parameter', -, -, hlocate⟩ := planPath_members hplanned
    obtain rfl : secondary' = secondary := by
      obtain ⟨-, rfl⟩ | ⟨linked, -, rfl⟩ := hcase
      · exact Option.some.inj hsecondary
      · exact Option.some.inj hsecondary
    rw [(getElem?_of_locate? hlocate).1] at hparam
    cases hparam
    exact position?_of_locate? hlocate

/-- What holds whenever statements have been recorded in parameters that were empty at first. -/
structure Coherent (types : TypeTable) (base parameters : List Parameter) : Prop where
  wellFormed : WellFormed parameters
  typed : Typed types base parameters
  linked : ∀ {owner path id link}, Linked parameters owner path id link →
    (∃ node, nodeAt? parameters owner id = some node ∧ node.status.isSome) ∧
      ∃ target, LeadsOut parameters link target
  apart : ∀ {owner owner' path path' id id' link}, Linked parameters owner path id link →
    Linked parameters owner' path' id' link → owner = owner' ∧ path = path'

theorem coherent_of_empty (hempty : ∀ parameter ∈ base, parameter.forest = .empty)
    (types : TypeTable) : Coherent types base base where
  wellFormed _ parameter hparam := by
    rw [hempty parameter (List.mem_of_getElem? hparam)]
    exact Forest.wellFormed_empty
  typed := typed_of_empty hempty types
  linked h := by
    obtain ⟨node, hfind, -⟩ := h
    rw [found?_of_empty hempty] at hfind
    cases hfind
  apart h := by
    obtain ⟨node, hfind, -⟩ := h
    rw [found?_of_empty hempty] at hfind
    cases hfind

/-- No link was there before that leads to the node that an alternation excludes. -/
theorem Coherent.not_linked {types : TypeTable} (h : Coherent types base parameters)
    {planned : Nat → List Name → Option TypeId} {secondary : MemberPlan} {parameter : Parameter}
    (hposition : position? parameters parameter.name = some secondary.owner) {link : Link}
    (hname : link.parameter = parameter.name)
    (hexcluded : Excluded planned secondary link.node parameters after) {owner : Nat}
    {path : List Name} {id : NodeId} : ¬ Linked parameters owner path id link := by
  intro hlinked
  obtain ⟨-, target, hposition', held, hheld, hatt, -⟩ := h.linked hlinked
  rw [hname, hposition] at hposition'
  cases hposition'
  obtain ⟨base, ⟨hfind, -⟩ | ⟨-, hnone, -⟩⟩ := hexcluded.origin
  · exact found?_ne_of_detached hheld hatt _ hfind
  · rw [hheld] at hnone
    cases hnone

/-- What is linked has a status: it had one before, or it got one with its link. -/
theorem Coherent.source_of_step {types : TypeTable} (h : Coherent types base parameters)
    {change : Change} (heffect : Effect (staticType types base) change parameters after) {owner : Nat}
    {path : List Name} {id : NodeId} {link : Link} (hlinked : Linked after owner path id link) :
    ∃ node, nodeAt? after owner id = some node ∧ node.status.isSome := by
  have hcases := heffect.linked_cases hlinked
  obtain ⟨_, hfind, -⟩ := hlinked
  obtain ⟨old, new, horigin, hnew, hmarks⟩ := heffect.found hfind
  refine ⟨new, hnew, ?_⟩
  by_cases hend : ∃ plan ∈ change.primary?, plan.EndsAt owner path
  · obtain ⟨plan, hprimary, hend⟩ := hend
    rw [hmarks.status_on plan hprimary hend]
    rfl
  · rw [hmarks.status_off fun plan hprimary hends => hend ⟨plan, hprimary, hends⟩]
    obtain hold | ⟨primary, secondary, _, rfl, hends, -⟩ := hcases
    · obtain ⟨⟨held, hheld, hsome⟩, -⟩ := h.linked hold
      obtain ⟨-, hfind', -⟩ := hold
      obtain ⟨-, hold⟩ | ⟨hnone, -⟩ := horigin
      · rw [hheld] at hold
        cases hold
        exact hsome
      · rw [hfind'] at hnone
        cases hnone
    · exact absurd ⟨primary, rfl, hends⟩ hend

/-- Recording one more statement. -/
theorem Coherent.step (h : Coherent model.types base parameters) {id : ExprId} {change : Change}
    (hplan : planStatement model store parameters id = .ok change)
    (heffect : Effect (staticType model.types base) change parameters after) :
    Coherent model.types base after where
  wellFormed := heffect.wellFormed
  typed := h.typed.of_effect (h.typed.sound hplan) heffect
  linked {owner path node link} hlinked := by
    refine ⟨h.source_of_step heffect hlinked, ?_⟩
    obtain hold | ⟨primary, secondary, parameter, rfl, -, hparam, hname, hexcluded⟩ :=
      heffect.linked_cases hlinked
    · obtain ⟨-, target, hleads⟩ := h.linked hold
      exact ⟨target, heffect.leadsOut hleads⟩
    · have hposition := position?_of_planStatement hplan rfl hparam
      obtain ⟨held, hheld, hatt, -, hheldStatus⟩ := hexcluded.node
      refine ⟨secondary.owner, ?_, held, hheld, hatt, by rw [hheldStatus]; rfl⟩
      rw [position?_congr heffect.names, hname, hposition]
  apart {owner owner' path path' node node' link} hlinked hlinked' := by
    obtain hold | ⟨primary, secondary, parameter, rfl, hend, hparam, hname, hexcluded⟩ :=
      heffect.linked_cases hlinked
    · obtain hold' | ⟨primary, secondary, parameter, rfl, -, hparam, hname, hexcluded⟩ :=
        heffect.linked_cases hlinked'
      · exact h.apart hold hold'
      · exact absurd hold (h.not_linked (position?_of_planStatement hplan rfl hparam) hname hexcluded)
    · obtain hold' | ⟨_, _, _, heq, hend', -⟩ := heffect.linked_cases hlinked'
      · exact absurd hold' (h.not_linked (position?_of_planStatement hplan rfl hparam) hname hexcluded)
      · cases heq
        exact ⟨hend.1.trans hend'.1.symm, hend.2.trans hend'.2.symm⟩

/-- The plan of a recorded statement was carried out with the types that follow from its paths. -/
theorem Coherent.effect_of_analyzeStatement (h : Coherent model.types base parameters) {id : ExprId}
    (hok : analyzeStatement model store id parameters = .ok () after) :
    ∃ change, planStatement model store parameters id = .ok change ∧
      Effect (staticType model.types base) change parameters after := by
  obtain ⟨change, hplan⟩ := plan_of_analyzeStatement hok
  obtain ⟨after', hok', heffect⟩ := h.typed.analyzeStatement_spec h.wellFormed hplan
  rw [hok] at hok'
  cases hok'
  exact ⟨change, hplan, heffect⟩

/-- A repeated alternation excludes the node that its first path is linked to. -/
theorem linked_of_planStatement {id : ExprId} {primary secondary : MemberPlan} {linked : NodeId}
    (hplan : planStatement model store parameters id = .ok (.relink primary secondary linked)) :
    ∃ source link, Linked parameters primary.owner primary.path source link ∧
      position? parameters link.parameter = some secondary.owner ∧ link.node = linked := by
  obtain ⟨source, target, node, held, htarget, hfind, hnode, hlink, -⟩ :=
    linked?_eq_some.1 (planStatement_sound hplan).2
  exact ⟨source, _, ⟨node, hfind, hnode, hlink⟩, position?_of_planStatement hplan rfl htarget, rfl⟩

variable {types : TypeTable} {owner target : Nat} {path : List Name} {source : NodeId} {link : Link}

/-- What a repeated alternation excludes is not what other paths are linked to. -/
theorem Coherent.endsAt_iff (h : Coherent types base parameters) {id : ExprId}
    {primary secondary : MemberPlan} {linked : NodeId}
    (hplan : planStatement model store parameters id = .ok (.relink primary secondary linked))
    (hlinked : Linked parameters owner path source link)
    (hposition : position? parameters link.parameter = some target) :
    primary.EndsAt owner path ↔ secondary.owner = target ∧ linked = link.node := by
  obtain ⟨source', link', hlinked', hposition', rfl⟩ := linked_of_planStatement hplan
  constructor
  · rintro ⟨rfl, rfl⟩
    obtain ⟨node, hfind, hnode, hlink⟩ := hlinked
    obtain ⟨node', hfind', hnode', hlink'⟩ := hlinked'
    rw [hfind] at hfind'
    cases hfind'
    rw [hnode] at hnode'
    cases hnode'
    rw [hlink] at hlink'
    cases hlink'
    rw [hposition] at hposition'
    cases hposition'
    exact ⟨rfl, rfl⟩
  · rintro ⟨rfl, hnode⟩
    obtain ⟨parameter, hparam, hname⟩ := getElem?_of_position? hposition
    obtain ⟨parameter', hparam', hname'⟩ := getElem?_of_position? hposition'
    rw [hparam] at hparam'
    cases hparam'
    have hlink : link' = link := by
      cases link
      cases link'
      simp only at hnode hname hname'
      rw [hnode, ← hname, ← hname']
    exact h.apart hlinked (hlink ▸ hlinked')

/-- The status of what a path is linked to: the alternation that ends at the path says it, and all
other statements leave it as it is. -/
theorem Coherent.target_of_step (h : Coherent model.types base parameters) {id : ExprId}
    {change : Change} (hplan : planStatement model store parameters id = .ok change)
    (heffect : Effect (staticType model.types base) change parameters after)
    (hlinked : Linked after owner path source link)
    (hposition : position? after link.parameter = some target) {node : Node}
    (hnode : nodeAt? after target link.node = some node) :
    (∃ primary ∈ change.primary?, ∃ secondary ∈ change.secondary?, primary.EndsAt owner path ∧
      node.status = some secondary.status) ∨
    (∀ primary ∈ change.primary?, change.secondary?.isSome → ¬ primary.EndsAt owner path) ∧
      Linked parameters owner path source link ∧
      nodeAt? parameters target link.node = some node := by
  rw [position?_congr heffect.names] at hposition
  obtain hold | ⟨primary, secondary, parameter, rfl, hend, hparam, hname, hexcluded⟩ :=
    heffect.linked_cases hlinked
  · obtain ⟨-, target', hposition', held, hheld, hatt, -⟩ := h.linked hold
    rw [hposition] at hposition'
    cases hposition'
    obtain hsame | ⟨primary, secondary, rfl, rfl, hwritten⟩ := heffect.detached hheld hatt
    · rw [hnode] at hsame
      cases hsame
      by_cases hends : ∃ primary ∈ change.primary?, change.secondary?.isSome ∧
          primary.EndsAt owner path
      · obtain ⟨primary, hprimary, hsecondary, hend⟩ := hends
        cases change with
        | flag owner status => cases hprimary
        | record plan => cases hsecondary
        | link _ secondary =>
          cases hprimary
          obtain ⟨rfl, rfl⟩ := hend
          obtain ⟨parameter, excluded, hparam, hexcluded, hnew⟩ := heffect.linked rfl
          obtain ⟨_, hfind, hat, hlink⟩ := hlinked
          rw [hnew hfind hat] at hlink
          cases hlink
          exact absurd hold (h.not_linked (position?_of_planStatement hplan rfl hparam) rfl hexcluded)
        | relink _ secondary linked =>
          cases hprimary
          obtain ⟨rfl, rfl⟩ := (h.endsAt_iff hplan hold hposition).1 hend
          have hwritten := heffect.relinked rfl hheld
          rw [hnode] at hwritten
          exact Or.inl ⟨primary, rfl, secondary, rfl, hend,
            congrArg Node.status (Option.some.inj hwritten)⟩
      · exact Or.inr ⟨fun primary hprimary hsome hend => hends ⟨primary, hprimary, hsome, hend⟩, hold,
          hheld⟩
    · rw [hnode] at hwritten
      cases hwritten
      exact Or.inl ⟨primary, rfl, secondary, rfl, (h.endsAt_iff hplan hold hposition).2 ⟨rfl, rfl⟩, rfl⟩
  · rw [hname, position?_of_planStatement hplan rfl hparam] at hposition
    cases hposition
    obtain ⟨-, -, hstatus⟩ := hexcluded.holds hnode
    exact Or.inl ⟨primary, rfl, secondary, rfl, hend, hstatus⟩

end InputDetail.Analysis
