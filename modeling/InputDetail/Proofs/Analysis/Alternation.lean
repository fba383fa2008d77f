import InputDetail.Proofs.Analysis.Attachment
import InputDetail.Proofs.Analysis.LinkGraph
import InputDetail.Proofs.Analysis.NodeTypes

/-!
# What an alternation leaves

However often an alternation was analyzed before, its first path ends at an attached leaf, and the
link of the leaf leads to a detached node with the second path, its type and the same status. Nothing
else is detached.
-/
namespace InputDetail.Analysis

open Parameter

/-- The attached leaf `leaf` at the end of `primary` has the given status. Its link names the
parameter `target` and the detached node `excluded`, which has the path `secondary`, the type that
follows from it, the same status, and no children. -/
structure Alternative (types : TypeTable) (status : Status) (source target : Parameter)
    (primary secondary : List Name) (leaf excluded : NodeId) : Prop where
  found : source.forest.find? primary = some leaf
  kept : ∃ node, source.forest.node? leaf = some node ∧ node.attached = true ∧
    node.status = some status ∧ node.link = some ⟨target.name, excluded⟩
  detached : ∃ node type, target.forest.node? excluded = some node ∧ node.attached = false ∧
    node.status = some status ∧ node.type = some type ∧
    secondary.foldlM types.resolve target.type = .ok type
  path : target.forest.path? excluded = some secondary
  childless : target.forest.hasChildren excluded = false

variable {model : Model} {store : ExprStore} {types : Nat → List Name → Option TypeId}
  {parameters after : List Parameter} {change : Change} {statement : ExprId}

/-- The first path of an alternation leads to a node that is linked to a detached node of the second
path, whether the link is new or repeated. -/
theorem Outcome.link_of_alternation (h : Outcome types change parameters after)
    (hwf : WellFormed parameters)
    (hplan : planStatement model store parameters statement = .ok change)
    {primary secondary : MemberPlan} (hprimary : primary ∈ change.primary?)
    (hsecondary : secondary ∈ change.secondary?) {leaf : NodeId} {node : Node}
    (hfind : found? after primary.owner primary.path = some leaf)
    (hnode : nodeAt? after primary.owner leaf = some node) :
    ∃ parameter excluded held, parameters[secondary.owner]? = some parameter ∧
      node.link = some ⟨parameter.name, excluded⟩ ∧
      nodeAt? after secondary.owner excluded = some held ∧ held.attached = false ∧
      held.status = some secondary.status ∧
      pathAt? after secondary.owner excluded = some secondary.path := by
  cases change with
  | flag owner status => cases hprimary
  | record plan => cases hsecondary
  | link first second =>
    cases hprimary
    cases hsecondary
    obtain ⟨parameter, excluded, hparam, hexcluded, hlink⟩ := h.linked rfl
    obtain ⟨held, hheld, hatt, -, hstatus⟩ := hexcluded.node
    exact ⟨parameter, excluded, held, hparam, hlink hfind hnode, hheld, hatt, hstatus, hexcluded.path⟩
  | relink first second linked =>
    cases hprimary
    cases hsecondary
    obtain ⟨source, target, old, held, htarget, hold, holdNode, hlink, hheld, hatt, hpath⟩ :=
      linked?_eq_some.1 (planStatement_sound hplan).2
    obtain rfl : source = leaf :=
      Option.some.inj ((h.found?_of_some hold (by simp [Change.excluded?])).symm.trans hfind)
    have hsame : Place.link? after ⟨primary.owner, source⟩ =
        Place.link? parameters ⟨primary.owner, source⟩ := h.link?_eq (by simp [Change.Links])
    simp only [Place.link?, hnode, holdNode, Option.bind_some] at hsame
    exact ⟨target, linked, _, htarget, hsame.trans hlink, h.relinked rfl hheld, hatt, rfl,
      by rw [h.keeps.pathAt?_eq hwf h.wellFormed hheld, hpath]⟩

/-- The nodes on the way down the path that a statement documents stay, and what is missing is added. -/
theorem Outcome.found_above (h : Outcome types change parameters after)
    (hplan : planStatement model store parameters statement = .ok change) {plan : MemberPlan}
    (hprimary : plan ∈ change.primary?) {path : List Name} (hway : Forest.OnWay plan.path path) :
    ∃ id, found? after plan.owner path = some id ∧
      ∀ old, found? parameters plan.owner path = some old → old = id := by
  obtain ⟨end_, _, hend, -⟩ := h.found_primary hplan hprimary
  obtain ⟨id, hfind⟩ := Option.isSome_iff_exists.1
    ( found?_isSome_of_prefix hway.1 hway.2 (by rw [hend]; rfl))
  refine ⟨id, hfind, fun old hold => ?_⟩
  have hleft : ∀ secondary ∈ change.excluded?, ¬ secondary.Heads plan.owner path :=
    fun secondary hsecondary hheads => (planStatement_sound hplan).not_heads hprimary hsecondary
      ⟨hheads.1, hheads.2.trans hway.2⟩
  exact Option.some.inj ((h.found?_of_some hold hleft).symm.trans hfind)

/-- Of the attached nodes, only the one at the end of the second path is detached. -/
theorem Outcome.attached?_of_alternation (h : Outcome types change parameters after)
    {secondary : MemberPlan} (hsecondary : secondary ∈ change.secondary?) {place : Place}
    (hatt : place.attached? parameters = some true) : place.attached? after = some true ∨
      place.owner = secondary.owner ∧
        found? parameters secondary.owner secondary.path = some place.node := by
  refine (h.attached?_of_attached hatt).imp_right ?_
  rintro ⟨other, hother, howner, hexcluded⟩
  obtain rfl : secondary = other :=
    Option.some.inj (hsecondary.symm.trans (Change.secondary?_of_excluded? hother))
  obtain ⟨base, hbase, -⟩ := Option.map_eq_some_iff.1 hatt
  obtain ⟨_, ⟨hfind, -⟩ | ⟨-, hnone, -⟩⟩ := hexcluded.origin
  · exact ⟨howner, hfind⟩
  · rw [← howner, hbase] at hnone
    cases hnone

/-- In a state where types follow from paths and all attached nodes are found, a leaf that is linked to
a detached node has it as its alternative. -/
theorem alternative_of_link {types : TypeTable} (hrooted : Rooted after)
    (htyped : NodesTyped types after) {owner owner' : Nat} {source target : Parameter}
    {leaf excluded : NodeId} {node held : Node} {status : Status} {primary secondary : List Name}
    (hsource : after[owner]? = some source) (htarget : after[owner']? = some target)
    (hfind : found? after owner primary = some leaf) (hnode : nodeAt? after owner leaf = some node)
    (hstatus : node.status = some status) (hlink : node.link = some ⟨target.name, excluded⟩)
    (hheld : nodeAt? after owner' excluded = some held) (hatt : held.attached = false)
    (hheldStatus : held.status = some status)
    (hpath : pathAt? after owner' excluded = some secondary) :
    Alternative types status source target primary secondary leaf excluded := by
  have htype := htyped hheld
  rw [found?_eq hsource] at hfind
  rw [nodeAt?_eq hsource] at hnode
  rw [nodeAt?_eq htarget] at hheld
  constructor
  case found => exact hfind
  case kept =>
    obtain ⟨_, hsame, hnodeAtt⟩ := Forest.node?_of_find? hfind
    rw [hnode] at hsame
    cases hsame
    exact ⟨node, hnode, hnodeAtt, hstatus, hlink⟩
  case detached =>
    obtain ⟨_, type, hat, htype, hstatic⟩ := htype
    rw [hpath] at hat
    cases hat
    rw [staticType, htarget, Option.bind_some, TypeTable.along_eq_some_iff] at hstatic
    exact ⟨held, type, hheld, hatt, hheldStatus, htype, hstatic⟩
  case path => rw [← pathAt?_eq htarget, hpath]
  case childless => exact hrooted.hasChildren_eq_false htarget hheld hatt

/-- After an alternation is recorded, its first path leads to a leaf that is linked to a detached node
of the second path; both have its status. Every node on the way to the leaf is attached, an old one if
there was one. Of the nodes that were attached, at most the one at the end of the second path is
detached. -/
theorem alternation_spec (h : Evolved model.types parameters) {span : Span} {status : Status}
    {first second : ExprId}
    (hstatement : statementAt store statement = .ok (.alternation span status first second))
    (hok : analyzeStatement model store statement parameters = .ok () after) :
    ∃ primary secondary owner owner' source target leaf excluded,
      pathAt store first = .ok primary ∧ pathAt store second = .ok secondary ∧
      locate? after primary.parameter = some (owner, source) ∧
      locate? after secondary.parameter = some (owner', target) ∧
      Alternative model.types status source target primary.members secondary.members leaf excluded ∧
      (∀ path, Forest.OnWay primary.members path → ∃ id, found? after owner path = some id ∧
        Place.attached? after ⟨owner, id⟩ = some true ∧
        ∀ old, found? parameters owner path = some old → old = id) ∧
      ∀ place : Place, place.attached? parameters = some true → place.attached? after = some true ∨
        place.owner = owner' ∧ found? parameters owner' secondary.members = some place.node := by
  have hwf := h.reachable.built.wellFormed
  obtain ⟨change, hplan, houtcome⟩ := outcome_of_analyzeStatement hwf hok
  have hrooted := h.reachable.rooted.step houtcome
  have htyped := h.nodesTyped.step hwf hok
  obtain ⟨_, _, _, hdeclaration, -⟩ | ⟨_, _, _, _, halternation, hboth⟩ := planStatement_cases hplan
  · rw [hstatement] at hdeclaration
    cases hdeclaration
  rw [hstatement] at halternation
  cases halternation
  obtain ⟨primary, secondary, hfirst, hsecond, -, hcase⟩ := planAlternation_cases hboth
  obtain ⟨-, hstatus, path, source, hpath, hmembers, hsource⟩ := planPath_members hfirst
  obtain ⟨-, hstatus', path', target, hpath', hmembers', htarget⟩ := planPath_members hsecond
  have hprimary : primary ∈ change.primary? := by
    obtain ⟨-, rfl⟩ | ⟨_, -, rfl⟩ := hcase <;> rfl
  have hsecondary : secondary ∈ change.secondary? := by
    obtain ⟨-, rfl⟩ | ⟨_, -, rfl⟩ := hcase <;> rfl
  obtain ⟨source', hsource', -⟩ := locate_of_bare (bare_of_effect houtcome.toEffect) hsource
  obtain ⟨target', htarget', -⟩ := locate_of_bare (bare_of_effect houtcome.toEffect) htarget
  obtain ⟨hsourceAt, -⟩ := getElem?_of_locate? hsource'
  obtain ⟨htargetAt, hname⟩ := getElem?_of_locate? htarget'
  obtain ⟨leaf, node, hfind, hnode, hleaf⟩ := houtcome.found_primary hplan hprimary
  obtain ⟨parameter, excluded, held, hparam, hlink, hheld, hheldAtt, hheldStatus, hheldPath⟩ :=
    houtcome.link_of_alternation hwf hplan hprimary hsecondary hfind hnode
  obtain ⟨htargetBefore, hnameBefore⟩ := getElem?_of_locate? htarget
  obtain rfl : target = parameter := Option.some.inj (htargetBefore.symm.trans hparam)
  refine ⟨path, path', primary.owner, secondary.owner, source', target', leaf, excluded, hpath, hpath',
    hsource', htarget', ?_, fun way hway => ?_, fun place hatt => ?_⟩
  · rw [hstatus] at hleaf
    rw [hstatus'] at hheldStatus
    rw [hnameBefore, ← hname] at hlink
    exact alternative_of_link hrooted htyped hsourceAt htargetAt (hmembers ▸ hfind) hnode hleaf hlink
      hheld hheldAtt hheldStatus (hmembers' ▸ hheldPath)
  · obtain ⟨id, hid, hold⟩ := houtcome.found_above hplan hprimary (hmembers ▸ hway)
    exact ⟨id, hid, attached?_of_found? hid, hold⟩
  · exact hmembers' ▸ houtcome.attached?_of_alternation hsecondary hatt

/-- The alternation of `a` and `b`, then `b` on its own, then the alternation again, which repeats the
link. -/
theorem alternation_spec_sample :
    let before := stateAfter Sample.model ⟨Sample.store, [⟨5⟩, ⟨4⟩]⟩ Sample.parameters
    let after := stateAfter Sample.model ⟨Sample.store, [⟨5⟩]⟩ before
    Evolved Sample.types before ∧
      statementAt Sample.store ⟨5⟩ = .ok (.alternation ⟨0, 0⟩ .mandatory ⟨1⟩ ⟨2⟩) ∧
      analyzeStatement Sample.model Sample.store ⟨5⟩ before = .ok () after ∧
      (∃ source target leaf excluded, locate? after ⟨7⟩ = some (0, source) ∧
        locate? after ⟨7⟩ = some (0, target) ∧
        Alternative Sample.types .mandatory source target [⟨5⟩] [⟨6⟩] leaf excluded) ∧
      Place.attached? after ⟨0, ⟨0⟩⟩ = some true := by
  intro before after
  have hevolved : Evolved Sample.model.types before :=
    (Evolved.start Sample.nothing_recorded).analysis .lastWins ⟨Sample.store, [⟨5⟩, ⟨4⟩]⟩
  have hstatement : statementAt Sample.store ⟨5⟩ =
      .ok (.alternation ⟨0, 0⟩ .mandatory ⟨1⟩ ⟨2⟩) := by decide +kernel
  have hhalt : halt? Sample.model ⟨Sample.store, [⟨5⟩]⟩ before = none := by decide +kernel
  have hok : analyzeStatement Sample.model Sample.store ⟨5⟩ before = .ok () after := by
    rw [← analyze_singleton, analyze_of_halt?_none hhalt]
  obtain ⟨primary, secondary, owner, owner', source, target, leaf, excluded, hprimary, hsecondary,
    hsource, htarget, halternative, -, hattached⟩ :=
      alternation_spec hevolved hstatement hok
  have hfirst : pathAt Sample.store ⟨1⟩ = .ok ⟨⟨7⟩, [⟨5⟩]⟩ := by decide +kernel
  have hsecond : pathAt Sample.store ⟨2⟩ = .ok ⟨⟨7⟩, [⟨6⟩]⟩ := by decide +kernel
  obtain rfl := Except.ok.inj (hfirst.symm.trans hprimary)
  obtain rfl := Except.ok.inj (hsecond.symm.trans hsecondary)
  have hlast : position? after ⟨7⟩ = some 0 := by decide +kernel
  obtain rfl : 0 = owner := Option.some.inj (hlast.symm.trans (locate?_eq_some.1 hsource).1)
  obtain rfl : 0 = owner' := Option.some.inj (hlast.symm.trans (locate?_eq_some.1 htarget).1)
  have hbefore : Place.attached? before ⟨0, ⟨0⟩⟩ = some true := by decide +kernel
  have hother : found? before 0 [⟨6⟩] ≠ some ⟨0⟩ := by decide +kernel
  exact ⟨hevolved, hstatement, hok, ⟨source, target, leaf, excluded, hsource, htarget, halternative⟩,
    (hattached ⟨0, ⟨0⟩⟩ hbefore).resolve_right fun hgone => hother hgone.2⟩

end InputDetail.Analysis
