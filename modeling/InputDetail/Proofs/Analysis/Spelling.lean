import InputDetail.Proofs.Analysis.LinkGraph
import InputDetail.Proofs.Outline.Render
import InputDetail.Proofs.Types.Acyclic

/-!
# Names in forests

The members of a recorded path resolve, so they are named as members of structs are; a link names a
parameter that is there. So if the names of types and parameters are known, then analyses bring none
but known names into forests, and what they leave has an outline.
-/
namespace InputDetail

/-- The names of a parameter, of its nodes and of all parameters that their links name are known. -/
structure Parameter.Spelled (names : NameTable) (parameter : Parameter) : Prop where
  name : (names.text? parameter.name).isSome
  node : ∀ {id node}, parameter.forest.node? id = some node → (names.text? node.name).isSome
  link : ∀ {id node}, parameter.forest.node? id = some node → ∀ link ∈ node.link,
    (names.text? link.parameter).isSome

namespace Analysis

open Parameter

/-- The names in all parameters are known. -/
def Spelled (names : NameTable) (parameters : List Parameter) : Prop :=
  ∀ parameter ∈ parameters, parameter.Spelled names

variable {names later : NameTable} {types : TypeTable} {model : Model} {store : ExprStore}
  {parameters after : List Parameter} {owner : Nat} {id : NodeId} {node : Node} {statement : ExprId}

theorem spelled_of_empty (hempty : ∀ parameter ∈ parameters, parameter.forest = .empty)
    (hname : ∀ parameter ∈ parameters, (names.text? parameter.name).isSome) :
    Spelled names parameters := by
  intro parameter hmem
  have hnone : ∀ id, parameter.forest.node? id = none := by
    intro id
    rw [hempty parameter hmem]
    rfl
  exact ⟨hname parameter hmem, fun hnode => by simp [hnone] at hnode,
    fun hnode => by simp [hnone] at hnode⟩

theorem Spelled.mono (h : Spelled names parameters)
    (hkeeps : ∀ name, (names.text? name).isSome → (later.text? name).isSome) :
    Spelled later parameters := by
  intro parameter hmem
  exact ⟨hkeeps _ (h parameter hmem).name, fun hnode => hkeeps _ ((h parameter hmem).node hnode),
    fun hnode link hlink => hkeeps _ ((h parameter hmem).link hnode link hlink)⟩

theorem Spelled.nodeAt (h : Spelled names parameters) (hnode : nodeAt? parameters owner id = some node) :
    (names.text? node.name).isSome := by
  obtain ⟨parameter, hparam, hid⟩ := Option.bind_eq_some_iff.1 hnode
  exact (h parameter (List.mem_of_getElem? hparam)).node hid

theorem Spelled.linkAt (h : Spelled names parameters) {place : Place} {link : Link}
    (hlink : place.link? parameters = some link) : (names.text? link.parameter).isSome := by
  obtain ⟨node, hnode, hsome⟩ := Option.bind_eq_some_iff.1 hlink
  obtain ⟨parameter, hparam, hid⟩ := Option.bind_eq_some_iff.1 hnode
  exact (h parameter (List.mem_of_getElem? hparam)).link hid link hsome

/-- A member that has a type is named as a node is, or as a member of a struct. -/
theorem text?_isSome_of_memberType (hnamed : types.Named names) {parameter : Parameter}
    (h : parameter.Spelled names) {position : Option (Option NodeId)} {current type : TypeId}
    {name : Name}
    (htype : memberType types parameter.forest (position.bind (parameter.forest.child? · name))
      current name = .ok type) : (names.text? name).isSome := by
  unfold memberType at htype
  split at htype
  · next known hknown =>
    obtain ⟨node, hnode, -⟩ := Option.bind_eq_some_iff.1 hknown
    obtain ⟨id, hchild, hid⟩ := Option.bind_eq_some_iff.1 hnode
    obtain ⟨parent, -, hchild⟩ := Option.bind_eq_some_iff.1 hchild
    obtain ⟨node', hid', hname, -⟩ := Forest.isChild_of_child? hchild
    exact hname ▸ h.node hid'
  · exact hnamed.text?_isSome_of_resolve htype

/-- The names on the way of a path that resolves are known. -/
theorem text?_isSome_of_resolveMembers (hnamed : types.Named names) {parameter : Parameter}
    (h : parameter.Spelled names) {position : Option (Option NodeId)} {current : TypeId} {name : Name}
    {rest : List Name} {first : Member} {others : List Member}
    (hresolve : resolveMembers types parameter.forest position current name rest =
      .ok (first, others)) : ∀ member ∈ name :: rest, (names.text? member).isSome := by
  induction rest generalizing position current name first others with
  | nil =>
    rw [resolveMembers_nil] at hresolve
    split at hresolve
    · cases hresolve
    · next htype => exact List.forall_mem_singleton.2 (text?_isSome_of_memberType hnamed h htype)
  | cons next rest ih =>
    rw [resolveMembers_cons] at hresolve
    split at hresolve
    · cases hresolve
    · next htype =>
      split at hresolve
      · cases hresolve
      · next hrest =>
        exact List.forall_mem_cons.2 ⟨text?_isSome_of_memberType hnamed h htype, ih hrest⟩

/-- Every path that a statement records has been planned. -/
theorem planPath_of_recorded {change : Change}
    (hplan : planStatement model store parameters statement = .ok change) {plan : MemberPlan}
    (hrecorded : plan ∈ change.recorded) :
    ∃ status path, planPath model store parameters status path = .ok (.members plan) := by
  obtain ⟨status, path, found, -, hpath, rfl⟩ | ⟨span, status, first, second, -, hboth⟩ :=
    planStatement_cases hplan
  · cases found with
    | flag owner status => cases hrecorded
    | members found =>
      obtain rfl := List.mem_singleton.1 hrecorded
      exact ⟨status, path, hpath⟩
  · obtain ⟨primary, secondary, hprimary, hsecondary, -, ⟨-, rfl⟩ | ⟨linked, -, rfl⟩⟩ :=
      planAlternation_cases hboth
    · obtain rfl | rfl : plan = primary ∨ plan = secondary := by
        simpa [Change.recorded] using hrecorded
      · exact ⟨status, first, hprimary⟩
      · exact ⟨status, second, hsecondary⟩
    · obtain rfl := List.mem_singleton.1 hrecorded
      exact ⟨status, first, hprimary⟩

theorem Spelled.path (h : Spelled names parameters) (hnamed : model.types.Named names)
    {change : Change} (hplan : planStatement model store parameters statement = .ok change)
    {plan : MemberPlan} (hrecorded : plan ∈ change.recorded) :
    ∀ name ∈ plan.path, (names.text? name).isSome := by
  obtain ⟨status, id, hpath⟩ := planPath_of_recorded hplan hrecorded
  obtain ⟨path, owner, parameter, -, hlocate, ⟨-, -, heq⟩ |
    ⟨name, rest, first, others, -, hresolve, -, heq⟩⟩ := planPath_cases hpath
  · cases heq
  · cases heq
    obtain ⟨hfirst, hothers, -⟩ := resolveMembers_along hresolve
    have hmem := List.mem_of_getElem? (getElem?_of_locate? hlocate).1
    rw [MemberPlan.path, hfirst, hothers]
    exact text?_isSome_of_resolveMembers hnamed (h parameter hmem) hresolve

/-- The path of a node ends with its name. -/
theorem mem_of_pathAt? (hwf : WellFormed parameters) {path : List Name}
    (hnode : nodeAt? parameters owner id = some node)
    (hpath : pathAt? parameters owner id = some path) : node.name ∈ path := by
  obtain ⟨parameter, hparam, hid⟩ := Option.bind_eq_some_iff.1 hnode
  rw [pathAt?_eq hparam, (hwf hparam).path?_eq hid] at hpath
  split at hpath
  · cases hpath
    exact List.mem_singleton_self _
  · obtain ⟨above, -, rfl⟩ := Option.map_eq_some_iff.1 hpath
    exact List.mem_append_right _ (List.mem_singleton_self _)

section

variable {typeAlong : Nat → List Name → Option TypeId} {change : Change}
  (houtcome : Outcome typeAlong change parameters after)
include houtcome

/-- A new node is on the way of a path that the statement records. -/
theorem Outcome.mem_recorded (hnode : nodeAt? after owner id = some node)
    (hnew : nodeAt? parameters owner id = none) :
    ∃ plan ∈ change.recorded, node.name ∈ plan.path := by
  obtain ⟨path, hpath, -, plan, hplan, -, -, hwithin⟩ := houtcome.path_of_new hnode hnew
  exact ⟨plan, hplan, hwithin.subset (mem_of_pathAt? houtcome.wellFormed hnode hpath)⟩

/-- A link is an old one, or it names a parameter. -/
theorem Outcome.link?_cases {place : Place} {link : Link} (hlink : place.link? after = some link) :
    place.link? parameters = some link ∨ ∃ parameter ∈ parameters, link.parameter = parameter.name := by
  by_cases hnew : change.Links after place
  · obtain ⟨primary, secondary, rfl, howner, hfind⟩ := hnew
    obtain ⟨target, excluded, htarget, -, hleads⟩ := houtcome.linked rfl
    obtain ⟨node, hnode, hsome⟩ := Option.bind_eq_some_iff.1 hlink
    rw [howner] at hnode
    rw [hleads hfind hnode, Option.some.injEq] at hsome
    exact Or.inr ⟨target, List.mem_of_getElem? htarget, by rw [← hsome]⟩
  · exact Or.inl (houtcome.link?_eq hnew ▸ hlink)

end

/-- Recording one more statement. -/
theorem Spelled.step (h : Spelled names parameters) (hnamed : model.types.Named names)
    (hwf : WellFormed parameters)
    (hok : analyzeStatement model store statement parameters = .ok () after) :
    Spelled names after := by
  obtain ⟨change, hplan, houtcome⟩ := outcome_of_analyzeStatement hwf hok
  intro parameter' hmem
  obtain ⟨owner, hparam'⟩ := List.mem_iff_getElem?.1 hmem
  obtain ⟨parameter, hparam, hname, -⟩ :=
    getElem?_of_bare (bare_of_effect houtcome.toEffect).symm hparam'
  constructor
  case name => exact hname ▸ (h parameter (List.mem_of_getElem? hparam)).name
  case node =>
    intro id node hid
    have hnode : nodeAt? after owner id = some node := by rw [nodeAt?_eq hparam', hid]
    cases hbase : nodeAt? parameters owner id with
    | none =>
      obtain ⟨plan, hrecorded, hmember⟩ := houtcome.mem_recorded hnode hbase
      exact h.path hnamed hplan hrecorded _ hmember
    | some base =>
      obtain ⟨node', hkept, hsame, -⟩ := houtcome.keeps.node hbase
      obtain rfl := Option.some.inj (hnode.symm.trans hkept)
      exact hsame ▸ h.nodeAt hbase
  case link =>
    intro id node hid link hsome
    have hlink : Place.link? after ⟨owner, id⟩ = some link := by
      simp [Place.link?, nodeAt?_eq hparam', hid, Option.mem_def.1 hsome]
    obtain hold | ⟨target, htarget, heq⟩ := houtcome.link?_cases hlink
    · exact h.linkAt hold
    · exact heq ▸ (h target htarget).name

theorem Spelled.stateAfter (h : Spelled names parameters) (hnamed : model.types.Named names)
    (hwf : WellFormed parameters) (document : Document) :
    Spelled names (stateAfter model document parameters) :=
  stateAfter_of_step hwf h fun hwf hspelled hok => Spelled.step hspelled hnamed hwf hok

/-- The states that are reached with one table of names, which grows: analyses begin with parameters of
known names, of which nothing is recorded, or with parameters that other analyses left, in any
selection. The names of all types are known. Analyses that are refused count too. -/
inductive ReachableWith : NameTable → List Parameter → Prop
  | start {names : NameTable} {parameters : List Parameter}
      (nothing : ∀ parameter ∈ parameters, parameter.forest = .empty)
      (known : ∀ parameter ∈ parameters, (names.text? parameter.name).isSome) :
      ReachableWith names parameters
  | analysis {names : NameTable} {parameters : List Parameter} (before : ReachableWith names parameters)
      {model : Model} (named : model.types.Named names) (document : Document) :
      ReachableWith names (Analysis.stateAfter model document parameters)
  | selection {names : NameTable} {parameters others selected : List Parameter}
      (first : ReachableWith names parameters) (second : ReachableWith names others)
      (mem : ∀ parameter ∈ selected, parameter ∈ parameters ∨ parameter ∈ others) :
      ReachableWith names selected
  | interning {names : NameTable} {parameters : List Parameter}
      (before : ReachableWith names parameters) (text : String) :
      ReachableWith (names.intern text).2 parameters

theorem ReachableWith.built (h : ReachableWith names parameters) : Built parameters := by
  induction h with
  | start nothing _ =>
    intro parameter hmem
    rw [nothing parameter hmem]
    exact .empty
  | analysis _ _ document ih => exact ih.stateAfter _ document
  | selection _ _ mem ih ih' =>
    exact fun parameter hmem => (mem parameter hmem).elim (ih parameter) (ih' parameter)
  | interning _ _ ih => exact ih

theorem ReachableWith.spelled (h : ReachableWith names parameters) : Spelled names parameters := by
  induction h with
  | start nothing known => exact spelled_of_empty nothing known
  | analysis before named document ih => exact ih.stateAfter named before.built.wellFormed document
  | selection _ _ mem ih ih' =>
    exact fun parameter hmem => (mem parameter hmem).elim (ih parameter) (ih' parameter)
  | interning _ text ih =>
    refine ih.mono fun name hname => ?_
    obtain ⟨known, hknown⟩ := Option.isSome_iff_exists.1 hname
    rw [NameTable.text?_intern_of_some hknown]
    rfl

/-- What is seen of a node can be written. A link of a parameter that is not there, or to a node that is
not there, is a question mark. -/
theorem Spelled.legible (h : Spelled names parameters) (hwf : WellFormed parameters)
    (hlists : types.Acyclic) (hnamed : types.Named names) {parameter : Parameter}
    (hmem : parameter ∈ parameters) (hid : parameter.forest.node? id = some node) :
    Outline.Legible types names (Outline.nodeSight parameters node) where
  type type _ := hlists.write?_isSome hnamed type
  link sight hsight := by
    obtain ⟨link, hlink, rfl⟩ := Option.map_eq_some_iff.1 hsight
    refine ⟨(h parameter hmem).link hid link hlink, fun target htarget => ?_⟩
    obtain ⟨other, hother, htarget⟩ := Option.bind_eq_some_iff.1 htarget
    obtain ⟨held, hheld, rfl⟩ := Option.map_eq_some_iff.1 htarget
    have hfound := List.mem_of_find?_eq_some hother
    obtain ⟨position, hparam⟩ := List.mem_iff_getElem?.1 hfound
    obtain ⟨path, hpath⟩ :=
      Option.isSome_iff_exists.1 ((hwf hparam).path?_isSome (by rw [hheld]; rfl))
    refine ⟨path, hpath, fun name hname => ?_, fun type _ => hlists.write?_isSome hnamed type⟩
    obtain ⟨_, known, hknown, rfl⟩ := Forest.exists_node_of_climb hpath name hname
    exact (h other hfound).node hknown

/-- Parameters with known names have an outline. -/
theorem Spelled.render_isSome (h : Spelled names parameters) (hwf : WellFormed parameters)
    (hlists : types.Acyclic) (hnamed : types.Named names) :
    (Outline.render types names parameters).isSome := by
  refine Outline.render_isSome hwf (fun parameter hmem => (h parameter hmem).name)
    (fun parameter _ => hlists.write?_isSome hnamed parameter.type) ?_ ?_
  · intro owner path name hsome
    obtain ⟨id, hfind⟩ := Option.isSome_iff_exists.1 hsome
    obtain ⟨parameter, hparam, hid⟩ := Option.bind_eq_some_iff.1 hfind
    obtain ⟨node, hnode, hname, -⟩ := Forest.node?_of_find?_concat hid
    exact hname ▸ (h parameter (List.mem_of_getElem? hparam)).node hnode
  · intro owner path sight hsight
    obtain ⟨node, hnode, rfl⟩ := Option.map_eq_some_iff.1 hsight
    obtain ⟨id, -, hnode⟩ := Option.bind_eq_some_iff.1 hnode
    obtain ⟨parameter, hparam, hid⟩ := Option.bind_eq_some_iff.1 hnode
    exact h.legible hwf hlists hnamed (List.mem_of_getElem? hparam) hid

end Analysis

end InputDetail
