import InputDetail.Proofs.Analysis.Description
import InputDetail.Proofs.Outline.Render
import InputDetail.Proofs.Types.Acyclic

/-!
# The order of independent statements

If no two statements of a list name the same path, and none excludes a path above a path of another,
then the order of the list does not matter: all orders are recorded or none is, in one analysis or in
several, and all give the same outline.
-/
namespace InputDetail

/-- All names on the way of a path that resolves are known. -/
theorem TypeTable.Named.text?_isSome_of_along {types : TypeTable} {names : NameTable}
    (h : types.Named names) {current type : TypeId} {path : List Name}
    (halong : types.along current path = some type) :
    ∀ name ∈ path, (names.text? name).isSome := by
  induction path generalizing current with
  | nil => simp
  | cons first rest ih =>
    rw [along] at halong
    cases hresolve : types.resolve current first with
    | error e =>
      rw [hresolve] at halong
      cases halong
    | ok next =>
      rw [hresolve] at halong
      simp only [List.mem_cons, forall_eq_or_imp]
      exact ⟨h.text?_isSome_of_resolve hresolve, ih halong⟩

namespace Analysis

open Parameter

variable {model : Model} {store : ExprStore} {base parameters final : List Parameter}

/-- The plans of statements, made before anything is recorded. -/
def plansOf (model : Model) (store : ExprStore) (base : List Parameter) (ids : List ExprId)
    (change : Change) : Prop :=
  ∃ id ∈ ids, planStatement model store base id = .ok change

theorem describes_plansOf_nil (hempty : ∀ parameter ∈ base, parameter.forest = .empty) :
    Describes (staticType model.types base) base (plansOf model store base []) base := by
  have hnothing : plansOf model store base [] = fun _ => False := by
    funext change
    simp [plansOf]
  rw [hnothing]
  exact describes_nothing hempty _

theorem plansOf_congr {ids ids' : List ExprId} (h : ∀ id, id ∈ ids' ↔ id ∈ ids) :
    plansOf model store base ids' = plansOf model store base ids := by
  funext change
  simp only [plansOf, h]

theorem plansOf_cons {id : ExprId} {change : Change}
    (hplan : planStatement model store base id = .ok change) (ids : List ExprId) :
    plansOf model store base (id :: ids) =
      fun other => other = change ∨ plansOf model store base ids other := by
  funext other
  simp only [plansOf, List.mem_cons, exists_eq_or_imp, hplan, Except.ok.injEq,
    eq_comm (a := change)]

section

variable {ids : List ExprId} {root : ExprId}
  (hempty : ∀ parameter ∈ base, parameter.forest = .empty)
  (h : Describes (staticType model.types base) base (plansOf model store base ids) parameters)
  (hindep : ∀ other ∈ ids, Independent store root other)
include hempty h hindep

/-- A statement that is independent of those recorded has the plan that it has at first. -/
theorem planStatement_of_independent :
    planStatement model store parameters root = planStatement model store base root := by
  refine planStatement_eq hempty h rfl ?_ ?_
  · rintro path hnamed change ⟨other, hother, hchange⟩ plan hplan hlocates
    obtain ⟨hrecorded, -, -⟩ := locates_of_planStatement hchange
    obtain ⟨path', hnamed', hlocates'⟩ := hrecorded plan hplan
    obtain rfl := hlocates.unique hlocates' rfl rfl
    exact (hindep other hother).distinct path hnamed hnamed'
  · rintro path hexcluded secondary hlocates change ⟨other, hother, hchange⟩ plan hplan hheads
    obtain ⟨hrecorded, -, -⟩ := locates_of_planStatement hchange
    obtain ⟨path', hnamed', hlocates'⟩ := hrecorded plan hplan
    obtain rfl | habove := hlocates.above hlocates' hheads
    · exact (hindep other hother).distinct path (excluded?_named hexcluded) hnamed'
    · exact (hindep other hother).left path hexcluded path' hnamed' habove

theorem describes_analyzeStatement {change : Change}
    (hplan : planStatement model store base root = .ok change) :
    ∃ after, analyzeStatement model store root parameters = .ok () after ∧
      Describes (staticType model.types base) base (plansOf model store base (root :: ids)) after := by
  rw [plansOf_cons hplan]
  refine h.step hempty ?_ hplan (planStatement_of_independent hempty h hindep)
  rintro other ⟨id, hid, hother⟩
  exact (hindep id hid).apart hplan hother

end

theorem independent_cons {root : ExprId} {roots ids : List ExprId}
    (hroot : ∀ other ∈ roots, Independent store root other)
    (hcross : ∀ other ∈ root :: roots, ∀ id ∈ ids, Independent store other id) :
    ∀ other ∈ roots, ∀ id ∈ root :: ids, Independent store other id := by
  intro other hother id hid
  obtain rfl | hid := List.mem_cons.1 hid
  · exact (hroot other hother).symm
  · exact hcross other (List.mem_cons_of_mem _ hother) id hid

/-- Statements that are in order at first are recorded one after the other. -/
theorem describes_analyze (hempty : ∀ parameter ∈ base, parameter.forest = .empty)
    {roots ids : List ExprId}
    (h : Describes (staticType model.types base) base (plansOf model store base ids) parameters)
    (hindep : roots.Pairwise (Independent store))
    (hcross : ∀ root ∈ roots, ∀ other ∈ ids, Independent store root other)
    (hplans : ∀ root ∈ roots, ∃ change, planStatement model store base root = .ok change) :
    ∃ after, analyze model ⟨store, roots⟩ parameters = .ok () after ∧
      Describes (staticType model.types base) base (plansOf model store base (roots ++ ids)) after := by
  induction roots generalizing ids parameters with
  | nil => exact ⟨parameters, rfl, h⟩
  | cons root roots ih =>
    rw [List.pairwise_cons] at hindep
    obtain ⟨change, hplan⟩ := hplans root List.mem_cons_self
    obtain ⟨middle, hroot, hmiddle⟩ :=
      describes_analyzeStatement hempty h (hcross root List.mem_cons_self) hplan
    obtain ⟨after, hroots, hafter⟩ := ih hmiddle hindep.2 (independent_cons hindep.1 hcross)
      (fun other hother => hplans other (List.mem_cons_of_mem _ hother))
    refine ⟨after, by simp only [analyze_cons, hroot, hroots], ?_⟩
    have hsame : plansOf model store base (root :: roots ++ ids) =
        plansOf model store base (roots ++ root :: ids) :=
      plansOf_congr fun id => by simp [or_left_comm]
    rw [hsame]
    exact hafter

/-- Statements that are recorded one after the other were in order at first. -/
theorem plans_of_analyze (hempty : ∀ parameter ∈ base, parameter.forest = .empty)
    {roots ids : List ExprId}
    (h : Describes (staticType model.types base) base (plansOf model store base ids) parameters)
    (hindep : roots.Pairwise (Independent store))
    (hcross : ∀ root ∈ roots, ∀ other ∈ ids, Independent store root other)
    (hok : analyze model ⟨store, roots⟩ parameters = .ok () final) :
    ∀ root ∈ roots, ∃ change, planStatement model store base root = .ok change := by
  induction roots generalizing ids parameters with
  | nil => simp
  | cons root roots ih =>
    rw [List.pairwise_cons] at hindep
    obtain ⟨middle, hroot, hrest⟩ := analyze_cons_eq_ok.1 hok
    have hroot' := hcross root List.mem_cons_self
    obtain ⟨change, hplan⟩ := plan_of_analyzeStatement hroot
    rw [planStatement_of_independent hempty h hroot'] at hplan
    obtain ⟨after, hafter, hmiddle⟩ := describes_analyzeStatement hempty h hroot' hplan
    rw [hroot] at hafter
    cases hafter
    rw [List.forall_mem_cons]
    exact ⟨⟨change, hplan⟩, ih hmiddle hindep.2 (independent_cons hindep.1 hcross) hrest⟩

section

variable {roots : List ExprId} (hempty : ∀ parameter ∈ base, parameter.forest = .empty)
  (hindep : roots.Pairwise (Independent store))
  (hok : analyze model ⟨store, roots⟩ base = .ok () final)
include hempty hindep hok

theorem plans_of_independent :
    ∀ root ∈ roots, ∃ change, planStatement model store base root = .ok change := by
  exact plans_of_analyze hempty (describes_plansOf_nil hempty) hindep (by simp) hok

/-- All orders of independent statements record what the plans of the statements tell. -/
theorem describes_of_perm {ids : List ExprId} (hperm : ids.Perm roots) :
    ∃ other, analyze model ⟨store, ids⟩ base = .ok () other ∧
      Describes (staticType model.types base) base (plansOf model store base roots) other := by
  have hplans := plans_of_independent hempty hindep hok
  obtain ⟨other, hother, hdescribes⟩ := describes_analyze hempty (describes_plansOf_nil hempty)
    ((hperm.pairwise_iff Independent.symm).2 hindep) (by simp)
    (fun id hid => hplans id (hperm.subset hid))
  refine ⟨other, hother, ?_⟩
  rwa [List.append_nil, plansOf_congr fun id => hperm.mem_iff] at hdescribes

end

/-- Several analyses one after the other are one analysis. -/
theorem forM_analyze (calls : List (List ExprId)) (parameters : List Parameter) :
    calls.forM (fun roots => analyze model ⟨store, roots⟩) parameters =
      analyze model ⟨store, calls.flatten⟩ parameters := by
  induction calls generalizing parameters with
  | nil => rfl
  | cons roots calls ih =>
    rw [List.flatten_cons, analyze_append]
    show EStateM.bind _ _ _ = _
    simp only [EStateM.bind]
    cases analyze model ⟨store, roots⟩ parameters with
    | ok _ after => exact ih after
    | error halt left => rfl

section

open Outline

variable {types : Nat → List Name → Option TypeId} {done : Change → Prop}
  {parameters' : List Parameter}

/-- What is shown of a link that leads to the end of `secondary`. -/
theorem linkSight_of_leads {secondary : MemberPlan} {link : Option Link}
    (h : Leads types secondary parameters link) :
    ∃ target type, parameters[secondary.owner]? = some target ∧
      types secondary.owner secondary.path = some type ∧ link.map (linkSight parameters) =
        some ⟨target.name, some (some secondary.path, some type, some secondary.status)⟩ := by
  obtain ⟨target, id, held, type, hlocate, rfl, hheld, -, htype, hstatic, hstatus, hpath⟩ := h
  obtain ⟨hparam, -⟩ := getElem?_of_locate? hlocate
  rw [nodeAt?_eq hparam] at hheld
  rw [pathAt?_eq hparam] at hpath
  refine ⟨target, type, hparam, hstatic, ?_⟩
  simp only [Option.map_some, linkSight, byName?_of_locate? hlocate, Option.bind_some, hheld, hpath,
    htype, hstatus]

/-- What is shown of a link follows from what is told of its node. -/
theorem linkSight_of_told (hbare : parameters'.map bare = parameters.map bare) {owner : Nat}
    {path : List Name} {node node' : Node} (htold : Told types done parameters owner path node)
    (htold' : Told types done parameters' owner path node') :
    node'.link.map (linkSight parameters') = node.link.map (linkSight parameters) := by
  by_cases hlinked : ∃ primary secondary, done (.link primary secondary) ∧ primary.EndsAt owner path
  · obtain ⟨primary, secondary, hdone, hend⟩ := hlinked
    obtain ⟨target, type, hparam, htype, hshown⟩ := linkSight_of_leads (htold.link_on hdone hend)
    obtain ⟨target', type', hparam', htype', hshown'⟩ :=
      linkSight_of_leads (htold'.link_on hdone hend)
    obtain ⟨_, hget, hname, -⟩ := getElem?_of_bare hbare hparam
    rw [hparam', Option.some.injEq] at hget
    subst hget
    rw [htype] at htype'
    cases htype'
    rw [hshown, hshown', hname]
  · have hoff : ∀ primary secondary, done (.link primary secondary) → ¬ primary.EndsAt owner path :=
      fun primary secondary hdone hend => hlinked ⟨primary, secondary, hdone, hend⟩
    rw [htold.link_off hoff, htold'.link_off hoff]
    rfl

/-- States of one description show the same. -/
theorem shown?_of_describes (h : Describes types base done parameters)
    (h' : Describes types base done parameters') (owner : Nat) (path : List Name) :
    shown? parameters' owner path = shown? parameters owner path := by
  have hsome : (found? parameters' owner path).isSome ↔ (found? parameters owner path).isSome := by
    rw [h.isSome_iff, h'.isSome_iff]
  rw [shown?, shown?]
  cases hfind : found? parameters owner path with
  | none =>
    rw [hfind] at hsome
    have hnone : found? parameters' owner path = none := by
      rw [← Option.not_isSome_iff_eq_none, hsome]
      simp
    rw [hnone]
    rfl
  | some id =>
    rw [hfind] at hsome
    obtain ⟨id', hfind'⟩ := Option.isSome_iff_exists.1 (hsome.2 rfl)
    obtain ⟨node, hnode, -⟩ := nodeAt?_of_found? hfind
    obtain ⟨node', hnode', -⟩ := nodeAt?_of_found? hfind'
    have htold := h.node hfind hnode
    have htold' := h'.node hfind' hnode'
    obtain ⟨type, htype, hstatic⟩ := htold.type
    obtain ⟨type', htype', hstatic'⟩ := htold'.type
    rw [hstatic] at hstatic'
    cases hstatic'
    have hstatus : node'.status = node.status := by
      apply Option.ext
      intro status
      rw [htold.status, htold'.status]
    have hlink := linkSight_of_told (h'.bare.trans h.bare.symm) htold htold'
    rw [hfind', Option.bind_some, Option.bind_some, hnode, hnode', Option.map_some, Option.map_some,
      nodeSight, nodeSight, htype, htype', hstatus, hlink]

theorem blank_of_describes (h : Describes types base done parameters)
    (h' : Describes types base done parameters') :
    parameters'.map blank = parameters.map blank := by
  apply List.ext_getElem?
  intro owner
  have hbare := congrArg (·[owner]?) (h'.bare.trans h.bare.symm)
  simp only [List.getElem?_map] at hbare ⊢
  cases hparam : parameters[owner]? with
  | none =>
    rw [hparam, Option.map_none, Option.map_eq_none_iff] at hbare
    rw [hbare]
  | some parameter =>
    rw [hparam, Option.map_some] at hbare
    obtain ⟨parameter', hparam', hsame⟩ := Option.map_eq_some_iff.1 hbare
    have hstatus : parameter'.status = parameter.status := by
      by_cases hflag : ∃ status, done (.flag owner status)
      · obtain ⟨status, hdone⟩ := hflag
        rw [h.flag_on hdone hparam, h'.flag_on hdone hparam']
      · have hnone : ∀ status, ¬ done (.flag owner status) := fun status hdone => hflag ⟨status, hdone⟩
        have heq := (h'.flag_off hnone).trans (h.flag_off hnone).symm
        rw [hparam, hparam'] at heq
        exact Option.some.inj heq
    simp only [bare, Parameter.new, Parameter.mk.injEq] at hsame
    rw [hparam', Option.map_some, Option.map_some, blank, blank, hsame.1, hsame.2.1, hsame.2.2.1,
      hstatus]

/-- A described state has an outline, if all names are known. -/
theorem render_isSome_of_describes {types : TypeTable} {names : NameTable}
    (h : Describes (staticType types base) base done parameters) (hlists : types.Acyclic)
    (hnamed : types.Named names)
    (hnames : ∀ parameter ∈ base, (names.text? parameter.name).isSome) :
    (∀ owner path name, (found? parameters owner (path ++ [name])).isSome →
      (names.text? name).isSome) ∧ (render types names parameters).isSome := by
  have hstatic : ∀ {owner path type}, staticType types base owner path = some type →
      ∀ name ∈ path, (names.text? name).isSome := by
    intro owner path type hstatic
    obtain ⟨parameter, -, halong⟩ := Option.bind_eq_some_iff.1 hstatic
    exact hnamed.text?_isSome_of_along halong
  have hname : ∀ parameter ∈ parameters, (names.text? parameter.name).isSome := by
    intro parameter hmem
    have hbare : bare parameter ∈ base.map bare := h.bare ▸ List.mem_map_of_mem hmem
    obtain ⟨original, horiginal, hsame⟩ := List.mem_map.1 hbare
    have hname : original.name = parameter.name := congrArg (·.name) hsame
    exact hname ▸ hnames original horiginal
  have hknown : ∀ owner path name, (found? parameters owner (path ++ [name])).isSome →
      (names.text? name).isSome := by
    intro owner path name hsome
    obtain ⟨id, hfind⟩ := Option.isSome_iff_exists.1 hsome
    obtain ⟨node, hnode, -⟩ := nodeAt?_of_found? hfind
    obtain ⟨type, -, htype⟩ := (h.node hfind hnode).type
    exact hstatic htype name (by simp)
  refine ⟨hknown, render_isSome h.wellFormed hname
    (fun parameter _ => hlists.write?_isSome hnamed parameter.type) hknown ?_⟩
  intro owner path sight hsight
  obtain ⟨node, hnode, rfl⟩ := Option.map_eq_some_iff.1 hsight
  obtain ⟨id, hfind, hnode⟩ := Option.bind_eq_some_iff.1 hnode
  constructor
  · exact fun type _ => hlists.write?_isSome hnamed type
  · intro link hlink
    by_cases hlinked : ∃ primary secondary, done (.link primary secondary) ∧ primary.EndsAt owner path
    · obtain ⟨primary, secondary, hdone, hend⟩ := hlinked
      obtain ⟨target, type, hparam, htype, hshown⟩ :=
        linkSight_of_leads ((h.node hfind hnode).link_on hdone hend)
      rw [nodeSight, hshown, Option.mem_def, Option.some.injEq] at hlink
      subst hlink
      refine ⟨hname target (List.mem_of_getElem? hparam), fun found hfound => ?_⟩
      rw [Option.mem_def, Option.some.injEq] at hfound
      subst hfound
      exact ⟨secondary.path, rfl, hstatic htype, fun type _ => hlists.write?_isSome hnamed type⟩
    · have hoff : ∀ primary secondary, done (.link primary secondary) → ¬ primary.EndsAt owner path :=
        fun primary secondary hdone hend => hlinked ⟨primary, secondary, hdone, hend⟩
      rw [nodeSight, (h.node hfind hnode).link_off hoff] at hlink
      cases hlink

end

/-- Independent statements that are recorded in one order are recorded in every order, also in
several analyses, and give the same outline every time. No list may contain itself, which holds if all
lists were made of types that were there (`TypeTable.Grounded.acyclic`). -/
theorem analyze_perm {names : NameTable} {roots : List ExprId}
    (hempty : ∀ parameter ∈ parameters, parameter.forest = .empty) (hlists : model.types.Acyclic)
    (hdistinct : names.Distinct) (hnamed : model.types.Named names)
    (hnames : ∀ parameter ∈ parameters, (names.text? parameter.name).isSome)
    (hindep : roots.Pairwise (Independent store))
    (hok : analyze model ⟨store, roots⟩ parameters = .ok () final) :
    ∃ text, Outline.render model.types names final = some text ∧
      ∀ calls : List (List ExprId), calls.flatten.Perm roots → ∃ other,
        calls.forM (fun roots => analyze model ⟨store, roots⟩) parameters = .ok () other ∧
          Outline.render model.types names other = some text := by
  obtain ⟨final', hfinal, hdescribes⟩ := describes_of_perm hempty hindep hok (List.Perm.refl roots)
  rw [hok] at hfinal
  cases hfinal
  obtain ⟨hknown, hrender⟩ := render_isSome_of_describes hdescribes hlists hnamed hnames
  obtain ⟨text, htext⟩ := Option.isSome_iff_exists.1 hrender
  refine ⟨text, htext, fun calls hcalls => ?_⟩
  obtain ⟨other, hother, hdescribes'⟩ := describes_of_perm hempty hindep hok hcalls
  refine ⟨other, by rw [forM_analyze, hother], ?_⟩
  rw [← htext]
  exact Outline.render_congr hdistinct hdescribes.wellFormed hdescribes'.wellFormed
    (blank_of_describes hdescribes hdescribes') (shown?_of_describes hdescribes hdescribes') hknown

namespace Sample

theorem grounded_types : Sample.model.types.Grounded := by
  rintro ⟨index⟩ element h
  have hmem := Array.mem_of_getElem? h
  simp [Sample.model, Sample.types] at hmem

theorem named_types : Sample.model.types.Named names := by
  have hcases : ∀ {type definition}, Sample.model.types.get? type = some definition →
      (∃ kind, definition = .primitive kind) ∨
        definition = .struct ⟨8⟩ (some [⟨⟨5⟩, ⟨5⟩⟩, ⟨⟨6⟩, ⟨3⟩⟩]) := by
    intro type definition h
    have hmem := Array.mem_of_getElem? h
    simp only [Sample.model, Sample.types, List.mem_toArray, List.mem_cons, List.not_mem_nil,
      or_false] at hmem
    obtain rfl | rfl | rfl | rfl | rfl | rfl := hmem
    all_goals first | exact Or.inl ⟨_, rfl⟩ | exact Or.inr rfl
  constructor
  · intro type definition h
    obtain ⟨kind, rfl⟩ | rfl := hcases h
    · simp [TypeDef.name?]
    · decide
  · intro type definition h
    obtain ⟨kind, rfl⟩ | rfl := hcases h
    · simp [TypeDef.members]
    · decide

end Sample

/-- The alternation of `a` and `b`, and the member `a` of `a`. -/
theorem analyze_perm_sample :
    let roots : List ExprId := [⟨5⟩, ⟨7⟩]
    let final := stateAfter Sample.model ⟨Sample.store, roots⟩ Sample.parameters
    (∀ parameter ∈ Sample.parameters, parameter.forest = .empty) ∧ Sample.model.types.Acyclic ∧
      Sample.names.Distinct ∧ Sample.model.types.Named Sample.names ∧
      (∀ parameter ∈ Sample.parameters, (Sample.names.text? parameter.name).isSome) ∧
      roots.Pairwise (Independent Sample.store) ∧
      analyze Sample.model ⟨Sample.store, roots⟩ Sample.parameters = .ok () final ∧
      ∃ text, Outline.render Sample.model.types Sample.names final = some text ∧
        ∀ calls : List (List ExprId), calls.flatten.Perm roots → ∃ other,
          calls.forM (fun roots => analyze Sample.model ⟨Sample.store, roots⟩) Sample.parameters =
              .ok () other ∧
            Outline.render Sample.model.types Sample.names other = some text := by
  intro roots final
  have hdistinct : Sample.names.Distinct := NameTable.distinct_of_nodup (by decide)
  have hnames : ∀ parameter ∈ Sample.parameters, (Sample.names.text? parameter.name).isSome := by
    decide
  have hindep : roots.Pairwise (Independent Sample.store) := by
    have hpair : Independent Sample.store ⟨5⟩ ⟨7⟩ := by constructor <;> decide +kernel
    simpa [roots] using hpair
  have hhalt : halt? Sample.model ⟨Sample.store, roots⟩ Sample.parameters = none := by
    decide +kernel
  have hok := analyze_of_halt?_none hhalt
  have hlists := Sample.grounded_types.acyclic
  exact ⟨Sample.nothing_recorded, hlists, hdistinct, Sample.named_types, hnames, hindep, hok,
    analyze_perm Sample.nothing_recorded hlists hdistinct Sample.named_types hnames hindep hok⟩

end Analysis

end InputDetail
