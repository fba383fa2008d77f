import InputDetail.Proofs.Analysis.Documented

/-!
# What becomes of named paths

A path that a statement names ends at an attached node with a status, or at a detached node to which
links lead from an attached one. Later statements keep it so, with one exception: an alternation
whose first node is linked to something else already overwrites that link. What was reached through
this link alone is lost.
-/
namespace InputDetail.Analysis

open Parameter Relation

namespace Path

/-- The place is out of reach, and this is its path. -/
def DetachedAt (parameters : List Parameter) (path : Path) (place : Place) : Prop :=
  position? parameters path.parameter = some place.owner ∧
    place.attached? parameters = some false ∧
    pathAt? parameters place.owner place.node = some path.members

/-- Following one or more links from the place leads to a detached node of that path. -/
def LinkedFrom (parameters : List Parameter) (path : Path) (start : Place) : Prop :=
  ∃ place, TransGen (LinksTo parameters) start place ∧ path.DetachedAt parameters place

/-- A node with a status is at the end of the path, or links lead from an attached node to a detached
one of that path. -/
def Represented (parameters : List Parameter) (path : Path) : Prop :=
  path.Documented parameters ∨
    ∃ start : Place, start.attached? parameters = some true ∧ path.LinkedFrom parameters start

end Path

/-- The statement is an alternation that overwrites the link of the place, or gives it its first. -/
def Relinks (store : ExprStore) (parameters : List Parameter) (id : ExprId) (place : Place) : Prop :=
  ∃ span status first second primary secondary,
    statementAt store id = .ok (.alternation span status first second) ∧
    pathAt store first = .ok primary ∧ pathAt store second = .ok secondary ∧
    primary.LeadsTo parameters place ∧ ¬ primary.Excludes parameters secondary

/-- The statement overwrites the only link through which the path is reached. -/
def Drops (store : ExprStore) (parameters : List Parameter) (id : ExprId) (path : Path) : Prop :=
  ¬ path.Documented parameters ∧ ∃ place, Relinks store parameters id place ∧
    ∀ start : Place, start.attached? parameters = some true → path.LinkedFrom parameters start →
      start = place

variable {model : Model} {store : ExprStore} {parameters after : List Parameter} {id : ExprId}
  {types : Nat → List Name → Option TypeId} {change : Change} {path : Path} {place : Place}

namespace Path

/-- An exclusion is repeated where the link is already: it leads to the detached node of the path. -/
theorem linksTo_of_relink {primary secondary : MemberPlan} {linked : NodeId}
    (hplan : planStatement model store parameters id = .ok (.relink primary secondary linked))
    (hlocates : path.Locates parameters secondary) :
    ∃ source, Parameter.found? parameters primary.owner primary.path = some source ∧
      LinksTo parameters ⟨primary.owner, source⟩ ⟨secondary.owner, linked⟩ ∧
      path.DetachedAt parameters ⟨secondary.owner, linked⟩ := by
  obtain ⟨hmembers, hposition⟩ := locates_iff.1 hlocates
  obtain ⟨source, target, node, held, htarget, hfind, hnode, hlink, hheld, hatt, hpath⟩ :=
    linked?_eq_some.1 (planStatement_sound hplan).2
  refine ⟨source, hfind, ⟨⟨target.name, linked⟩, ?_, ?_, rfl⟩, hposition, ?_, ?_⟩
  · simp [Place.link?, hnode, hlink]
  · exact position?_of_planStatement hplan rfl htarget
  · simp [Place.attached?, hheld, hatt]
  · rw [hpath, hmembers]

section

variable (h : Outcome types change parameters after)
  (hplan : planStatement model store parameters id = .ok change)
include h

/-- Detached nodes keep their paths. -/
theorem DetachedAt.step (hwf : WellFormed parameters) (hdetached : path.DetachedAt parameters place) :
    path.DetachedAt after place := by
  obtain ⟨hposition, hout, hpath⟩ := hdetached
  obtain ⟨node, hnode, -⟩ := Option.map_eq_some_iff.1 hout
  refine ⟨by rw [position?_congr h.names, hposition], h.attached?_of_detached hout, ?_⟩
  rw [h.keeps.pathAt?_eq hwf h.wellFormed hnode, hpath]

/-- A detached node was detached before, or the statement excludes its path. -/
theorem DetachedAt.before (hwf : WellFormed parameters) (hdetached : path.DetachedAt after place) :
    path.DetachedAt parameters place ∨
      ∃ secondary ∈ change.excluded?, path.Locates parameters secondary := by
  obtain ⟨hposition, hout, hpath⟩ := hdetached
  rw [position?_congr h.names] at hposition
  obtain ⟨node, hnode, hatt⟩ := Option.map_eq_some_iff.1 hout
  cases h.fate hnode with
  | found _ hfind => exact absurd hfind (found?_ne_of_detached hnode hatt _)
  | excluded primary secondary _ hlink howner _ hexcluded _ =>
    rw [howner, hexcluded.path, Option.some.injEq] at hpath
    exact Or.inr ⟨secondary, by simp [hlink, Change.excluded?],
      locates_iff.2 ⟨hpath, howner ▸ hposition⟩⟩
  | unreached base status hbefore _ hsame =>
    subst hsame
    refine Or.inl ⟨hposition, by simpa [Place.attached?, hbefore] using hatt, ?_⟩
    rw [← h.keeps.pathAt?_eq hwf h.wellFormed hbefore, hpath]

include hplan in
/-- The path that an alternation excludes is reached from the first path of the alternation. -/
theorem represented_of_secondary {secondary : MemberPlan} (hwf : WellFormed parameters)
    (hsecondary : secondary ∈ change.secondary?) (hlocates : path.Locates parameters secondary) :
    path.Represented after := by
  obtain ⟨hmembers, hposition⟩ := locates_iff.1 hlocates
  cases change with
  | flag owner status => cases hsecondary
  | record plan => cases hsecondary
  | link primary secondary =>
    cases hsecondary
    obtain ⟨start, hnew⟩ := h.exists_links hplan rfl
    obtain ⟨_, hsecondary, excluded, hexcluded, harrow⟩ := h.linksTo_iff_of_links hplan hnew
    cases hsecondary
    refine Or.inr ⟨start, hnew.attached?, ⟨secondary.owner, excluded⟩, .single ((harrow _).2 rfl), ?_⟩
    refine ⟨by rw [position?_congr h.names, hposition], hexcluded.attached? rfl, ?_⟩
    rw [hexcluded.path, hmembers]
  | relink primary secondary linked =>
    cases hsecondary
    obtain ⟨source, hfind, hlinks, hdetached⟩ := linksTo_of_relink hplan hlocates
    have hold : ¬ (Change.relink primary secondary linked).Links after ⟨primary.owner, source⟩ := by
      rintro ⟨_, _, ⟨⟩, -⟩
    obtain hstays | ⟨_, hexcluded, -⟩ := h.attached?_of_attached (attached?_of_found? hfind)
    · exact Or.inr ⟨_, hstays, _, .single ((h.linksTo_iff hold).2 hlinks), hdetached.step h hwf⟩
    · cases hexcluded

end

end Path

/-- A statement gives a node a link if its plan does, and the node was there before. -/
theorem relinks_iff (hplan : planStatement model store parameters id = .ok change) :
    Relinks store parameters id place ↔ ∃ primary secondary, change = .link primary secondary ∧
      place.owner = primary.owner ∧
      found? parameters primary.owner primary.path = some place.node := by
  obtain ⟨_, _, plan, hstatement, -, rfl⟩ | ⟨_, _, first, second, hstatement, hboth⟩ :=
    planStatement_cases hplan
  · constructor
    · rintro ⟨_, _, _, _, _, _, hstatement', -⟩
      rw [hstatement] at hstatement'
      cases hstatement'
    · rintro ⟨_, _, heq, -⟩
      cases plan <;> cases heq
  · obtain ⟨primary, secondary, hprimary, hsecondary, -, hcase⟩ := planAlternation_cases hboth
    obtain ⟨path, hread, hlocates⟩ := locates_of_planPath hprimary
    obtain ⟨path', hread', hlocates'⟩ := locates_of_planPath hsecondary
    have hexcludes : path.Excludes parameters path' ↔
        (Analysis.linked? parameters primary secondary).isSome := by
      obtain ⟨hmembers, source, hsource⟩ := hlocates
      obtain ⟨hmembers', target, htarget⟩ := hlocates'
      exact excludes_iff hmembers hmembers' hsource htarget
    constructor
    · rintro ⟨_, _, _, _, _, _, hstatement', hread₁, hread₂, hleads, hnot⟩
      rw [hstatement] at hstatement'
      cases hstatement'
      rw [hread] at hread₁
      rw [hread'] at hread₂
      cases hread₁
      cases hread₂
      obtain ⟨-, rfl⟩ | ⟨linked, hlinked, -⟩ := hcase
      · exact ⟨primary, secondary, rfl, (Path.leadsTo_iff_of_locates hlocates).1 hleads⟩
      · exact absurd (hexcludes.2 (by rw [hlinked]; rfl)) hnot
    · rintro ⟨_, _, heq, hleads⟩
      obtain ⟨hnone, rfl⟩ | ⟨linked, -, rfl⟩ := hcase
      · cases heq
        refine ⟨_, _, _, _, path, path', hstatement, hread, hread', ?_, ?_⟩
        · exact (Path.leadsTo_iff_of_locates hlocates).2 hleads
        · rw [hexcludes, hnone]
          exact Bool.false_ne_true
      · cases heq

section

variable (h : Outcome types change parameters after)
  (hplan : planStatement model store parameters id = .ok change)
include h hplan

/-- The node that a statement relinks is the one that gets a link. -/
theorem Relinks.links (hrelinks : Relinks store parameters id place) : change.Links after place := by
  obtain ⟨primary, secondary, rfl, howner, hfind⟩ := (relinks_iff hplan).1 hrelinks
  refine ⟨primary, secondary, rfl, howner, h.found?_of_some hfind fun _ hsecondary => ?_⟩
  exact (planStatement_sound hplan).not_heads rfl hsecondary

theorem Change.Links.relinks (hnew : change.Links after place)
    (hold : place.attached? parameters = some true) : Relinks store parameters id place := by
  obtain ⟨primary, secondary, rfl, howner, hfind⟩ := hnew
  obtain ⟨node, hnode, -⟩ := Option.map_eq_some_iff.1 hold
  rw [howner] at hnode
  exact (relinks_iff hplan).2 ⟨primary, secondary, rfl, howner, h.found?_before hfind hnode⟩

/-- A path that is reached from a node without a new link is represented, and not dropped. -/
theorem represented_of_unlinked {source : Place} (hatt : source.attached? parameters ≠ some false)
    (hold : ¬ change.Links after source) (hchain : TransGen (LinksTo parameters) source place)
    (hdetached : path.DetachedAt parameters place) :
    path.Represented parameters ∧ ¬ Drops store parameters id path := by
  obtain ⟨_, hlinks, -⟩ := TransGen.head'_iff.1 hchain
  have hatt' := hlinks.attached?_eq_true hatt
  refine ⟨Or.inr ⟨source, hatt', place, hchain, hdetached⟩, ?_⟩
  rintro ⟨-, relinked, hrelinks, honly⟩
  obtain rfl := honly source hatt' ⟨place, hchain, hdetached⟩
  exact hold (hrelinks.links h hplan)

variable (hwf : WellFormed parameters) (hsound : LinksSound parameters)
include hwf

/-- What a statement names is represented afterwards. -/
theorem represented_of_named (hmembers : path.members ≠ []) (hnamed : path ∈ named store id) :
    path.Represented after := by
  obtain ⟨plan, hprimary | hsecondary, hlocates⟩ := (mem_named_iff hplan hmembers).1 hnamed
  · exact Or.inl (Path.documented_iff_exists.2
      ⟨plan.status, Path.status?_of_primary h hplan hprimary hlocates⟩)
  · exact Path.represented_of_secondary h hplan hwf hsecondary hlocates

include hsound

/-- What is represented stays so, if the only link to it is not overwritten. -/
theorem represented_of_kept (hrepresented : path.Represented parameters)
    (hkept : ¬ Drops store parameters id path) : path.Represented after := by
  by_cases hdocumented : path.Documented parameters
  · obtain hstays | ⟨secondary, hsecondary, hlocates⟩ := hdocumented.step h hplan
    · exact Or.inl hstays
    · exact Path.represented_of_secondary h hplan hwf (Change.secondary?_of_excluded? hsecondary)
        hlocates
  have hchain : ∃ start : Place, start.attached? parameters = some true ∧
      path.LinkedFrom parameters start ∧ ¬ change.Links after start := by
    by_contra hnone
    simp only [not_exists, not_and, not_not] at hnone
    obtain hdocumented' | ⟨start, hatt, hlinked⟩ := hrepresented
    · exact hdocumented hdocumented'
    have hnew := hnone start hatt hlinked
    refine hkept ⟨hdocumented, start, hnew.relinks h hplan hatt, fun other hatt' hlinked' => ?_⟩
    exact (hnone other hatt' hlinked').unique hnew
  obtain ⟨start, hatt, ⟨place, hchain, hdetached⟩, hold⟩ := hchain
  have hchain' := h.transGen_after hsound hold hchain
  have hdetached' := hdetached.step h hwf
  obtain hstays | ⟨secondary, hsecondary, howner, hexcluded⟩ := h.attached?_of_attached hatt
  · exact Or.inr ⟨start, hstays, place, hchain', hdetached'⟩
  · obtain ⟨source, hnew⟩ := h.exists_links hplan hsecondary
    have harrow := h.linksTo_of_excluded hplan hnew hatt hsecondary howner hexcluded
    exact Or.inr ⟨source, hnew.attached?, place, hchain'.head harrow, hdetached'⟩

/-- What is represented afterwards was represented before, through a link that stays, or the statement
names it. -/
theorem represented_cases (hmembers : path.members ≠ []) (hrepresented : path.Represented after) :
    path ∈ named store id ∨ path.Represented parameters ∧ ¬ Drops store parameters id path := by
  have hnamed : ∀ {plan}, plan ∈ change.primary? ∨ plan ∈ change.secondary? →
      path.Locates parameters plan → path ∈ named store id :=
    fun hplan' hlocates => (mem_named_iff hplan hmembers).2 ⟨_, hplan', hlocates⟩
  obtain hdocumented | ⟨start, hatt, place, hchain, hdetached⟩ := hrepresented
  · obtain ⟨status, hstatus⟩ := Path.documented_iff_exists.1 hdocumented
    obtain ⟨plan, hprimary, hlocates, -⟩ | hold := Path.status?_cases h hstatus
    · exact Or.inl (hnamed (Or.inl hprimary) hlocates)
    · have hbefore : path.Documented parameters := Path.documented_iff_exists.2 ⟨status, hold⟩
      exact Or.inr ⟨Or.inl hbefore, fun hdrops => hdrops.1 hbefore⟩
  obtain hbefore | ⟨secondary, hsecondary, hlocates⟩ := hdetached.before h hwf
  case inr => exact Or.inl (hnamed (Or.inr (Change.secondary?_of_excluded? hsecondary)) hlocates)
  have hsound' := hsound.step h hplan
  right
  by_cases hnew : change.Links after start
  · obtain ⟨secondary, hsecondary, excluded, hexcluded, harrow⟩ := h.linksTo_iff_of_links hplan hnew
    obtain ⟨next, hlinks, hrest⟩ := TransGen.head'_iff.1 hchain
    obtain rfl := (harrow next).1 hlinks
    obtain ⟨base, horigin⟩ := hexcluded.origin
    obtain rfl | hrest := Relation.reflTransGen_iff_eq_or_transGen.1 hrest
    · exact absurd hbefore.2.1 (attached?_of_origin horigin)
    · have hold := change.not_links_of_detached (hsound'.detached hlinks)
      exact represented_of_unlinked h hplan (attached?_of_origin horigin) hold
        (h.transGen_before hsound'.detached hold hrest) hbefore
  · refine represented_of_unlinked h hplan (fun hout => ?_) hnew
      (h.transGen_before hsound'.detached hnew hchain) hbefore
    simp [h.attached?_of_detached hout] at hatt

/-- What is represented after a statement: what it names, and what was represented before, unless the
statement drops it. -/
theorem represented_step (hmembers : path.members ≠ []) : path.Represented after ↔
    path ∈ named store id ∨ path.Represented parameters ∧ ¬ Drops store parameters id path := by
  constructor
  · exact represented_cases h hplan hwf hsound hmembers
  · rintro (hnamed | ⟨hbefore, hkept⟩)
    · exact represented_of_named h hplan hwf hmembers hnamed
    · exact represented_of_kept h hplan hwf hsound hbefore hkept

end

/-- No statement of the block from number `k` on drops the path. -/
def KeptFrom (model : Model) (document : Document) (parameters : List Parameter) (k : Nat)
    (path : Path) : Prop :=
  ∀ j later, k ≤ j → document.roots[j]? = some later →
    ¬ Drops document.store (stateAfter model ⟨document.store, document.roots.take j⟩ parameters) later
      path

section

variable {root : ExprId} {roots : List ExprId} {k : Nat}

theorem keptFrom_succ (h : analyzeStatement model store root parameters = .ok () after) :
    KeptFrom model ⟨store, root :: roots⟩ parameters (k + 1) path ↔
      KeptFrom model ⟨store, roots⟩ after k path := by
  constructor
  · intro hkept j later hj hlater
    have hnot := hkept (j + 1) later (by omega) (by simpa using hlater)
    rwa [List.take_succ_cons, stateAfter_cons h] at hnot
  · rintro hkept (_ | j) later hj hlater
    · omega
    · rw [List.take_succ_cons, stateAfter_cons h]
      exact hkept j later (by omega) (by simpa using hlater)

theorem keptFrom_zero : KeptFrom model ⟨store, root :: roots⟩ parameters 0 path ↔
    ¬ Drops store parameters root path ∧ KeptFrom model ⟨store, root :: roots⟩ parameters 1 path := by
  constructor
  · exact fun hkept => ⟨hkept 0 root (by omega) rfl, fun j later hj => hkept j later (by omega)⟩
  · rintro ⟨hfirst, hkept⟩ (_ | j) later hj hlater
    · simp only [List.getElem?_cons_zero, Option.some.injEq] at hlater
      exact hlater ▸ hfirst
    · exact hkept (j + 1) later (by omega) hlater

/-- What is represented in the end was represented at first or named, and not dropped since. -/
theorem represented_of_analyze (hwf : WellFormed parameters) (hsound : LinksSound parameters)
    (hmembers : path.members ≠ []) {final : List Parameter}
    (hok : analyze model ⟨store, roots⟩ parameters = .ok () final) : path.Represented final ↔
      path.Represented parameters ∧ KeptFrom model ⟨store, roots⟩ parameters 0 path ∨
      ∃ k root, roots[k]? = some root ∧ path ∈ named store root ∧
        KeptFrom model ⟨store, roots⟩ parameters (k + 1) path := by
  induction roots generalizing parameters with
  | nil =>
    cases hok
    simp [KeptFrom]
  | cons first rest ih =>
    obtain ⟨after, hfirst, hrest⟩ := analyze_cons_eq_ok.1 hok
    obtain ⟨change, hplan, h⟩ := outcome_of_analyzeStatement hwf hfirst
    rw [ih h.wellFormed (hsound.step h hplan) hrest, represented_step h hplan hwf hsound hmembers,
      keptFrom_zero, keptFrom_succ hfirst]
    constructor
    · rintro (⟨hnamed | ⟨hbefore, hnot⟩, hkept⟩ | ⟨k, root, hroot, hnamed, hkept⟩)
      · exact Or.inr ⟨0, first, rfl, hnamed, (keptFrom_succ hfirst).2 hkept⟩
      · exact Or.inl ⟨hbefore, hnot, hkept⟩
      · exact Or.inr ⟨k + 1, root, hroot, hnamed, (keptFrom_succ hfirst).2 hkept⟩
    · rintro (⟨hbefore, hnot, hkept⟩ | ⟨_ | k, root, hroot, hnamed, hkept⟩)
      · exact Or.inl ⟨Or.inr ⟨hbefore, hnot⟩, hkept⟩
      · simp only [List.getElem?_cons_zero, Option.some.injEq] at hroot
        exact Or.inl ⟨Or.inl (hroot ▸ hnamed), (keptFrom_succ hfirst).1 hkept⟩
      · exact Or.inr ⟨k, root, hroot, hnamed, (keptFrom_succ hfirst).1 hkept⟩

end

theorem not_represented_of_empty (hempty : ∀ parameter ∈ parameters, parameter.forest = .empty) :
    ¬ path.Represented parameters := by
  rintro (hdocumented | ⟨start, -, _, hchain, -⟩)
  · rw [Path.documented_iff_status?, Path.status?_of_empty hempty] at hdocumented
    cases hdocumented
  · obtain ⟨_, hlinks, -⟩ := TransGen.head'_iff.1 hchain
    exact not_linksTo_of_empty hempty hlinks

/-- A member path is represented after a block exactly if the block names it and no later statement
overwrites the only link to it. -/
theorem represented_iff_named {base final : List Parameter} {document : Document}
    (hempty : ∀ parameter ∈ base, parameter.forest = .empty)
    (hok : analyze model document base = .ok () final) (hmembers : path.members ≠ []) :
    path.Represented final ↔ ∃ k root, document.roots[k]? = some root ∧
      path ∈ named document.store root ∧ KeptFrom model document base (k + 1) path := by
  have hreach : Reachable base := .start hempty
  rw [represented_of_analyze hreach.built.wellFormed hreach.linksSound hmembers hok,
    or_iff_right fun hbefore => not_represented_of_empty hempty hbefore.1]

namespace Sample

/-- The sample store with one more statement at number 8: the alternation of `a` and of its member
`a`. -/
def rivals : ExprStore :=
  ⟨Sample.store.exprs.push ⟨.call none .or ⟨5, 2⟩, ⟨0, 0⟩⟩, Sample.store.args ++ #[⟨3⟩, ⟨7⟩]⟩

/-- What the alternation of `a` and `b` leaves. -/
def alternated : List Parameter := stateAfter Sample.model ⟨rivals, [⟨5⟩]⟩ Sample.parameters

theorem alternated_eq : alternated =
    [⟨⟨7⟩, ⟨5⟩, .input, .optional, ⟨#[
      ⟨⟨5⟩, none, some ⟨5⟩, some .mandatory, some ⟨⟨7⟩, ⟨1⟩⟩, true⟩,
      ⟨⟨6⟩, none, some ⟨3⟩, some .mandatory, none, false⟩]⟩⟩] := by
  decide +kernel

/-- There is one link: from `a` to `b`. -/
theorem eq_of_linksTo {source target : Place} (h : LinksTo alternated source target) :
    source = ⟨0, ⟨0⟩⟩ := by
  obtain ⟨owner, ⟨index⟩⟩ := source
  obtain ⟨link, hlink, -⟩ := h
  rw [alternated_eq] at hlink
  obtain _ | owner := owner
  · obtain _ | _ | index := index
    · rfl
    · simp [Place.link?, nodeAt?, Forest.node?] at hlink
    · simp [Place.link?, nodeAt?, Forest.node?] at hlink
  · simp [Place.link?, nodeAt?] at hlink

/-- The second alternation overwrites the link to `b`. -/
theorem drops_b : Drops rivals alternated ⟨8⟩ ⟨⟨7⟩, [⟨6⟩]⟩ := by
  have hposition : position? alternated ⟨7⟩ = some 0 := by decide +kernel
  refine ⟨?_, ⟨0, ⟨0⟩⟩, ?_, ?_⟩
  · rw [Path.documented_iff_status?]
    decide +kernel
  · let primary : MemberPlan := ⟨0, ⟨⟨5⟩, ⟨5⟩⟩, [], .mandatory⟩
    let secondary : MemberPlan := ⟨0, ⟨⟨5⟩, ⟨5⟩⟩, [⟨⟨5⟩, ⟨5⟩⟩], .mandatory⟩
    refine ⟨⟨0, 0⟩, .mandatory, ⟨1⟩, ⟨6⟩, ⟨⟨7⟩, primary.path⟩, ⟨⟨7⟩, secondary.path⟩, ?_, ?_, ?_,
      ⟨hposition, ?_⟩, ?_⟩
    · decide +kernel
    · decide +kernel
    · decide +kernel
    · decide +kernel
    · obtain ⟨parameter, hparam, -⟩ := getElem?_of_position? hposition
      have hlocate : locate? alternated ⟨7⟩ = some (primary.owner, parameter) :=
        locate?_eq_some.2 ⟨hposition, hparam⟩
      have hnone : Analysis.linked? alternated primary secondary = none := by decide +kernel
      have hiff : Path.Excludes alternated ⟨⟨7⟩, primary.path⟩ ⟨⟨7⟩, secondary.path⟩ ↔ _ :=
        excludes_iff rfl rfl hlocate hlocate
      simp [hiff, hnone]
  · rintro start - ⟨_, hchain, -⟩
    obtain ⟨_, hlinks, -⟩ := TransGen.head'_iff.1 hchain
    exact eq_of_linksTo hlinks

end Sample

/-- After two alternations of `a` the second one's other path is represented, and the first one's is
lost. -/
theorem represented_iff_named_sample :
    let document : Document := ⟨Sample.rivals, [⟨5⟩, ⟨8⟩]⟩
    let final := stateAfter Sample.model document Sample.parameters
    let kept : Path := ⟨⟨7⟩, [⟨5⟩, ⟨5⟩]⟩
    let lost : Path := ⟨⟨7⟩, [⟨6⟩]⟩
    (∀ parameter ∈ Sample.parameters, parameter.forest = .empty) ∧
      analyze Sample.model document Sample.parameters = .ok () final ∧
      kept.members ≠ [] ∧ kept ∈ named Sample.rivals ⟨8⟩ ∧ kept.Represented final ∧
      lost.members ≠ [] ∧ lost ∈ named Sample.rivals ⟨5⟩ ∧ ¬ lost.Represented final := by
  intro document final kept lost
  have hhalt : halt? Sample.model document Sample.parameters = none := by decide +kernel
  have hok := analyze_of_halt?_none hhalt
  have hkept : kept ∈ named Sample.rivals ⟨8⟩ := by decide +kernel
  have hlost : lost ∈ named Sample.rivals ⟨5⟩ := by decide +kernel
  have hiff : ∀ path : Path, path.members ≠ [] → (path.Represented final ↔ _) :=
    fun _ => represented_iff_named Sample.nothing_recorded hok
  refine ⟨Sample.nothing_recorded, hok, by decide, hkept, ?_, by decide, hlost, fun hlost => ?_⟩
  · refine (hiff kept (by decide)).2 ⟨1, ⟨8⟩, rfl, hkept, fun j later hj hlater => ?_⟩
    have hlt := (List.getElem?_eq_some_iff.1 hlater).1
    simp only [document, List.length_cons, List.length_nil] at hlt
    omega
  · obtain ⟨_ | _ | k, root, hroot, hnamed, hkept⟩ := (hiff lost (by decide)).1 hlost
    · exact hkept 1 ⟨8⟩ (Nat.le_refl 1) rfl Sample.drops_b
    · cases hroot
      exact absurd hnamed (by decide +kernel)
    · cases hroot

end InputDetail.Analysis
