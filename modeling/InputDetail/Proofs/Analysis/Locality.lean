import InputDetail.Proofs.Analysis.Frame
import InputDetail.Proofs.Analysis.Representation

/-!
# What a statement leaves alone

A statement creates nodes only where its own paths are missing, and writes only to the nodes at their
ends. An alternation may also link the end of its first path, detach the end of the second, and write to
the node that it has detached before. Whatever else there is stays as it is: the other nodes, the
entries by which children are found, and the parameters that the statement does not name.
-/
namespace InputDetail.Analysis

open Parameter

variable {types : Nat → List Name → Option TypeId} {parameters after : List Parameter}
  {change : Change} {place : Place} {owner : Nat} {path : List Name} {status : Status}

namespace Path

/-- The node at the end of the path. It may be new. -/
def EndsAt (parameters after : List Parameter) (path : Path) (place : Place) : Prop :=
  position? parameters path.parameter = some place.owner ∧
    place.AtEnd parameters after path.members

/-- The way down the path leads over these members, which are not there. -/
def Misses (parameters : List Parameter) (path : Path) (owner : Nat) (members : List Name) : Prop :=
  position? parameters path.parameter = some owner ∧ Forest.OnWay path.members members ∧
    Parameter.found? parameters owner members = none

variable {path : Path} {plan : MemberPlan}

theorem Locates.endsAt (h : path.Locates parameters plan) (howner : place.owner = plan.owner)
    (hend : place.AtEnd parameters after plan.path) : path.EndsAt parameters after place := by
  obtain ⟨hmembers, hposition⟩ := locates_iff.1 h
  exact ⟨howner ▸ hposition, hmembers ▸ hend⟩

theorem Locates.misses (h : path.Locates parameters plan) {members : List Name}
    (hpasses : plan.Passes owner members)
    (hmissing : Parameter.found? parameters owner members = none) :
    path.Misses parameters owner members := by
  obtain ⟨hmembers, hposition⟩ := locates_iff.1 h
  exact ⟨hpasses.1 ▸ hposition, hmembers ▸ hpasses.2, hmissing⟩

end Path

namespace Touch

/-- What a declaration of the path may touch: the node at its end and nodes that are missing, or else
the parameter itself. -/
def declaration (parameters after : List Parameter) (path : Path) : Touch where
  flagged owner := path.members = [] ∧ position? parameters path.parameter = some owner
  marked := path.EndsAt parameters after
  linked _ := False
  detached _ := False
  added := path.Misses parameters

/-- What an alternation of two paths may touch: what declarations of them would, the link of the first
end, whether the second end is attached, and the status of a node that the first end is linked to
already. -/
def alternation (parameters after : List Parameter) (primary secondary : Path) : Touch where
  flagged _ := False
  marked place := primary.EndsAt parameters after place ∨ secondary.EndsAt parameters after place ∨
    ∃ source, primary.LeadsTo parameters source ∧ LinksTo parameters source place ∧
      secondary.DetachedAt parameters place
  linked := primary.EndsAt parameters after
  detached := secondary.EndsAt parameters after
  added owner members :=
    primary.Misses parameters owner members ∨ secondary.Misses parameters owner members

theorem spares_declaration {path : Path} (h : position? parameters path.parameter ≠ some owner) :
    (declaration parameters after path).Spares owner where
  flagged hflag := h hflag.2
  marked _ hend := h hend.1
  linked _ := id
  detached _ := id
  added _ hmissing := h hmissing.1

theorem spares_alternation {primary secondary : Path}
    (hprimary : position? parameters primary.parameter ≠ some owner)
    (hsecondary : position? parameters secondary.parameter ≠ some owner) :
    (alternation parameters after primary secondary).Spares owner where
  flagged := id
  marked := by
    rintro id (hend | hend | ⟨_, -, -, hdetached⟩)
    · exact hprimary hend.1
    · exact hsecondary hend.1
    · exact hsecondary hdetached.1
  linked _ hend := hprimary hend.1
  detached _ hend := hsecondary hend.1
  added _ hmissing := hmissing.elim (fun h => hprimary h.1) fun h => hsecondary h.1

section

variable {path path' : Path} {plan primary secondary : MemberPlan}

theorem within_declaration_of_flag (hnil : path.members = [])
    (hposition : position? parameters path.parameter = some owner) :
    ((Change.flag owner status).touch parameters after).Within
      (declaration parameters after path) where
  flagged := by
    rintro _ ⟨_, heq⟩
    cases heq
    exact ⟨hnil, hposition⟩
  marked := by simp [Change.touch, Change.recorded]
  linked := by simp [Change.touch]
  detached := by simp [Change.touch, Change.excluded?]
  added := by simp [Change.touch, Change.recorded]

theorem within_declaration_of_record (hlocates : path.Locates parameters plan) :
    ((Change.record plan).touch parameters after).Within (declaration parameters after path) where
  flagged := by simp [Change.touch]
  marked := by
    rintro place (⟨_, hplan, howner, hend⟩ | ⟨_, _, heq, -⟩)
    · obtain rfl := List.mem_singleton.1 hplan
      exact hlocates.endsAt howner hend
    · cases heq
  linked := by simp [Change.touch]
  detached := by simp [Change.touch, Change.excluded?]
  added := by
    rintro _ members ⟨⟨_, hplan, hpasses⟩, hmissing⟩
    obtain rfl := List.mem_singleton.1 hplan
    exact hlocates.misses hpasses hmissing

theorem within_alternation_of_link (hprimary : path.Locates parameters primary)
    (hsecondary : path'.Locates parameters secondary) :
    ((Change.link primary secondary).touch parameters after).Within
      (alternation parameters after path path') where
  flagged := by simp [Change.touch]
  marked := by
    rintro place (⟨_, hplan, howner, hend⟩ | ⟨_, _, heq, -⟩)
    · obtain rfl | hplan := List.mem_cons.1 hplan
      · exact Or.inl (hprimary.endsAt howner hend)
      · obtain rfl := List.mem_singleton.1 hplan
        exact Or.inr (Or.inl (hsecondary.endsAt howner hend))
    · cases heq
  linked := by
    rintro place ⟨_, _, heq, howner, hend⟩
    cases heq
    exact hprimary.endsAt howner hend
  detached := by
    rintro place ⟨_, hexcluded, howner, hend⟩
    cases hexcluded
    exact hsecondary.endsAt howner hend
  added := by
    rintro _ members ⟨⟨_, hplan, hpasses⟩, hmissing⟩
    obtain rfl | hplan := List.mem_cons.1 hplan
    · exact Or.inl (hprimary.misses hpasses hmissing)
    · obtain rfl := List.mem_singleton.1 hplan
      exact Or.inr (hsecondary.misses hpasses hmissing)

theorem within_alternation_of_relink {source linked : NodeId}
    (hprimary : path.Locates parameters primary)
    (hfind : found? parameters primary.owner primary.path = some source)
    (hlinks : LinksTo parameters ⟨primary.owner, source⟩ ⟨secondary.owner, linked⟩)
    (hdetached : path'.DetachedAt parameters ⟨secondary.owner, linked⟩) :
    ((Change.relink primary secondary linked).touch parameters after).Within
      (alternation parameters after path path') where
  flagged := by simp [Change.touch]
  marked := by
    rintro ⟨owner, id⟩ (⟨_, hplan, howner, hend⟩ | ⟨_, _, heq, rfl⟩)
    · obtain rfl := List.mem_singleton.1 hplan
      exact Or.inl (hprimary.endsAt howner hend)
    · cases heq
      have hleads : path.LeadsTo parameters ⟨primary.owner, source⟩ :=
        (Path.leadsTo_iff_of_locates hprimary).2 ⟨rfl, hfind⟩
      exact Or.inr (Or.inr ⟨_, hleads, hlinks, hdetached⟩)
  linked := by simp [Change.touch]
  detached := by simp [Change.touch, Change.excluded?]
  added := by
    rintro _ members ⟨⟨_, hplan, hpasses⟩, hmissing⟩
    obtain rfl := List.mem_singleton.1 hplan
    exact Or.inl (hprimary.misses hpasses hmissing)

end

end Touch

/-- The path is recorded: its end has the status, and there is a new node for each missing member. -/
structure Records (status : Status) (path : Path) (parameters after : List Parameter) : Prop where
  flag : path.members = [] → ∀ owner, position? parameters path.parameter = some owner →
    after[owner]?.map Parameter.status = some status
  marked : ∀ place, path.EndsAt parameters after place → place.status? after = some status
  added : ∀ owner members, path.Misses parameters owner members →
    ∃ id, Place.New parameters after ⟨owner, id⟩ ∧ found? after owner members = some id

/-- Recording one path leads to the node at the end of any path. -/
theorem Outcome.found?_of_atEnd {plan : MemberPlan} (h : Outcome types (.record plan) parameters after)
    (hend : place.AtEnd parameters after path) : found? after place.owner path = some place.node := by
  obtain hfind | ⟨hnew, hpath⟩ := hend
  · exact h.found?_of_some hfind nofun
  · obtain ⟨node, hnode⟩ := Option.isSome_iff_exists.1 hnew.2
    cases h.fate hnode with
    | found path' hfind =>
      rw [h.wellFormed.pathAt?_of_found? hfind, Option.some.injEq] at hpath
      exact hpath ▸ hfind
    | excluded _ _ _ hlink _ _ _ _ => cases hlink
    | unreached _ _ hbefore _ _ => exact absurd hnew (not_new_of_nodeAt? hbefore)

/-- A path that is gone down is recorded. -/
theorem Outcome.records {plan : MemberPlan} (h : Outcome types (.record plan) parameters after)
    {path : Path} (hlocates : path.Locates parameters plan) :
    Records plan.status path parameters after := by
  obtain ⟨hmembers, hposition⟩ := Path.locates_iff.1 hlocates
  constructor
  case flag =>
    intro hnil
    exact absurd (hmembers.trans hnil) plan.path_ne_nil
  case marked =>
    rintro ⟨owner, id⟩ ⟨howner, hend⟩
    obtain rfl := Option.some.inj (hposition.symm.trans howner)
    rw [← hmembers] at hend
    have hfind := h.found?_of_atEnd hend
    obtain ⟨_, node, -, hnode, hmarks⟩ := h.found hfind
    rw [status?_eq hnode, hmarks.status_on plan rfl ⟨rfl, rfl⟩]
  case added =>
    rintro owner members ⟨howner, hway, hmissing⟩
    obtain rfl := Option.some.inj (hposition.symm.trans howner)
    obtain ⟨id, hfind⟩ := Option.isSome_iff_exists.1 (h.isSome_iff.2
      ⟨Or.inr ⟨plan, List.mem_singleton_self plan, rfl, hmembers ▸ hway⟩, nofun⟩)
    obtain ⟨_, node, ⟨hbefore, -⟩ | ⟨-, hnone, -⟩, hnode, -⟩ := h.found hfind
    · simp [hmissing] at hbefore
    · exact ⟨id, ⟨hnone, by rw [hnode]; rfl⟩, hfind⟩

/-- A status of a whole parameter is recorded. -/
theorem Outcome.records_flag (h : Outcome types (.flag owner status) parameters after) {path : Path}
    (hnil : path.members = []) (hposition : position? parameters path.parameter = some owner) :
    Records status path parameters after := by
  constructor
  case flag =>
    intro _ owner' hposition'
    obtain rfl := Option.some.inj (hposition.symm.trans hposition')
    obtain ⟨_, heq, hset⟩ | ⟨hne, -⟩ := flag_of_effect h.toEffect owner
    · cases heq
      obtain ⟨parameter, hparam, -⟩ := getElem?_of_position? hposition
      rw [hset, hparam, Option.map_some]
    · exact absurd rfl (hne status)
  case marked =>
    rintro place ⟨-, hfind | ⟨hnew, -⟩⟩
    · obtain ⟨_, -, hfind⟩ := Option.bind_eq_some_iff.1 hfind
      simp [hnil] at hfind
    · obtain ⟨node, hnode⟩ := Option.isSome_iff_exists.1 hnew.2
      obtain ⟨_, -, -, _, hplan, -⟩ := h.path_of_new hnode hnew.1
      cases hplan
  case added =>
    rintro _ members ⟨-, ⟨hne, hway⟩, -⟩
    rw [hnil, List.prefix_nil] at hway
    exact absurd hway hne

section

variable {model : Model} {store : ExprStore} {statement : ExprId}

theorem frame_of_planStatement (h : Reachable parameters)
    (hplan : planStatement model store parameters statement = .ok change)
    (houtcome : Outcome (plannedType model.types parameters) change parameters after)
    (hwrites : change.WritesOnly status)
    (hok : analyzeStatement model store statement parameters = .ok () after) :
    Frame (change.touch parameters after) status parameters after := by
  simp only [analyzeStatement, hplan] at hok
  exact houtcome.frame h.complete h.built.wellFormed (fits_plannedType model.types parameters)
    (planStatement_sound hplan) hwrites hok

theorem frame_of_declaration (h : Reachable parameters) {documented : ExprId}
    (hstatement : statementAt store statement = .ok (.declaration status documented))
    (hok : analyzeStatement model store statement parameters = .ok () after) :
    ∃ path, pathAt store documented = .ok path ∧
      Frame (.declaration parameters after path) status parameters after ∧
      Records status path parameters after := by
  obtain ⟨change, hplan, houtcome⟩ := outcome_of_analyzeStatement h.built.wellFormed hok
  obtain ⟨_, _, plan, hdeclaration, hpath, rfl⟩ | ⟨_, _, _, _, halternation, -⟩ :=
    planStatement_cases hplan
  swap
  · simp [hstatement] at halternation
  rw [hstatement] at hdeclaration
  cases hdeclaration
  obtain ⟨path, owner, parameter, hread, hlocate, ⟨hnil, -, rfl⟩ | ⟨_, _, first, later, -, -, -, rfl⟩⟩ :=
    planPath_cases hpath
  · obtain ⟨hposition, -⟩ := locate?_eq_some.1 hlocate
    have hwrites : (Change.flag owner status).WritesOnly status :=
      ⟨by simp, by simp [Change.primary?, Change.secondary?]⟩
    have hframe := frame_of_planStatement h hplan houtcome hwrites hok
    exact ⟨path, hread, hframe.mono (Touch.within_declaration_of_flag hnil hposition),
      houtcome.records_flag hnil hposition⟩
  · obtain ⟨path', hread', hlocates⟩ := locates_of_planPath hpath
    obtain rfl := Except.ok.inj (hread.symm.trans hread')
    have hwrites : (Change.record ⟨owner, first, later, status⟩).WritesOnly status :=
      ⟨by simp, by simp [Change.primary?, Change.secondary?]⟩
    have hframe := frame_of_planStatement h hplan houtcome hwrites hok
    exact ⟨path, hread, hframe.mono (Touch.within_declaration_of_record hlocates),
      houtcome.records hlocates⟩

theorem frame_of_alternation (h : Reachable parameters) {span : Span} {first second : ExprId}
    (hstatement : statementAt store statement = .ok (.alternation span status first second))
    (hok : analyzeStatement model store statement parameters = .ok () after) :
    ∃ primary secondary, pathAt store first = .ok primary ∧ pathAt store second = .ok secondary ∧
      Frame (.alternation parameters after primary secondary) status parameters after := by
  obtain ⟨change, hplan, houtcome⟩ := outcome_of_analyzeStatement h.built.wellFormed hok
  obtain ⟨_, _, _, hdeclaration, -⟩ | ⟨_, _, _, _, halternation, hboth⟩ := planStatement_cases hplan
  · simp [hstatement] at hdeclaration
  rw [hstatement] at halternation
  cases halternation
  obtain ⟨primary, secondary, hprimary, hsecondary, -, hcase⟩ := planAlternation_cases hboth
  obtain ⟨path, hread, hlocates⟩ := locates_of_planPath hprimary
  obtain ⟨path', hread', hlocates'⟩ := locates_of_planPath hsecondary
  obtain ⟨-, hstatus, -⟩ := planPath_members hprimary
  obtain ⟨-, hstatus', -⟩ := planPath_members hsecondary
  have hwrites : change.WritesOnly status := by
    obtain ⟨-, rfl⟩ | ⟨linked, -, rfl⟩ := hcase
    all_goals
      refine ⟨nofun, ?_⟩
      rintro plan (heq | heq)
      · rwa [← Option.some.inj heq]
      · rwa [← Option.some.inj heq]
  refine ⟨path, path', hread, hread', (frame_of_planStatement h hplan houtcome hwrites hok).mono ?_⟩
  obtain ⟨-, rfl⟩ | ⟨linked, -, rfl⟩ := hcase
  · exact Touch.within_alternation_of_link hlocates hlocates'
  · obtain ⟨source, hfind, hlinks, hdetached⟩ := Path.linksTo_of_relink hplan hlocates'
    exact Touch.within_alternation_of_relink hlocates hfind hlinks hdetached

/-- A statement touches only its own paths. A parameter that it does not name is unchanged. A declaration
sets the status at the end of its path, creates one node for each member that is missing, and leaves all
else: the other statuses, and the types, links, attachments and entries of all nodes that were there. An
alternation does no more than that for its two paths, but that it may link the end of the first path,
detach the end of the second with its one entry, and set the status of a detached node that the end of
the first is linked to already. -/
theorem frame_of_analyzeStatement (h : Reachable parameters)
    (hok : analyzeStatement model store statement parameters = .ok () after) :
    (∀ owner : Nat, (∀ path ∈ named store statement, position? parameters path.parameter ≠ some owner) →
        after[owner]? = parameters[owner]?) ∧
    (∀ status documented, statementAt store statement = .ok (.declaration status documented) →
      ∃ path, pathAt store documented = .ok path ∧
        Frame (.declaration parameters after path) status parameters after ∧
        Records status path parameters after) ∧
    ∀ span status first second,
      statementAt store statement = .ok (.alternation span status first second) →
      ∃ primary secondary, pathAt store first = .ok primary ∧ pathAt store second = .ok secondary ∧
        Frame (.alternation parameters after primary secondary) status parameters after := by
  refine ⟨fun owner hother => ?_, fun status documented hstatement =>
    frame_of_declaration h hstatement hok, fun span status first second hstatement =>
    frame_of_alternation h hstatement hok⟩
  obtain ⟨change, hplan⟩ := plan_of_analyzeStatement hok
  obtain ⟨status, documented, _, hstatement, -⟩ | ⟨_, status, first, second, hstatement, -⟩ :=
    planStatement_cases hplan
  · obtain ⟨path, hread, hframe, -⟩ := frame_of_declaration h hstatement hok
    refine hframe.getElem?_eq (Touch.spares_declaration (hother path ?_))
    simp [named, hstatement, hread, Except.toOption]
  · obtain ⟨primary, secondary, hread, hread', hframe⟩ := frame_of_alternation h hstatement hok
    refine hframe.getElem?_eq (Touch.spares_alternation (hother primary ?_) (hother secondary ?_)) <;>
      simp [named, hstatement, hread, hread', Except.toOption]

/-- After a declaration of `b`, the alternation of `a` and `b` detaches the node of `b` and creates one
for `a`. -/
theorem frame_of_analyzeStatement_sample :
    let before := stateAfter Sample.model ⟨Sample.store, [⟨4⟩]⟩ Sample.parameters
    let after := stateAfter Sample.model ⟨Sample.store, [⟨5⟩]⟩ before
    Reachable before ∧ analyzeStatement Sample.model Sample.store ⟨5⟩ before = .ok () after ∧
      Place.attached? before ⟨0, ⟨0⟩⟩ = some true ∧ Place.attached? after ⟨0, ⟨0⟩⟩ = some false ∧
      Frame (.alternation before after ⟨⟨7⟩, [⟨5⟩]⟩ ⟨⟨7⟩, [⟨6⟩]⟩) .mandatory before after := by
  intro before after
  have hreach : Reachable before := (Reachable.start Sample.nothing_recorded).analysis _ _
  have hhalt : halt? Sample.model ⟨Sample.store, [⟨5⟩]⟩ before = none := by decide +kernel
  have hok : analyzeStatement Sample.model Sample.store ⟨5⟩ before = .ok () after := by
    rw [← analyze_singleton, analyze_of_halt?_none hhalt]
  have hstatement : statementAt Sample.store ⟨5⟩ =
      .ok (.alternation ⟨0, 0⟩ .mandatory ⟨1⟩ ⟨2⟩) := by decide +kernel
  obtain ⟨-, -, halternation⟩ := frame_of_analyzeStatement hreach hok
  obtain ⟨primary, secondary, hprimary, hsecondary, hframe⟩ := halternation _ _ _ _ hstatement
  have hfirst : pathAt Sample.store ⟨1⟩ = .ok ⟨⟨7⟩, [⟨5⟩]⟩ := by decide +kernel
  have hsecond : pathAt Sample.store ⟨2⟩ = .ok ⟨⟨7⟩, [⟨6⟩]⟩ := by decide +kernel
  obtain rfl := Except.ok.inj (hfirst.symm.trans hprimary)
  obtain rfl := Except.ok.inj (hsecond.symm.trans hsecondary)
  exact ⟨hreach, hok, by decide +kernel, by decide +kernel, hframe⟩

end

end InputDetail.Analysis
