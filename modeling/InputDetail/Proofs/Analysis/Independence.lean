import InputDetail.Proofs.Analysis.Atomicity
import InputDetail.Proofs.Analysis.Links

/-!
# Independent statements

Statements are independent if they name different paths and none excludes a path on the way to a path
of the other. Their plans then touch different ends, and neither detaches what the other goes through.
-/
namespace InputDetail.Analysis

open Parameter

namespace Path

/-- A path of the same parameter that goes further down. -/
def Above (path other : Path) : Prop :=
  path.parameter = other.parameter ∧ path.members <+: other.members ∧ path ≠ other

instance (path other : Path) : Decidable (path.Above other) :=
  inferInstanceAs (Decidable (_ ∧ _ ∧ _))

/-- The plan goes down the path. -/
def Locates (parameters : List Parameter) (path : Path) (plan : MemberPlan) : Prop :=
  plan.path = path.members ∧
    ∃ parameter, locate? parameters path.parameter = some (plan.owner, parameter)

end Path

/-- The paths that a statement names. -/
def named (store : ExprStore) (id : ExprId) : List Path :=
  match statementAt store id with
  | .ok (.declaration _ path) => (pathAt store path).toOption.toList
  | .ok (.alternation _ _ first second) =>
    (pathAt store first).toOption.toList ++ (pathAt store second).toOption.toList
  | .error _ => []

/-- The path that a statement excludes. -/
def excluded? (store : ExprStore) (id : ExprId) : Option Path :=
  match statementAt store id with
  | .ok (.alternation _ _ _ second) => (pathAt store second).toOption
  | _ => none

/-- The statements have no path in common, and neither excludes a path above a path of the other. -/
structure Independent (store : ExprStore) (a b : ExprId) : Prop where
  distinct : ∀ path ∈ named store a, path ∉ named store b
  left : ∀ path ∈ excluded? store a, ∀ other ∈ named store b, ¬ path.Above other
  right : ∀ path ∈ excluded? store b, ∀ other ∈ named store a, ¬ path.Above other

namespace Change

/-- What independence of statements means for their plans. -/
structure Apart (change other : Change) : Prop where
  flags : ∀ {owner status status'}, change = .flag owner status → other ≠ .flag owner status'
  ends : ∀ plan ∈ change.recorded, ∀ plan' ∈ other.recorded, ¬ plan.EndsAt plan'.owner plan'.path
  left : ∀ secondary ∈ change.excluded?, ∀ plan ∈ other.recorded,
    ¬ secondary.Heads plan.owner plan.path
  right : ∀ secondary ∈ other.excluded?, ∀ plan ∈ change.recorded,
    ¬ secondary.Heads plan.owner plan.path

end Change

variable {model : Model} {store : ExprStore} {parameters : List Parameter} {a b : ExprId}

theorem Independent.symm (h : Independent store a b) : Independent store b a where
  distinct path hb ha := h.distinct path ha hb
  left := h.right
  right := h.left

theorem excluded?_named {path : Path} (h : path ∈ excluded? store a) : path ∈ named store a := by
  unfold excluded? at h
  unfold named
  split at h
  · next hstatement =>
    simp only [Option.mem_def] at h
    simp only [hstatement, h, Option.toList_some, List.mem_append, List.mem_singleton, or_true]
  · cases h

/-- A plan is located by one path only. -/
theorem Path.Locates.unique {path path' : Path} {plan plan' : MemberPlan}
    (h : path.Locates parameters plan) (h' : path'.Locates parameters plan')
    (howner : plan.owner = plan'.owner) (hpath : plan.path = plan'.path) : path = path' := by
  obtain ⟨hmembers, parameter, hlocate⟩ := h
  obtain ⟨hmembers', parameter', hlocate'⟩ := h'
  obtain ⟨hparam, hname⟩ := getElem?_of_locate? hlocate
  obtain ⟨hparam', hname'⟩ := getElem?_of_locate? hlocate'
  rw [howner, hparam'] at hparam
  cases hparam
  obtain ⟨name, members⟩ := path
  obtain ⟨name', members'⟩ := path'
  simp only at hmembers hmembers' hname hname'
  rw [← hname, ← hname', ← hmembers, ← hmembers', hpath]

/-- Plans are on the way to each other only if their paths are. -/
theorem Path.Locates.above {path path' : Path} {plan plan' : MemberPlan}
    (h : path.Locates parameters plan) (h' : path'.Locates parameters plan')
    (hheads : plan.Heads plan'.owner plan'.path) : path = path' ∨ path.Above path' := by
  by_cases heq : path = path'
  · exact Or.inl heq
  · obtain ⟨hmembers, parameter, hlocate⟩ := h
    obtain ⟨hmembers', parameter', hlocate'⟩ := h'
    obtain ⟨howner, hprefix⟩ := hheads
    obtain ⟨hparam, hname⟩ := getElem?_of_locate? hlocate
    obtain ⟨hparam', hname'⟩ := getElem?_of_locate? hlocate'
    rw [← howner, hparam'] at hparam
    cases hparam
    exact Or.inr ⟨by rw [← hname, ← hname'], by rwa [← hmembers, ← hmembers'], heq⟩

theorem locates_of_planPath {status : Status} {id : ExprId} {plan : MemberPlan}
    (h : planPath model store parameters status id = .ok (.members plan)) :
    ∃ path, pathAt store id = .ok path ∧ path.Locates parameters plan := by
  obtain ⟨-, -, path, parameter, hpath, hmembers, hlocate⟩ := planPath_members h
  exact ⟨path, hpath, hmembers, parameter, hlocate⟩

/-- The planned paths of a statement are paths that it names. -/
theorem locates_of_planStatement {change : Change}
    (h : planStatement model store parameters a = .ok change) :
    (∀ plan ∈ change.recorded, ∃ path ∈ named store a, path.Locates parameters plan) ∧
      (∀ plan ∈ change.excluded?, ∃ path ∈ excluded? store a, path.Locates parameters plan) ∧
      ∀ {owner status}, change = .flag owner status → ∃ path ∈ named store a,
        path.members = [] ∧ ∃ parameter, locate? parameters path.parameter = some (owner, parameter) := by
  obtain ⟨status, id, plan, hstatement, hplan, rfl⟩ | ⟨span, status, first, second, hstatement, hplan⟩ :=
    planStatement_cases h
  · cases plan with
    | flag owner status' =>
      refine ⟨by simp [Change.recorded], by simp [Change.excluded?], fun heq => ?_⟩
      cases heq
      obtain ⟨path, owner', parameter, hpath, hlocate, ⟨hmembers, -, heq⟩ | ⟨_, _, _, _, -, -, -, heq⟩⟩ :=
        planPath_cases hplan
      · cases heq
        exact ⟨path, by simp [named, hstatement, hpath, Except.toOption], hmembers, parameter, hlocate⟩
      · cases heq
    | members plan =>
      obtain ⟨path, hpath, hlocates⟩ := locates_of_planPath hplan
      refine ⟨?_, by simp [Change.excluded?], by simp⟩
      simp only [Change.recorded, List.mem_singleton, forall_eq]
      exact ⟨path, by simp [named, hstatement, hpath, Except.toOption], hlocates⟩
  · obtain ⟨primary, secondary, hprimary, hsecondary, -, hcase⟩ := planAlternation_cases hplan
    obtain ⟨path, hpath, hlocates⟩ := locates_of_planPath hprimary
    obtain ⟨path', hpath', hlocates'⟩ := locates_of_planPath hsecondary
    have hnamed : path ∈ named store a := by simp [named, hstatement, hpath, Except.toOption]
    have hnamed' : path' ∈ named store a := by simp [named, hstatement, hpath', Except.toOption]
    have hexcluded : path' ∈ excluded? store a := by
      simp [excluded?, hstatement, hpath', Except.toOption]
    obtain ⟨-, rfl⟩ | ⟨linked, -, rfl⟩ := hcase
    · refine ⟨?_, ?_, by simp⟩
      · simp only [Change.recorded, List.mem_cons, List.not_mem_nil, or_false, forall_eq_or_imp,
          forall_eq]
        exact ⟨⟨path, hnamed, hlocates⟩, path', hnamed', hlocates'⟩
      · simp only [Change.excluded?, Option.mem_def, Option.some.injEq, forall_eq']
        exact ⟨path', hexcluded, hlocates'⟩
    · refine ⟨?_, by simp [Change.excluded?], by simp⟩
      simp only [Change.recorded, List.mem_singleton, forall_eq]
      exact ⟨path, hnamed, hlocates⟩

/-- The paths with members that a statement names are the ones that its plan goes down, or repeats
the exclusion of. -/
theorem mem_named_iff {change : Change} {path : Path}
    (hplan : planStatement model store parameters a = .ok change) (hmembers : path.members ≠ []) :
    path ∈ named store a ↔
      ∃ plan, (plan ∈ change.primary? ∨ plan ∈ change.secondary?) ∧ path.Locates parameters plan := by
  obtain ⟨status, documented, plan, hstatement, hpath, rfl⟩ |
    ⟨span, status, first, second, hstatement, hboth⟩ := planStatement_cases hplan
  · simp only [named, hstatement, Option.mem_toList]
    cases plan with
    | flag owner status' =>
      obtain ⟨path', _, _, hread, -, ⟨hnil, -⟩ | ⟨_, _, _, _, -, -, -, heq⟩⟩ := planPath_cases hpath
      · simp only [hread, Except.toOption, Change.primary?, Change.secondary?]
        constructor
        · rintro ⟨⟩
          exact absurd hnil hmembers
        · rintro ⟨_, ⟨⟨⟩⟩ | ⟨⟨⟩⟩, -⟩
      · cases heq
    | members plan =>
      obtain ⟨path', hread, hlocates⟩ := locates_of_planPath hpath
      simp only [hread, Except.toOption, Option.some.injEq, Option.mem_some_iff, Change.primary?,
        Change.secondary?]
      constructor
      · rintro rfl
        exact ⟨plan, Or.inl rfl, hlocates⟩
      · rintro ⟨_, rfl | ⟨⟨⟩⟩, hlocates'⟩
        exact hlocates.unique hlocates' rfl rfl
  · obtain ⟨primary, secondary, hprimary, hsecondary, -, hcase⟩ := planAlternation_cases hboth
    obtain ⟨path', hread, hlocates⟩ := locates_of_planPath hprimary
    obtain ⟨path'', hread', hlocates'⟩ := locates_of_planPath hsecondary
    have hsides : change.primary? = some primary ∧ change.secondary? = some secondary := by
      obtain ⟨-, rfl⟩ | ⟨linked, -, rfl⟩ := hcase <;> exact ⟨rfl, rfl⟩
    simp only [named, hstatement, hread, hread', Except.toOption, Option.toList_some, hsides,
      Option.mem_some_iff, List.mem_append, List.mem_singleton]
    constructor
    · rintro (rfl | rfl)
      · exact ⟨primary, Or.inl rfl, hlocates⟩
      · exact ⟨secondary, Or.inr rfl, hlocates'⟩
    · rintro ⟨_, rfl | rfl, h⟩
      · exact Or.inl (h.unique hlocates rfl rfl)
      · exact Or.inr (h.unique hlocates' rfl rfl)

/-- Plans of independent statements are apart. -/
theorem Independent.apart (h : Independent store a b) {change other : Change}
    (ha : planStatement model store parameters a = .ok change)
    (hb : planStatement model store parameters b = .ok other) : change.Apart other := by
  obtain ⟨hrecorded, hexcluded, hflag⟩ := locates_of_planStatement ha
  obtain ⟨hrecorded', hexcluded', hflag'⟩ := locates_of_planStatement hb
  constructor
  case flags =>
    intro owner status status' heq heq'
    obtain ⟨path, hnamed, hmembers, parameter, hlocate⟩ := hflag heq
    obtain ⟨path', hnamed', hmembers', parameter', hlocate'⟩ := hflag' heq'
    obtain ⟨hparam, hname⟩ := getElem?_of_locate? hlocate
    obtain ⟨hparam', hname'⟩ := getElem?_of_locate? hlocate'
    rw [hparam'] at hparam
    cases hparam
    obtain ⟨name, members⟩ := path
    obtain ⟨name', members'⟩ := path'
    simp only at hmembers hmembers' hname hname'
    rw [← hname, hmembers] at hnamed
    rw [← hname', hmembers'] at hnamed'
    exact h.distinct _ hnamed hnamed'
  case ends =>
    intro plan hplan plan' hplan' hend
    obtain ⟨path, hnamed, hlocates⟩ := hrecorded plan hplan
    obtain ⟨path', hnamed', hlocates'⟩ := hrecorded' plan' hplan'
    obtain rfl := hlocates.unique hlocates' hend.1.symm hend.2.symm
    exact h.distinct _ hnamed hnamed'
  case left =>
    intro secondary hsecondary plan hplan hheads
    obtain ⟨path, hpath, hlocates⟩ := hexcluded secondary hsecondary
    obtain ⟨path', hnamed', hlocates'⟩ := hrecorded' plan hplan
    obtain rfl | habove := hlocates.above hlocates' hheads
    · exact h.distinct _ (excluded?_named hpath) hnamed'
    · exact h.left path hpath path' hnamed' habove
  case right =>
    intro secondary hsecondary plan hplan hheads
    obtain ⟨path, hpath, hlocates⟩ := hexcluded' secondary hsecondary
    obtain ⟨path', hnamed', hlocates'⟩ := hrecorded plan hplan
    obtain rfl | habove := hlocates.above hlocates' hheads
    · exact h.distinct _ hnamed' (excluded?_named hpath)
    · exact h.right path hpath path' hnamed' habove

end InputDetail.Analysis
