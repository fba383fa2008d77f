import InputDetail.Proofs.Analysis.Idempotence
import InputDetail.Proofs.Analysis.Reports

/-!
# Planning does not depend on what was recorded

Planning a path takes over the types of the nodes that are there, and resolves members only where the
nodes end. A forest grows and loses nodes, but its nodes always have the types that resolving gives. So
a path is planned as if nothing had been recorded, and a path that does not resolve fails at the first
member that its type has not. Only a status that is there already can make a difference.
-/
namespace InputDetail

/-- `path` is the shortest beginning of `members` that does not resolve below a value of type `current`,
for the reason `cause`. -/
structure TypeTable.Mismatch (types : TypeTable) (current : TypeId) (members path : List Name)
    (cause : MemberError) : Prop where
  beginning : path <+: members
  fails : path.foldlM types.resolve current = .error cause
  shortest : ∀ shorter, shorter <+: members → shorter.length < path.length →
    ∃ type, shorter.foldlM types.resolve current = .ok type

namespace TypeTable

variable {types : TypeTable} {current type : TypeId} {name : Name} {rest members path : List Name}
  {cause : MemberError}

theorem foldlM_resolve_cons (types : TypeTable) (current : TypeId) (name : Name) (rest : List Name) :
    (name :: rest).foldlM types.resolve current =
      (types.resolve current name).bind (rest.foldlM types.resolve ·) := List.foldlM_cons

theorem Mismatch.ne_nil (h : types.Mismatch current members path cause) : path ≠ [] := by
  rintro rfl
  have hfails := h.fails
  simp [pure, Except.pure] at hfails

/-- The first member does not resolve, or the path fails further down. -/
theorem mismatch_cons_iff : types.Mismatch current (name :: rest) path cause ↔
    (types.resolve current name = .error cause ∧ path = [name]) ∨
      ∃ type below, types.resolve current name = .ok type ∧ path = name :: below ∧
        types.Mismatch type rest below cause := by
  constructor
  · intro h
    obtain ⟨first, below, rfl⟩ := List.exists_cons_of_ne_nil h.ne_nil
    obtain ⟨rfl, hbelow⟩ := List.cons_prefix_cons.1 h.beginning
    have hfails := h.fails
    rw [foldlM_resolve_cons] at hfails
    cases hresolve : types.resolve current first with
    | error e =>
      left
      rw [hresolve] at hfails
      refine ⟨by simpa [Except.bind] using hfails, ?_⟩
      cases below with
      | nil => rfl
      | cons next below =>
        obtain ⟨type, htype⟩ := h.shortest [first] ⟨rest, rfl⟩ (by simp)
        simp [hresolve, bind, Except.bind] at htype
    | ok type =>
      rw [hresolve] at hfails
      refine Or.inr ⟨type, below, rfl, rfl, hbelow, hfails, fun shorter hshorter hlt => ?_⟩
      obtain ⟨reached, hreached⟩ := h.shortest (first :: shorter)
        (List.cons_prefix_cons.2 ⟨rfl, hshorter⟩) (by simpa using hlt)
      rw [foldlM_resolve_cons, hresolve] at hreached
      exact ⟨reached, hreached⟩
  · rintro (⟨hresolve, rfl⟩ | ⟨type, below, hresolve, rfl, hbelow⟩)
    · refine ⟨⟨rest, rfl⟩, by rw [foldlM_resolve_cons, hresolve]; rfl, fun shorter _ hlt => ?_⟩
      have hnil : shorter = [] := by simpa using hlt
      exact ⟨current, by rw [hnil]; rfl⟩
    · refine ⟨List.cons_prefix_cons.2 ⟨rfl, hbelow.beginning⟩, ?_, fun shorter hshorter hlt => ?_⟩
      · rw [foldlM_resolve_cons, hresolve]
        exact hbelow.fails
      · cases shorter with
        | nil => exact ⟨current, rfl⟩
        | cons first shorter =>
          obtain ⟨rfl, hrest⟩ := List.cons_prefix_cons.1 hshorter
          rw [foldlM_resolve_cons, hresolve]
          exact hbelow.shortest shorter hrest (by simpa using hlt)

/-- What resolves has no beginning that does not. -/
theorem Mismatch.not_resolves (h : types.Mismatch current members path cause) :
    members.foldlM types.resolve current ≠ .ok type := by
  obtain ⟨rest, rfl⟩ := h.beginning
  rw [List.foldlM_append, h.fails]
  simp [bind, Except.bind]

end TypeTable

namespace Analysis

open Parameter

variable {model : Model} {store : ExprStore} {parameters : List Parameter} {status : Status}
  {id : ExprId} {span : Span} {path : Path} {owner : Nat} {parameter : Parameter} {name : Name}
  {rest : List Name}

/-- Without nodes all members are resolved, and the first that does not resolve ends the planning. -/
theorem resolveMembers_error_iff {types : TypeTable} {position : Option (Option NodeId)}
    {current : TypeId} {failing : List Name} {cause : MemberError} :
    resolveMembers types .empty position current name rest = .error (failing, cause) ↔
      types.Mismatch current (name :: rest) failing cause := by
  have hnode : ∀ (position : Option (Option NodeId)) (name : Name),
      position.bind (Forest.empty.child? · name) = none := by
    intro position name
    cases position <;> rfl
  have hlast : ∀ {type failing}, ¬ types.Mismatch type [] failing cause :=
    fun h => h.ne_nil (List.prefix_nil.1 h.beginning)
  induction rest generalizing position current name failing with
  | nil =>
    rw [TypeTable.mismatch_cons_iff, resolveMembers_nil, hnode, memberType, Option.bind_none,
      Option.bind_none]
    cases types.resolve current name with
    | error e => simp [and_comm, eq_comm]
    | ok type => simp [hlast]
  | cons next rest ih =>
    rw [TypeTable.mismatch_cons_iff, resolveMembers_cons, hnode, memberType, Option.bind_none,
      Option.bind_none]
    cases types.resolve current name with
    | error e => simp [and_comm, eq_comm]
    | ok type =>
      simp only [Except.ok.injEq, reduceCtorEq, false_and, false_or]
      constructor
      · intro h
        split at h
        · next below e hbelow =>
          cases h
          exact ⟨type, below, rfl, rfl, ih.1 hbelow⟩
        · cases h
      · rintro ⟨_, below, rfl, rfl, hbelow⟩
        simp only [ih.2 hbelow]

/-- The expression stands at the span, and spells a path of the parameter at position `owner`. -/
structure Spells (store : ExprStore) (parameters : List Parameter) (id : ExprId) (span : Span)
    (path : Path) (owner : Nat) (parameter : Parameter) : Prop where
  stands : ∃ expr, exprAt store id = .ok expr ∧ expr.span = span
  spelled : pathAt store id = .ok path
  located : locate? parameters path.parameter = some (owner, parameter)

/-- How a member path is planned. -/
theorem Spells.planPath_eq (h : Spells store parameters id span path owner parameter)
    (hmembers : path.members = name :: rest) : planPath model store parameters status id =
      match resolveMembers model.types parameter.forest (some none) parameter.type name rest with
      | .error (failing, cause) => refuse (.structuralMismatch path.parameter failing cause span)
      | .ok (first, later) =>
        if model.policy = .reject ∧ (statusAt parameter.forest path.members).any (· ≠ status) then
          refuse (.conflictingStatus path.parameter path.members span)
        else .ok (.members ⟨owner, first, later, status⟩) := by
  obtain ⟨expr, hexpr, rfl⟩ := h.stands
  rcases hresolve : resolveMembers model.types parameter.forest (some none) parameter.type name rest
    with ⟨failing, cause⟩ | ⟨first, later⟩
  all_goals
    simp only [planPath, hexpr, h.spelled, h.located, hmembers, hresolve, bind, Except.bind, pure,
      Except.pure]

/-- The path was read, and one of its members is refused. -/
def OfMember : AnalysisError → Prop
  | .structuralMismatch _ _ _ _ => True
  | .conflictingStatus _ _ _ => True
  | _ => False

/-- An expression that spells no path is refused without mention of a name. -/
theorem mentioned_of_pathAt {error : AnalysisError} (h : pathAt store id = .error (.refused error)) :
    error.mentioned = [] := by
  rw [List.eq_nil_iff_forall_not_mem]
  intro name hmem
  have hnameable : Nameable ⟨#[]⟩ (pathAt store id) := nameable_pathWithin store _ id
  have hknown := hnameable error h name hmem
  simp [NameTable.text?] at hknown

/-- A member that is refused belongs to a path of a parameter. -/
theorem exists_spells {error : AnalysisError}
    (h : planPath model store parameters status id = refuse error) (hmember : OfMember error) :
    ∃ span path owner parameter name rest, Spells store parameters id span path owner parameter ∧
      path.members = name :: rest := by
  have hmentioned : error.mentioned ≠ [] := by
    cases error <;> simp_all [OfMember, AnalysisError.mentioned]
  unfold planPath at h
  cases hexpr : exprAt store id with
  | error halt =>
    rw [exprAt] at hexpr
    split at hexpr <;> cases hexpr
    simp [exprAt, *, bind, Except.bind, refuse] at h
  | ok expr =>
  cases hpath : pathAt store id with
  | error halt =>
    simp only [hexpr, hpath, bind, Except.bind, refuse, Except.error.injEq] at h
    exact absurd (mentioned_of_pathAt (h ▸ hpath)) hmentioned
  | ok path =>
  simp only [hexpr, hpath, bind, Except.bind] at h
  cases hlocate : locate? parameters path.parameter with
  | none =>
    simp only [hlocate, refuse, Except.error.injEq, Halt.refused.injEq] at h
    exact (h ▸ hmember).elim
  | some located =>
  obtain ⟨owner, parameter⟩ := located
  cases hmembers : path.members with
  | nil =>
    simp only [hlocate, hmembers] at h
    split at h
    · cases h
    · simp only [refuse, Except.error.injEq, Halt.refused.injEq] at h
      exact (h ▸ hmember).elim
  | cons name rest =>
    exact ⟨expr.span, path, owner, parameter, name, rest, ⟨⟨expr, hexpr, rfl⟩, hpath, hlocate⟩,
      hmembers⟩

section

variable (h : Evolved model.types parameters)
include h

theorem Evolved.typed_blank : Typed model.types (parameters.map blank) parameters :=
  h.nodesTyped.typed_blank h.reachable.built.wellFormed

omit h in
theorem forest_of_mem_blank : ∀ parameter ∈ parameters.map blank, parameter.forest = .empty := by
  simp [blank]

/-- Members resolve as they do without nodes. -/
theorem Evolved.resolveMembers_eq (hparam : parameters[owner]? = some parameter) :
    resolveMembers model.types parameter.forest (some none) parameter.type name rest =
      resolveMembers model.types .empty (some none) parameter.type name rest := by
  have hblank : (parameters.map blank)[owner]? = some (blank parameter) := by
    rw [List.getElem?_map, hparam, Option.map_some]
  exact h.typed_blank.resolveMembers_eq hparam hblank name rest

/-- A path that leads to a node resolves. -/
theorem Evolved.resolves_of_find? (hparam : parameters[owner]? = some parameter)
    {members : List Name} {node : NodeId} (hfind : parameter.forest.find? members = some node) :
    ∃ type, members.foldlM model.types.resolve parameter.type = .ok type := by
  obtain ⟨held, hheld, -⟩ := Forest.node?_of_find? hfind
  obtain ⟨type, -, hstatic⟩ := (h.nodesTyped.typed h.reachable.built.wellFormed).node
    (by rw [found?_eq hparam, hfind]) (by rw [nodeAt?_eq hparam, hheld])
  rw [staticType, hparam, Option.bind_some, TypeTable.along_eq_some_iff] at hstatic
  exact ⟨type, hstatic⟩

/-- A path that resolves and ends at a node of the other status is refused, if the policy is to. -/
theorem Evolved.planPath_of_conflict (hspells : Spells store parameters id span path owner parameter)
    (hpolicy : model.policy = .reject) {other : Status}
    (hstatus : statusAt parameter.forest path.members = some other) (hother : other ≠ status) :
    planPath model store parameters status id =
      refuse (.conflictingStatus path.parameter path.members span) := by
  obtain ⟨hparam, -⟩ := getElem?_of_locate? hspells.located
  obtain ⟨held, hheld, -⟩ := Option.bind_eq_some_iff.1 hstatus
  obtain ⟨node, hfind, -⟩ := Option.bind_eq_some_iff.1 hheld
  obtain ⟨name, rest, hmembers⟩ := List.exists_cons_of_ne_nil (Forest.ne_nil_of_find? hfind)
  rw [hspells.planPath_eq hmembers, h.resolveMembers_eq hparam]
  cases hresolve : resolveMembers model.types .empty (some none) parameter.type name rest with
  | error failure =>
    obtain ⟨type, hresolves⟩ := h.resolves_of_find? hparam hfind
    rw [hmembers] at hresolves
    exact absurd hresolves (resolveMembers_error_iff.1 hresolve).not_resolves
  | ok members =>
    simp only
    rw [if_pos ⟨hpolicy, by simp [hstatus, hother]⟩]

/-- A path is planned as if nothing was recorded, or refused for its status. -/
theorem Evolved.planPath_eq_or_conflict :
    planPath model store parameters status id = planPath model store (parameters.map blank) status id ∨
      ∃ name path span, planPath model store parameters status id =
        refuse (.conflictingStatus name path span) := by
  obtain ⟨types, policy⟩ := model
  have htyped : Typed (Model.mk types .lastWins).types (parameters.map blank) parameters :=
    h.typed_blank
  have hlast : planPath ⟨types, .lastWins⟩ store parameters status id =
      planPath ⟨types, .lastWins⟩ store (parameters.map blank) status id :=
    htyped.planPath_eq forest_of_mem_blank nofun
  cases policy with
  | lastWins => exact Or.inl hlast
  | reject =>
    have hfresh : planPath ⟨types, .reject⟩ store (parameters.map blank) status id =
        planPath ⟨types, .lastWins⟩ store (parameters.map blank) status id := by
      refine planPath_reject_eq fun path _ known hknown => ?_
      simp [Path.status?_of_empty forest_of_mem_blank] at hknown
    by_cases hagree : ∀ path, pathAt store id = .ok path →
        ∀ known ∈ path.status? parameters, known = status
    · exact Or.inl ((planPath_reject_eq hagree).trans (hlast.trans hfresh.symm))
    · simp only [not_forall] at hagree
      obtain ⟨path, hpath, other, hstatus, hother⟩ := hagree
      obtain ⟨⟨owner, parameter⟩, hlocate, hstatus⟩ := Option.bind_eq_some_iff.1 hstatus
      cases hexpr : exprAt store id with
      | error halt => exact Or.inl (by simp only [planPath, hexpr, bind, Except.bind])
      | ok expr =>
        exact Or.inr ⟨_, _, _, h.planPath_of_conflict ⟨⟨expr, hexpr, rfl⟩, hpath, hlocate⟩ rfl
          hstatus hother⟩

/-- Whatever was analyzed and constructed, a path expression is planned like on the same parameters with
empty forests: with the same plan or the same error. The one exception is a conflict of statuses. It is
noticed exactly if the policy is to reject it, the path resolves, and it leads to an attached node of the
other status. A structural mismatch is noticed exactly if the path does not resolve; it names the
shortest beginning that does not, and the reason why its last member is not found. -/
theorem planPath_of_evolved (store : ExprStore) (status : Status) (id : ExprId) :
    (planPath model store parameters status id =
        planPath model store (parameters.map blank) status id ∨
      ∃ name path span, planPath model store parameters status id =
        refuse (.conflictingStatus name path span)) ∧
    (∀ name path span, planPath model store parameters status id =
        refuse (.conflictingStatus name path span) ↔
      model.policy = .reject ∧ ∃ owner parameter,
        Spells store parameters id span ⟨name, path⟩ owner parameter ∧
        (∃ type, path.foldlM model.types.resolve parameter.type = .ok type) ∧
        ∃ node held other, parameter.forest.find? path = some node ∧
          parameter.forest.node? node = some held ∧ held.attached = true ∧
          held.status = some other ∧ other ≠ status) ∧
    ∀ name path cause span, planPath model store parameters status id =
        refuse (.structuralMismatch name path cause span) ↔
      ∃ members owner parameter, Spells store parameters id span ⟨name, members⟩ owner parameter ∧
        model.types.Mismatch parameter.type members path cause := by
  refine ⟨h.planPath_eq_or_conflict, fun name path span => ⟨fun hplan => ?_, ?_⟩,
    fun name path cause span => ⟨fun hplan => ?_, ?_⟩⟩
  · obtain ⟨_, path', owner, parameter, first, rest, hspells, hmembers⟩ := exists_spells hplan trivial
    obtain ⟨hparam, -⟩ := getElem?_of_locate? hspells.located
    rw [hspells.planPath_eq hmembers] at hplan
    split at hplan
    · cases hplan
    · split at hplan
      · next hconflict =>
        cases hplan
        obtain ⟨other, hstatus, hother⟩ := (Option.any_eq_true _ _).1 hconflict.2
        obtain ⟨held, hheld, hmark⟩ := Option.bind_eq_some_iff.1 hstatus
        obtain ⟨node, hfind, hnode⟩ := Option.bind_eq_some_iff.1 hheld
        obtain ⟨held', hheld', hatt⟩ := Forest.node?_of_find? hfind
        rw [hnode, Option.some.injEq] at hheld'
        exact ⟨hconflict.1, owner, parameter, hspells, h.resolves_of_find? hparam hfind, node, held,
          other, hfind, hnode, hheld' ▸ hatt, hmark, by simpa using hother⟩
      · cases hplan
  · rintro ⟨hpolicy, owner, parameter, hspells, -, node, held, other, hfind, hnode, -, hmark, hother⟩
    refine h.planPath_of_conflict hspells hpolicy ?_ hother
    simp only [statusAt, hfind, hnode, hmark, Option.bind_some]
  · obtain ⟨_, path', owner, parameter, first, rest, hspells, hmembers⟩ := exists_spells hplan trivial
    obtain ⟨hparam, -⟩ := getElem?_of_locate? hspells.located
    rw [hspells.planPath_eq hmembers, h.resolveMembers_eq hparam] at hplan
    split at hplan
    · next failing cause' hresolve =>
      cases hplan
      exact ⟨path'.members, owner, parameter, hspells,
        hmembers ▸ resolveMembers_error_iff.1 hresolve⟩
    · split at hplan <;> cases hplan
  · rintro ⟨members, owner, parameter, hspells, hmismatch⟩
    obtain ⟨hparam, -⟩ := getElem?_of_locate? hspells.located
    obtain ⟨first, rest, rfl⟩ := List.exists_cons_of_ne_nil (l := members) (by
      rintro rfl
      exact hmismatch.ne_nil (List.prefix_nil.1 hmismatch.beginning))
    rw [hspells.planPath_eq rfl, h.resolveMembers_eq hparam, resolveMembers_error_iff.2 hmismatch]

end

/-- The alternation of `a` and `b` leaves `a` mandatory and `b` detached. To make `a` optional is a
conflict with the node of `a`, and to make `b` optional is planned as if there were no nodes. -/
theorem planPath_of_evolved_sample :
    let strict : Model := ⟨Sample.types, .reject⟩
    let parameters := stateAfter strict ⟨Sample.store, [⟨5⟩]⟩ Sample.parameters
    Evolved Sample.types parameters ∧
      (planPath strict Sample.store parameters .optional ⟨2⟩ =
        planPath strict Sample.store (parameters.map blank) .optional ⟨2⟩) ∧
      ∃ owner parameter, Spells Sample.store parameters ⟨1⟩ ⟨0, 0⟩ ⟨⟨7⟩, [⟨5⟩]⟩ owner parameter ∧
        ∃ node held other, parameter.forest.find? [⟨5⟩] = some node ∧
          parameter.forest.node? node = some held ∧ held.attached = true ∧
          held.status = some other ∧ other ≠ .optional := by
  intro strict parameters
  have hevolved : Evolved strict.types parameters :=
    (Evolved.start Sample.nothing_recorded).analysis .reject _
  obtain ⟨hsame, -, -⟩ := planPath_of_evolved hevolved Sample.store .optional ⟨2⟩
  obtain ⟨-, hconflict, -⟩ := planPath_of_evolved hevolved Sample.store .optional ⟨1⟩
  have hplanned : planPath strict Sample.store parameters .optional ⟨2⟩ =
      .ok (.members ⟨0, ⟨⟨6⟩, ⟨3⟩⟩, [], .optional⟩) := by decide +kernel
  have hrefused : planPath strict Sample.store parameters .optional ⟨1⟩ =
      refuse (.conflictingStatus ⟨7⟩ [⟨5⟩] ⟨0, 0⟩) := by decide +kernel
  obtain ⟨-, owner, parameter, hspells, -, hnode⟩ := (hconflict ⟨7⟩ [⟨5⟩] ⟨0, 0⟩).1 hrefused
  refine ⟨hevolved, hsame.resolve_right ?_, owner, parameter, hspells, hnode⟩
  rintro ⟨name, path, span, hother⟩
  rw [hplanned] at hother
  cases hother

end Analysis

end InputDetail
