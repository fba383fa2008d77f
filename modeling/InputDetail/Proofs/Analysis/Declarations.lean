import InputDetail.Proofs.Analysis.Chain
import InputDetail.Proofs.Analysis.NodeTypes

/-!
# Declarations

A statement that is no alternation declares the status of one path. Whether it is accepted follows from
its shape, the names and types of the parameters and the table of types; nothing that was recorded
before matters unless conflicting statuses are rejected.
-/
namespace InputDetail.Analysis

open Parameter

/-- What a statement says that is no alternation. -/
structure Declaration where
  status : Status
  path : Path
deriving DecidableEq

/-- The statement calls `or`. -/
def Alternates (store : ExprStore) (id : ExprId) : Prop :=
  ∃ receiver args span, store.get? id = some ⟨.call receiver .or args, span⟩

/-- A marker without a receiver around one chain, or a chain alone. A call of a marker keyword is a
marker wherever a statement is expected, so the last call of a chain alone is none. -/
inductive Shape (store : ExprStore) : ExprId → Declaration → Prop
  | marked {id name args span inner status path}
      (expr : store.get? id = some ⟨.call none name args, span⟩)
      (marker : Status.ofMarker? name = some status) (only : store.args? args = some [inner])
      (chain : Chain store inner path) : Shape store id ⟨status, path⟩
  | bare {id expr path} (known : store.get? id = some expr)
      (unmarked : ∀ receiver name args, expr.kind = .call receiver name args →
        Status.ofMarker? name = none)
      (chain : Chain store id path) : Shape store id ⟨.optional, path⟩

/-- The path names a parameter that is simple, or members of one that resolve one after the other. -/
def Resolves (types : TypeTable) (parameters : List Parameter) (path : Path) : Prop :=
  ∃ owner parameter, locate? parameters path.parameter = some (owner, parameter) ∧
    if path.members = [] then types.isSimple parameter.type = true
    else ∃ type, path.members.foldlM types.resolve parameter.type = .ok type

variable {model : Model} {store : ExprStore} {base parameters : List Parameter} {id : ExprId}
  {declaration : Declaration}

theorem markerAt_of_unmarked {expr : Expr} (hexpr : store.get? id = some expr)
    (hunmarked : ∀ receiver name args, expr.kind = .call receiver name args →
      Status.ofMarker? name = none) : markerAt store id = .ok none := by
  rw [markerAt, exprAt_eq_ok_iff.2 hexpr]
  simp only [bind, Except.bind]
  split
  · next receiver name args hkind => rw [hunmarked receiver name args hkind]; rfl
  · rfl

theorem markerAt_eq_some_iff {status : Status} {inner : ExprId} :
    markerAt store id = .ok (some (status, inner)) ↔ ∃ name args span,
      store.get? id = some ⟨.call none name args, span⟩ ∧ Status.ofMarker? name = some status ∧
        store.args? args = some [inner] := by
  rw [markerAt]
  cases hexpr : store.get? id with
  | none => simp [exprAt, hexpr, bind, Except.bind]
  | some expr =>
  obtain ⟨kind, span⟩ := expr
  rw [exprAt_eq_ok_iff.2 hexpr]
  simp only [bind, Except.bind]
  cases kind with
  | index array index => simp [pure, Except.pure]
  | field name => simp [pure, Except.pure]
  | call receiver name args =>
    cases hmarker : Status.ofMarker? name with
    | none => simp [hmarker, pure, Except.pure]
    | some status' =>
      cases receiver with
      | some receiver => simp [unsupported, refuse, hmarker]
      | none =>
        cases hargs : store.args? args with
        | none => simp [argsAt, hargs, hmarker]
        | some ids =>
          obtain _ | ⟨only, _ | ⟨further, rest⟩⟩ := ids
          · simp [argsAt, hargs, unsupported, refuse, hmarker]
          · simp [argsAt, hargs, pure, Except.pure, hmarker]
          · simp [argsAt, hargs, unsupported, refuse, hmarker]

/-- What calls no marker is read as a statement without one. -/
theorem markerAt_eq_none_iff : markerAt store id = .ok none ↔ ∃ expr, store.get? id = some expr ∧
    ∀ receiver name args, expr.kind = .call receiver name args → Status.ofMarker? name = none := by
  refine ⟨fun h => ?_, fun ⟨expr, hexpr, hunmarked⟩ => markerAt_of_unmarked hexpr hunmarked⟩
  cases hexpr : store.get? id with
  | none => simp [markerAt, exprAt, hexpr, bind, Except.bind] at h
  | some expr =>
    refine ⟨expr, rfl, fun receiver name args hkind => ?_⟩
    by_contra hmarked
    obtain ⟨status, hstatus⟩ := Option.ne_none_iff_exists'.1 hmarked
    rw [markerAt, exprAt_eq_ok_iff.2 hexpr] at h
    simp only [bind, Except.bind, hkind, hstatus] at h
    split at h
    · cases h
    · cases hargs : argsAt store args with
      | error halt => simp [hargs] at h
      | ok ids =>
        rw [hargs] at h
        obtain _ | ⟨only, _ | ⟨further, rest⟩⟩ := ids
        · cases h
        · cases h
        · cases h

/-- Statements that are no alternations are declarations. -/
theorem statementAt_of_plain (hplain : ¬ Alternates store id) :
    statementAt store id = declarationAt store id := by
  rw [statementAt]
  cases hexpr : store.get? id with
  | none => simp [exprAt, hexpr, bind, Except.bind, declarationAt, markerAt]
  | some expr =>
    obtain ⟨kind, span⟩ := expr
    rw [exprAt_eq_ok_iff.2 hexpr]
    cases kind with
    | call receiver name args =>
      have hname : name ≠ .or := by
        rintro rfl
        exact hplain ⟨receiver, args, span, hexpr⟩
      simp only [bind, Except.bind, if_neg hname]
    | index array index => rfl
    | field name => rfl

/-- The shape of a statement is what it is read as. -/
theorem shape_iff (hplain : ¬ Alternates store id) : Shape store id declaration ↔
    ∃ documented, statementAt store id = .ok (.declaration declaration.status documented) ∧
      pathAt store documented = .ok declaration.path := by
  rw [statementAt_of_plain hplain, declarationAt]
  simp only [pathAt_eq_ok_iff]
  constructor
  · rintro (⟨hexpr, hmarker, honly, hchain⟩ | ⟨hexpr, hunmarked, hchain⟩)
    · refine ⟨_, ?_, hchain⟩
      rw [markerAt_eq_some_iff.2 ⟨_, _, _, hexpr, hmarker, honly⟩]
      rfl
    · refine ⟨id, ?_, hchain⟩
      rw [markerAt_of_unmarked hexpr hunmarked]
      rfl
  · rintro ⟨documented, hstatement, hchain⟩
    cases hmarker : markerAt store id with
    | error halt => simp [hmarker, bind, Except.bind] at hstatement
    | ok marker =>
      obtain ⟨status, path⟩ := declaration
      rw [hmarker] at hstatement
      match marker with
      | some (status, inner) =>
        cases hstatement
        obtain ⟨name, args, span, hexpr, hstatus, honly⟩ := markerAt_eq_some_iff.1 hmarker
        exact .marked hexpr hstatus honly hchain
      | none =>
        cases hstatement
        obtain ⟨expr, hexpr, hunmarked⟩ := markerAt_eq_none_iff.1 hmarker
        exact .bare hexpr hunmarked hchain

/-- Members resolve below a parameter with nothing recorded if all their types follow. -/
theorem exists_resolveMembers_iff (types : TypeTable) (position : Option (Option NodeId))
    (current : TypeId) (name : Name) (rest : List Name) :
    (∃ members, resolveMembers types .empty position current name rest = .ok members) ↔
      ∃ type, types.along current (name :: rest) = some type := by
  have hmember : ∀ (position : Option (Option NodeId)) current name, memberType types .empty
      (position.bind (Forest.empty.child? · name)) current name = types.resolve current name := by
    intro position current name
    cases position <;> rfl
  induction rest generalizing position current name with
  | nil =>
    rw [resolveMembers_nil, hmember, TypeTable.along]
    cases types.resolve current name <;> simp [TypeTable.along]
  | cons next rest ih =>
    rw [resolveMembers_cons, hmember, TypeTable.along]
    cases hresolve : types.resolve current name with
    | error e => simp
    | ok type =>
      simp only
      refine Iff.trans ?_ (ih ((position.bind (Forest.empty.child? · name)).map some) type next)
      cases resolveMembers types .empty ((position.bind (Forest.empty.child? · name)).map some) type next
        rest <;> simp

/-- Where nothing is recorded and conflicts do not matter, a path is planned exactly if it resolves. -/
theorem exists_planPath_iff (hempty : ∀ parameter ∈ base, parameter.forest = .empty)
    (hpolicy : model.policy = .lastWins) (status : Status) :
    (∃ plan, planPath model store base status id = .ok plan) ↔
      ∃ path, pathAt store id = .ok path ∧ Resolves model.types base path := by
  constructor
  · rintro ⟨plan, hplan⟩
    obtain ⟨path, owner, parameter, hpath, hlocate, ⟨hmembers, hsimple, -⟩ |
      ⟨name, rest, first, later, hmembers, hresolve, -⟩⟩ := planPath_cases hplan
    · exact ⟨path, hpath, owner, parameter, hlocate, by rw [if_pos hmembers]; exact hsimple⟩
    · refine ⟨path, hpath, owner, parameter, hlocate, ?_⟩
      rw [hempty parameter (List.mem_of_getElem? (getElem?_of_locate? hlocate).1)] at hresolve
      obtain ⟨type, htype⟩ := (exists_resolveMembers_iff _ _ _ _ _).1 ⟨_, hresolve⟩
      rw [if_neg (by simp [hmembers]), hmembers]
      exact ⟨type, TypeTable.along_eq_some_iff.1 htype⟩
  · rintro ⟨path, hpath, owner, parameter, hlocate, hresolves⟩
    obtain ⟨expr, hexpr⟩ : ∃ expr, exprAt store id = .ok expr := by
      cases hexpr : exprAt store id with
      | error halt => simp [pathAt, pathWithin, hexpr, bind, Except.bind] at hpath
      | ok expr => exact ⟨expr, rfl⟩
    rw [planPath, hexpr, hpath]
    simp only [bind, Except.bind, hlocate]
    cases hmembers : path.members with
    | nil =>
      rw [if_pos hmembers] at hresolves
      exact ⟨_, if_pos hresolves⟩
    | cons name rest =>
      rw [if_neg (by simp [hmembers]), hmembers] at hresolves
      obtain ⟨type, htype⟩ := hresolves
      obtain ⟨⟨first, later⟩, hresolve⟩ := (exists_resolveMembers_iff _ (some none) _ _ _).2
        ⟨type, TypeTable.along_eq_some_iff.2 htype⟩
      rw [hempty parameter (List.mem_of_getElem? (getElem?_of_locate? hlocate).1)]
      simp only [hresolve, hpolicy, reduceCtorEq, false_and, if_false]
      exact ⟨_, rfl⟩

/-- A statement that is no alternation is planned exactly if it has a shape and its path resolves. -/
theorem exists_plan_iff (hempty : ∀ parameter ∈ base, parameter.forest = .empty)
    (hpolicy : model.policy = .lastWins) (hplain : ¬ Alternates store id) :
    (∃ change, planStatement model store base id = .ok change) ↔
      ∃ declaration, Shape store id declaration ∧ Resolves model.types base declaration.path := by
  simp only [shape_iff hplain]
  constructor
  · rintro ⟨change, hplan⟩
    obtain ⟨status, documented, plan, hstatement, hpath, -⟩ |
      ⟨span, status, first, second, hstatement, -⟩ :=
      planStatement_cases hplan
    · obtain ⟨path, hpath, hresolves⟩ := (exists_planPath_iff hempty hpolicy status).1 ⟨plan, hpath⟩
      exact ⟨⟨status, path⟩, ⟨documented, hstatement, hpath⟩, hresolves⟩
    · rw [statementAt_of_plain hplain, declarationAt] at hstatement
      cases hmarker : markerAt store id with
      | error halt => simp [hmarker, bind, Except.bind] at hstatement
      | ok marker =>
        rw [hmarker] at hstatement
        cases marker <;> cases hstatement
  · rintro ⟨declaration, ⟨documented, hstatement, hpath⟩, hresolves⟩
    obtain ⟨plan, hplan⟩ := (exists_planPath_iff hempty hpolicy declaration.status).2
      ⟨declaration.path, hpath, hresolves⟩
    rw [planStatement, hstatement]
    simp only [bind, Except.bind, hplan]
    cases plan with
    | flag owner status => exact ⟨_, rfl⟩
    | members plan => exact ⟨_, rfl⟩

/-- What was recorded before does not matter for a declaration. -/
theorem planStatement_of_plain (htyped : Typed model.types base parameters)
    (hempty : ∀ parameter ∈ base, parameter.forest = .empty) (hpolicy : model.policy = .lastWins)
    (hplain : ¬ Alternates store id) :
    planStatement model store parameters id = planStatement model store base id := by
  have hpath : ∀ status documented, planPath model store parameters status documented =
      planPath model store base status documented := by
    intro status documented
    refine htyped.planPath_eq hempty fun hreject => ?_
    rw [hpolicy] at hreject
    cases hreject
  rw [planStatement, planStatement, statementAt_of_plain hplain, declarationAt]
  cases markerAt store id with
  | error halt => rfl
  | ok marker => cases marker <;> simp only [bind, Except.bind, pure, Except.pure, hpath]

/-- A declaration sets the status of a whole parameter, or records one path. -/
theorem change_of_shape (hplain : ¬ Alternates store id) (hshape : Shape store id declaration)
    {change : Change} (hplan : planStatement model store parameters id = .ok change) :
    ∃ owner parameter, locate? parameters declaration.path.parameter = some (owner, parameter) ∧
      (declaration.path.members = [] ∧ change = .flag owner declaration.status ∨
        ∃ plan, change = .record plan ∧ plan.owner = owner ∧
          plan.path = declaration.path.members ∧ plan.status = declaration.status) := by
  obtain ⟨documented, hstatement, hpath⟩ := (shape_iff hplain).1 hshape
  obtain ⟨status, documented', plan, hstatement', hplan, rfl⟩ | ⟨_, _, _, _, hstatement', -⟩ :=
    planStatement_cases hplan
  · rw [hstatement] at hstatement'
    cases hstatement'
    obtain ⟨path, owner, parameter, hpath', hlocate, ⟨hmembers, -, rfl⟩ |
      ⟨name, rest, first, later, hmembers, hresolve, -, rfl⟩⟩ := planPath_cases hplan
    · rw [hpath] at hpath'
      cases hpath'
      exact ⟨owner, parameter, hlocate, Or.inl ⟨hmembers, rfl⟩⟩
    · rw [hpath] at hpath'
      cases hpath'
      obtain ⟨hname, hnames, -⟩ := resolveMembers_along hresolve
      exact ⟨owner, parameter, hlocate,
        Or.inr ⟨_, rfl, rfl, by rw [MemberPlan.path, hmembers, hname, hnames], rfl⟩⟩
  · rw [hstatement] at hstatement'
    cases hstatement'

end InputDetail.Analysis
