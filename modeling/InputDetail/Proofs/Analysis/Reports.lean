import InputDetail.Proofs.Analysis.Diagnosis
import InputDetail.Proofs.Analysis.OrderIndependence
import InputDetail.Proofs.Analysis.Safety
import InputDetail.Proofs.Analysis.Spelling
import InputDetail.Proofs.Document.Vocabulary

/-!
# Reports

Whoever documents a method is told about the result: by the outline of the parameters, and by a
diagnostic if the documentation is refused. A failure mentions names of the documentation, which the
parser has interned, and names of parameters; so neither report ever lacks a name.
-/
namespace InputDetail.Analysis

variable {types : TypeTable} {names : NameTable} {model : Model} {store : ExprStore}
  {parameters : List Parameter} {id : ExprId}

/-- If the check refuses the documentation, then for a reason that mentions known names only. -/
def Nameable (names : NameTable) {α : Type} (check : Except Halt α) : Prop :=
  ∀ error, check = .error (.refused error) → ∀ name ∈ error.mentioned, (names.text? name).isSome

theorem nameable_ok {α : Type} (a : α) : Nameable names (.ok a) := by
  intro error h
  cases h

theorem nameable_refuse {α : Type} {error : AnalysisError}
    (h : ∀ name ∈ error.mentioned, (names.text? name).isSome) :
    Nameable names (refuse (α := α) error) := by
  intro error' h'
  cases h'
  exact h

theorem nameable_unsupported {α : Type} (span : Span) (cause : Unsupported) :
    Nameable names (unsupported (α := α) span cause) := nameable_refuse (List.forall_mem_nil _)

theorem nameable_bind {α β : Type} {check : Except Halt α} {next : α → Except Halt β}
    (h : Nameable names check) (hnext : ∀ a, check = .ok a → Nameable names (next a)) :
    Nameable names (check >>= next) := by
  cases hcheck : check with
  | error halt =>
    intro error herror
    cases herror
    exact h error hcheck
  | ok a => exact hnext a hcheck

theorem nameable_exprAt (store : ExprStore) (id : ExprId) : Nameable names (exprAt store id) := by
  unfold exprAt
  split
  · exact nameable_ok _
  · exact nofun

theorem nameable_argsAt (store : ExprStore) (range : ArgRange) :
    Nameable names (argsAt store range) := by
  unfold argsAt
  split
  · exact nameable_ok _
  · exact nofun

theorem nameable_pathWithin (store : ExprStore) (fuel : Nat) (id : ExprId) :
    Nameable names (pathWithin store fuel id) := by
  induction fuel generalizing id with
  | zero => exact nofun
  | succ fuel ih =>
    unfold pathWithin
    refine nameable_bind (nameable_exprAt store id) fun expr _ => ?_
    split
    · split
      · split
        · exact nameable_ok _
        · exact nameable_bind (ih _) fun way _ => nameable_ok _
      · exact nameable_unsupported _ _
    · refine nameable_bind (nameable_exprAt store _) fun place _ => ?_
      split
      · refine nameable_bind (nameable_exprAt store _) fun called _ => ?_
        split
        · exact ih _
        · exact nameable_unsupported _ _
      · exact nameable_refuse (List.forall_mem_nil _)
    · exact nameable_unsupported _ _

theorem nameable_markerAt (store : ExprStore) (id : ExprId) :
    Nameable names (markerAt store id) := by
  unfold markerAt
  refine nameable_bind (nameable_exprAt store id) fun expr _ => ?_
  split
  · split
    · exact nameable_ok _
    · split
      · exact nameable_unsupported _ _
      · refine nameable_bind (nameable_argsAt store _) fun ids _ => ?_
        split
        · exact nameable_ok _
        · exact nameable_unsupported _ _
  · exact nameable_ok _

theorem nameable_alternationAt (store : ExprStore) (span : Span) (receiver : Option ExprId)
    (range : ArgRange) : Nameable names (alternationAt store span receiver range) := by
  unfold alternationAt
  simp only
  split
  · exact nameable_refuse (List.forall_mem_nil _)
  · refine nameable_bind (nameable_argsAt store _) fun ids _ => ?_
    split
    · refine nameable_bind (nameable_markerAt store _) fun first _ => ?_
      refine nameable_bind (nameable_markerAt store _) fun second _ => ?_
      split
      · split
        · exact nameable_ok _
        · exact nameable_refuse (List.forall_mem_nil _)
      · exact nameable_refuse (List.forall_mem_nil _)
    · exact nameable_refuse (List.forall_mem_nil _)

theorem nameable_statementAt (store : ExprStore) (id : ExprId) :
    Nameable names (statementAt store id) := by
  have hdeclaration : Nameable names (declarationAt store id) := by
    unfold declarationAt
    refine nameable_bind (nameable_markerAt store id) fun marked _ => ?_
    split <;> exact nameable_ok _
  unfold statementAt
  refine nameable_bind (nameable_exprAt store id) fun expr _ => ?_
  split
  · split
    · exact nameable_alternationAt store _ _ _
    · exact hdeclaration
  · exact hdeclaration

/-- All names of a path are names of calls. -/
theorem Chain.named (hstore : store.Named names) {path : Path} (h : Chain store id path) :
    ∀ name ∈ path.parameter :: path.members, (names.text? name).isSome := by
  induction h with
  | parameter expr _ => exact List.forall_mem_singleton.2 (hstore expr)
  | member expr _ _ ih =>
    rw [Path.child, ← List.cons_append]
    exact List.forall_mem_append.2 ⟨ih, List.forall_mem_singleton.2 (hstore expr)⟩
  | element _ _ _ _ _ ih => exact ih

/-- A path that does not resolve fails at one of its members, and the cause mentions no other. -/
theorem resolveMembers_error {forest : Forest} {position : Option (Option NodeId)} {current : TypeId}
    {name : Name} {rest failing : List Name} {cause : MemberError}
    (h : resolveMembers types forest position current name rest = .error (failing, cause)) :
    failing <+: name :: rest ∧ ∀ other ∈ cause.mentioned, other ∈ failing := by
  have hmember : ∀ {node : Option NodeId} {current : TypeId} {name : Name} {cause : MemberError},
      memberType types forest node current name = .error cause →
      ∀ other ∈ cause.mentioned, other ∈ [name] := by
    intro node current name cause htype other hmem
    unfold memberType at htype
    split at htype
    · cases htype
    · exact List.mem_singleton.2 (TypeTable.eq_of_mem_mentioned htype other hmem)
  induction rest generalizing position current name failing with
  | nil =>
    rw [resolveMembers_nil] at h
    split at h
    · next htype =>
      cases h
      exact ⟨List.prefix_refl _, hmember htype⟩
    · cases h
  | cons next rest ih =>
    rw [resolveMembers_cons] at h
    split at h
    · next htype =>
      cases h
      exact ⟨⟨next :: rest, rfl⟩, hmember htype⟩
    · split at h
      · next hrest =>
        cases h
        obtain ⟨hwithin, hcause⟩ := ih hrest
        exact ⟨List.cons_prefix_cons.2 ⟨rfl, hwithin⟩,
          fun other hmem => List.mem_cons_of_mem _ (hcause other hmem)⟩
      · cases h

theorem nameable_planPath (hstore : store.Named names) (status : Status) (id : ExprId) :
    Nameable names (planPath model store parameters status id) := by
  unfold planPath
  refine nameable_bind (nameable_exprAt store id) fun expr _ => ?_
  refine nameable_bind (nameable_pathWithin store _ id) fun path hpath => ?_
  have hknown := Chain.named hstore (pathAt_eq_ok_iff.1 hpath)
  have hparameter : ∀ name ∈ [path.parameter], (names.text? name).isSome :=
    List.forall_mem_singleton.2 (hknown _ List.mem_cons_self)
  split
  · split
    · split
      · exact nameable_ok _
      · exact nameable_refuse hparameter
    · next hmembers =>
      split
      · next failing cause hresolve =>
        obtain ⟨hwithin, hcause⟩ := resolveMembers_error hresolve
        have hfailing : ∀ name ∈ failing, (names.text? name).isSome := fun name hmem =>
          hknown name (List.mem_cons_of_mem _ (hmembers ▸ hwithin.subset hmem))
        exact nameable_refuse (List.forall_mem_append.2 ⟨List.forall_mem_cons.2
          ⟨hknown _ List.mem_cons_self, hfailing⟩, fun name hmem => hfailing name (hcause name hmem)⟩)
      · simp only
        split
        · exact nameable_refuse hknown
        · exact nameable_ok _
  · exact nameable_refuse hparameter

theorem nameable_planStatement (hstore : store.Named names) (id : ExprId) :
    Nameable names (planStatement model store parameters id) := by
  unfold planStatement
  refine nameable_bind (nameable_statementAt store id) fun statement _ => ?_
  split
  · refine nameable_bind (nameable_planPath hstore _ _) fun plan _ => ?_
    split <;> exact nameable_ok _
  · unfold planAlternation
    refine nameable_bind (nameable_planPath hstore _ _) fun primary _ => ?_
    refine nameable_bind (nameable_planPath hstore _ _) fun secondary _ => ?_
    split
    · split
      · exact nameable_refuse (List.forall_mem_nil _)
      · split <;> exact nameable_ok _
    · exact nameable_refuse (List.forall_mem_nil _)

/-- A document that is sound and has known names is refused for a defect that mentions known names. -/
theorem refused_of_analyze (hbuilt : Built parameters) {document : Document}
    (hsound : document.store.Sound) (hstore : document.store.Named names)
    (hroots : ∀ root ∈ document.roots, (document.store.get? root).isSome) {halt : Halt}
    {left : List Parameter} (h : analyze model document parameters = .error halt left) :
    ∃ error, halt = .refused error ∧ (∀ cause, error ≠ .internal cause) ∧
      ∀ name ∈ error.mentioned, (names.text? name).isSome := by
  obtain ⟨k, root, hroot, -, hplan⟩ := plan_of_error hbuilt h
  obtain ⟨error, rfl, hdefect⟩ :=
    checked_planStatement hsound (hroots root (List.mem_of_getElem? hroot)) halt hplan
  exact ⟨error, rfl, hdefect, nameable_planStatement hstore root error hplan⟩

theorem ReachableWith.parse (h : ReachableWith names parameters) (source : String) :
    ReachableWith (Document.parse source names).2 parameters := by
  have hall : ∀ (texts : List String) {names : NameTable}, ReachableWith names parameters →
      ReachableWith (Document.internAll names texts) parameters := by
    intro texts
    induction texts with
    | nil => exact id
    | cons text texts ih => exact fun hreach => ih (hreach.interning _)
  exact hall _ h

/-- A text that is no block changes no parameter, and a block is analyzed as the document that it is
parsed to. -/
theorem analyzeText_cases (model : Model) (source : String) (names : NameTable)
    (parameters : List Parameter) :
    (∃ failure, (analyzeText model source names parameters).1 =
        .error (.refused (.parse failure)) parameters) ∨
      ∃ document, (Document.parse source names).1 = .ok document ∧
        (analyzeText model source names parameters).1 = analyze model document parameters := by
  have hresult : (analyzeText model source names parameters).1 =
      analyzeParsed model (Document.parse source names).1 parameters := rfl
  rw [hresult]
  cases (Document.parse source names).1 with
  | error failure => exact Or.inl ⟨failure, rfl⟩
  | ok document => exact Or.inr ⟨document, rfl, rfl⟩

/-- An analysis of a text leaves a state that is reached with the names that it leaves. -/
theorem ReachableWith.analyzeText (h : ReachableWith names parameters)
    (hnamed : model.types.Named names) {source : String} {left : List Parameter}
    (hleft : (analyzeText model source names parameters).1 = .ok () left ∨
      ∃ halt, (analyzeText model source names parameters).1 = .error halt left) :
    ReachableWith (Analysis.analyzeText model source names parameters).2 left := by
  have hparse : ReachableWith (Document.parse source names).2 parameters := h.parse source
  have hlater : model.types.Named (Document.parse source names).2 :=
    hnamed.mono fun name hname => Document.text?_parse_isSome hname source
  obtain ⟨failure, hrefused⟩ | ⟨document, -, hanalyze⟩ :=
    analyzeText_cases model source names parameters
  · rw [hrefused] at hleft
    obtain hok | ⟨halt, herror⟩ := hleft
    · cases hok
    · cases herror
      exact hparse
  · have hafter : stateAfter model document parameters = left := by
      rw [hanalyze] at hleft
      obtain hok | ⟨halt, herror⟩ := hleft
      · rw [stateAfter, hok]
      · rw [stateAfter, herror]
    exact hafter ▸ hparse.analysis hlater document

/-- Whatever was analyzed before, and whatever the text: its analysis leaves parameters that have an
outline. If it fails, then because the text is no block or the documentation is at fault, and the failure
has a diagnostic with its code, at its place. No list may contain itself, which holds if all lists were
made of types that were there (`TypeTable.Grounded.acyclic`). -/
theorem reports_of_analyzeText (h : ReachableWith names parameters) (hlists : model.types.Acyclic)
    (hnamed : model.types.Named names) (source : String) :
    let later := (analyzeText model source names parameters).2
    (∀ after, (analyzeText model source names parameters).1 = .ok () after →
        (Outline.render model.types later after).isSome) ∧
      ∀ halt left, (analyzeText model source names parameters).1 = .error halt left →
        (Outline.render model.types later left).isSome ∧
          ∃ error diagnostic, halt = .refused error ∧ (∀ cause, error ≠ .internal cause) ∧
            error.diagnostic? model.types later = some diagnostic ∧
            diagnostic.code = error.code ∧ diagnostic.primarySpan = error.span? := by
  intro later
  have hlater : model.types.Named later :=
    hnamed.mono fun name hname => Document.text?_parse_isSome hname source
  have houtline : ∀ {left}, ReachableWith later left →
      (Outline.render model.types later left).isSome :=
    fun hreach => hreach.spelled.render_isSome hreach.built.wellFormed hlists hlater
  constructor
  · exact fun after hok => houtline (h.analyzeText hnamed (Or.inl hok))
  · intro halt left herror
    refine ⟨houtline (h.analyzeText hnamed (Or.inr ⟨halt, herror⟩)), ?_⟩
    obtain ⟨error, rfl, hdefect, hknown⟩ : ∃ error, halt = .refused error ∧
        (∀ cause, error ≠ .internal cause) ∧
          ∀ name ∈ error.mentioned, (later.text? name).isSome := by
      obtain ⟨failure, hrefused⟩ | ⟨document, hparse, hanalyze⟩ :=
        analyzeText_cases model source names parameters
      · rw [hrefused] at herror
        cases herror
        exact ⟨.parse failure, rfl, nofun, List.forall_mem_nil _⟩
      · obtain ⟨hstore, hsound, hroots⟩ := Document.parse_spec hparse
        exact refused_of_analyze h.built hsound hstore hroots (hanalyze ▸ herror)
    obtain ⟨diagnostic, hdiagnostic⟩ :=
      Option.isSome_iff_exists.1 (AnalysisError.diagnostic?_isSome hlists hlater hknown)
    exact ⟨error, diagnostic, rfl, hdefect, hdiagnostic,
      AnalysisError.code_of_diagnostic? hdiagnostic⟩

/-- The code and the place of a failure, if the documentation is refused. -/
def Sample.failure? : EStateM.Result Halt (List Parameter) Unit → Option (ErrorCode × Option Span)
  | .error (.refused error) _ => some (error.code, error.span?)
  | _ => none

/-- The member `a` is recorded, and then a member is refused that `a` does not have. Its name is new. -/
theorem reports_of_analyzeText_sample :
    let source := "mandatory(p().a()) p().a().c()"
    let result := analyzeText Sample.model source Sample.names Sample.parameters
    ReachableWith Sample.names Sample.parameters ∧ Sample.model.types.Acyclic ∧
      Sample.model.types.Named Sample.names ∧ ∃ left error diagnostic,
        result.1 = .error (.refused error) left ∧
        (Outline.render Sample.model.types result.2 left).isSome ∧
        error.diagnostic? Sample.model.types result.2 = some diagnostic ∧
        diagnostic.code = .E2002 ∧ diagnostic.primarySpan = some ⟨19, 30⟩ := by
  intro source result
  have hreach : ReachableWith Sample.names Sample.parameters :=
    .start Sample.nothing_recorded (by decide)
  have hlists := Sample.grounded_types.acyclic
  have hfailure : Sample.failure? result.1 = some (.E2002, some ⟨19, 30⟩) := by decide +kernel
  cases hresult : result.1 with
  | ok _ after =>
    rw [hresult] at hfailure
    cases hfailure
  | error halt left =>
    obtain ⟨houtline, error, diagnostic, rfl, -, hdiagnostic, hsame, hspan⟩ :=
      (reports_of_analyzeText hreach hlists Sample.named_types source).2 halt left hresult
    rw [hresult, Sample.failure?, Option.some.injEq, Prod.mk.injEq] at hfailure
    exact ⟨hreach, hlists, Sample.named_types, left, error, diagnostic, rfl, houtline, hdiagnostic,
      hsame.trans hfailure.1, hspan.trans hfailure.2⟩

end InputDetail.Analysis
