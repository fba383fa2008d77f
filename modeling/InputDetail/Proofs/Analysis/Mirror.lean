import InputDetail.Proofs.Analysis.Chain
import InputDetail.Proofs.Analysis.Reachable
import InputDetail.Proofs.Document.Mirror

/-!
# Analysis by what is said

An expression is planned by what it says, and carrying out a plan looks at no text. So expressions that
mirror each other are recorded alike, and refused for the same reasons; only the places of the reasons
differ, and they are related as the spans of the expressions are.
-/
namespace InputDetail

namespace AnalysisError

variable {error other : AnalysisError} {span : Span}

/-- The same error at another place. An internal error has no place. -/
def movedTo (span : Span) : AnalysisError → AnalysisError
  | parse failure => parse { failure with span }
  | unsupportedExpression _ cause => unsupportedExpression span cause
  | invalidCollectionIndex _ => invalidCollectionIndex span
  | malformedAlternation _ defect => malformedAlternation span defect
  | unknownParameter name _ => unknownParameter name span
  | structuralMismatch parameter path cause _ => structuralMismatch parameter path cause span
  | simpleParameterExpected parameter _ => simpleParameterExpected parameter span
  | conflictingStatus parameter path _ => conflictingStatus parameter path span
  | internal error => internal error

/-- What an error says, wherever its place is. -/
def unplaced (error : AnalysisError) : AnalysisError := error.movedTo .nowhere

theorem movedTo_unplaced (error : AnalysisError) (span : Span) :
    error.unplaced.movedTo span = error.movedTo span := by
  cases error <;> rfl

theorem movedTo_of_span? (h : error.span? = some span) : error.movedTo span = error := by
  cases error <;> cases h <;> rfl

/-- An error is known from what it says and its place. -/
theorem eq_of_unplaced (hsame : error.unplaced = other.unplaced) (hspan : error.span? = some span)
    (hspan' : other.span? = some span) : error = other :=
  calc error = error.unplaced.movedTo span := by rw [movedTo_unplaced, movedTo_of_span? hspan]
    _ = other.unplaced.movedTo span := by rw [hsame]
    _ = other := by rw [movedTo_unplaced, movedTo_of_span? hspan']

end AnalysisError

namespace Analysis

open Document

/-- The place of the offending expression. Only a refusal may have one. -/
def Halt.span? : Halt → Option Span
  | .refused error => error.span?
  | .brokenReference => none
  | .endlessChain => none

variable {model : Model} {parameters : List Parameter} {near : Span → Span → Prop}
  {store store' : ExprStore} {id id' : ExprId} {status : Status}

/-- Both checks give results that are related, or refuse for the same reason, at places that are
related. -/
inductive Parallel {α β : Type} (near : Span → Span → Prop) (related : α → β → Prop) :
    Except Halt α → Except Halt β → Prop
  | ok {a b} (h : related a b) : Parallel near related (.ok a) (.ok b)
  | refused {error error' span span'} (same : error.unplaced = error'.unplaced)
      (place : error.span? = some span) (place' : error'.span? = some span')
      (places : near span span') :
      Parallel near related (.error (.refused error)) (.error (.refused error'))

theorem Parallel.bind {α β γ δ : Type} {related : α → β → Prop} {related' : γ → δ → Prop}
    {check : Except Halt α} {check' : Except Halt β} {next : α → Except Halt γ}
    {next' : β → Except Halt δ} (h : Parallel near related check check')
    (hnext : ∀ a b, related a b → Parallel near related' (next a) (next' b)) :
    Parallel near related' (check >>= next) (check' >>= next') := by
  cases h with
  | ok h => exact hnext _ _ h
  | refused same place place' places => exact .refused same place place' places

/-- Both checks go on with the same result. -/
theorem Parallel.bind_eq {α γ δ : Type} {related : γ → δ → Prop} {check check' : Except Halt α}
    {next : α → Except Halt γ} {next' : α → Except Halt δ} (h : Parallel near Eq check check')
    (hnext : ∀ a, Parallel near related (next a) (next' a)) :
    Parallel near related (check >>= next) (check' >>= next') := by
  refine h.bind fun a b hab => ?_
  rw [hab]
  exact hnext b

theorem Parallel.ite {α β : Type} {related : α → β → Prop} {c : Prop} [Decidable c]
    {check other : Except Halt α} {check' other' : Except Halt β}
    (h : Parallel near related check check') (hother : Parallel near related other other') :
    Parallel near related (if c then check else other) (if c then check' else other') := by
  split <;> assumption

theorem parallel_unsupported {α β : Type} {related : α → β → Prop} {span span' : Span}
    (places : near span span') (cause : Unsupported) :
    Parallel near related (unsupported span cause) (unsupported span' cause) :=
  .refused rfl rfl rfl places

/-- Both checks go on with the expressions that are there. -/
theorem parallel_exprAt {α β : Type} {related : α → β → Prop} {next : Expr → Except Halt α}
    {next' : Expr → Except Halt β} {expr expr' : Expr} (hexpr : store.get? id = some expr)
    (hexpr' : store'.get? id' = some expr') (h : Parallel near related (next expr) (next' expr')) :
    Parallel near related (exprAt store id >>= next) (exprAt store' id' >>= next') := by
  rw [exprAt_eq_ok_iff.2 hexpr, exprAt_eq_ok_iff.2 hexpr']
  exact h

/-- Paths are read alike, whatever the numbers of the expressions. The stores may differ in size, so the
fuel may differ too; receivers are older, so it lasts in both. -/
theorem parallel_pathWithin (h : Mirrors near store store' id id') {fuel fuel' : Nat}
    (hfuel : id.index < fuel) (hfuel' : id'.index < fuel') :
    Parallel near Eq (pathWithin store fuel id) (pathWithin store' fuel' id') := by
  induction fuel generalizing id id' fuel' with
  | zero => cases hfuel
  | succ fuel ih =>
  cases fuel' with
  | zero => cases hfuel'
  | succ fuel' =>
  rw [pathWithin, pathWithin]
  cases h with
  | call expr expr' spans list list' parts =>
    refine parallel_exprAt expr expr' ?_
    simp only [ArgRange.isEmpty, parts.range_eq list list']
    exact .ite (.ok rfl) (parallel_unsupported spans _)
  | @access _ _ target target' _ _ _ _ _ _ _ expr expr' spans older older' called list list' parts =>
    refine parallel_exprAt expr expr' ?_
    simp only [ArgRange.isEmpty, parts.range_eq list list']
    have hway : Parallel near Eq (pathWithin store fuel target) (pathWithin store' fuel' target') :=
      ih called (by omega) (by omega)
    exact .ite (hway.bind_eq fun way => .ok rfl) (parallel_unsupported spans _)
  | @index _ _ target target' _ _ _ _ _ _ _ expr expr' spans older older' indexed bare bare'
      fieldSpans =>
    refine parallel_exprAt expr expr' (parallel_exprAt bare bare' (.ite ?_ ?_))
    case refine_2 => exact .refused rfl rfl rfl fieldSpans
    have hway : Parallel near Eq (pathWithin store fuel target) (pathWithin store' fuel' target') :=
      ih indexed (by omega) (by omega)
    cases indexed with
    | call expr expr' => exact parallel_exprAt expr expr' hway
    | access expr expr' => exact parallel_exprAt expr expr' hway
    | index expr expr' => exact parallel_exprAt expr expr' (parallel_unsupported spans _)

theorem parallel_pathAt (h : Mirrors near store store' id id') :
    Parallel near Eq (pathAt store id) (pathAt store' id') :=
  parallel_pathWithin h (Nat.lt_succ_of_lt h.lt_size.1) (Nat.lt_succ_of_lt h.lt_size.2)

/-- Both expressions are no markers, or they mark expressions that mirror each other. -/
inductive MarkedAlike (near : Span → Span → Prop) (store store' : ExprStore) :
    Option (Status × ExprId) → Option (Status × ExprId) → Prop
  | unmarked : MarkedAlike near store store' none none
  | marked {inner inner'} (status : Status) (h : Mirrors near store store' inner inner') :
      MarkedAlike near store store' (some (status, inner)) (some (status, inner'))

/-- The statements say the same about paths that mirror each other. -/
inductive StatedAlike (near : Span → Span → Prop) (store store' : ExprStore) :
    Statement → Statement → Prop
  | declaration {path path'} (status : Status) (h : Mirrors near store store' path path') :
      StatedAlike near store store' (.declaration status path) (.declaration status path')
  | alternation {first first' second second' span span'} (places : near span span') (status : Status)
      (hfirst : Mirrors near store store' first first')
      (hsecond : Mirrors near store store' second second') :
      StatedAlike near store store' (.alternation span status first second)
        (.alternation span' status first' second')

theorem parallel_argsAt {range range' : ArgRange} {ids ids' : List ExprId}
    (hlist : store.args? range = some ids) (hlist' : store'.args? range' = some ids')
    (hparts : MirrorsAll near store store' ids ids') :
    Parallel near (MirrorsAll near store store') (argsAt store range) (argsAt store' range') := by
  rw [argsAt, argsAt, hlist, hlist']
  exact .ok hparts

theorem parallel_markerAt (h : Mirrors near store store' id id') :
    Parallel near (MarkedAlike near store store') (markerAt store id) (markerAt store' id') := by
  unfold markerAt
  cases h with
  | call expr expr' spans list list' parts =>
    refine parallel_exprAt expr expr' ?_
    simp only
    split
    · exact .ok .unmarked
    · refine .ite (parallel_unsupported spans _) ((parallel_argsAt list list' parts).bind ?_)
      intro read read' hread
      cases hread with
      | nil => exact parallel_unsupported spans _
      | cons head tail =>
        cases tail with
        | nil => exact .ok (.marked _ head)
        | cons _ _ => exact parallel_unsupported spans _
  | access expr expr' spans =>
    refine parallel_exprAt expr expr' ?_
    simp only
    split
    · exact .ok .unmarked
    · exact parallel_unsupported spans _
  | index expr expr' => exact parallel_exprAt expr expr' (.ok .unmarked)

theorem parallel_alternationAt {span span' : Span} (places : near span span')
    {receiver receiver' : Option ExprId} (hreceiver : receiver'.isSome = receiver.isSome)
    {range range' : ArgRange} {ids ids' : List ExprId} (hlist : store.args? range = some ids)
    (hlist' : store'.args? range' = some ids') (hparts : MirrorsAll near store store' ids ids') :
    Parallel near (StatedAlike near store store') (alternationAt store span receiver range)
      (alternationAt store' span' receiver' range') := by
  have hlength := hparts.range_eq hlist hlist'
  unfold alternationAt
  simp only [hreceiver, hlength]
  refine .ite (.refused rfl rfl rfl places) ((parallel_argsAt hlist hlist' hparts).bind ?_)
  intro read read' hread
  cases hread with
  | nil => exact .refused rfl rfl rfl places
  | cons hfirst tail =>
  cases tail with
  | nil => exact .refused rfl rfl rfl places
  | cons hsecond tail =>
  cases tail with
  | cons _ _ => exact .refused rfl rfl rfl places
  | nil =>
    refine (parallel_markerAt hfirst).bind fun marked marked' hmarked => ?_
    refine (parallel_markerAt hsecond).bind fun other other' hother => ?_
    cases hmarked with
    | unmarked => exact .refused rfl rfl rfl places
    | marked status hprimary =>
      cases hother with
      | unmarked => exact .refused rfl rfl rfl places
      | marked status' hsecondary =>
        exact .ite (.ok (.alternation places status hprimary hsecondary)) (.refused rfl rfl rfl places)

theorem parallel_declarationAt (h : Mirrors near store store' id id') :
    Parallel near (StatedAlike near store store') (declarationAt store id)
      (declarationAt store' id') := by
  refine (parallel_markerAt h).bind fun marked marked' hmarked => ?_
  cases hmarked with
  | unmarked => exact .ok (.declaration .optional h)
  | marked status hinner => exact .ok (.declaration status hinner)

theorem parallel_statementAt (h : Mirrors near store store' id id') :
    Parallel near (StatedAlike near store store') (statementAt store id) (statementAt store' id') := by
  have hdeclaration := parallel_declarationAt h
  unfold statementAt
  cases h with
  | call expr expr' spans list list' parts =>
    refine parallel_exprAt expr expr' (.ite ?_ hdeclaration)
    exact parallel_alternationAt spans rfl list list' parts
  | access expr expr' spans older older' called list list' parts =>
    refine parallel_exprAt expr expr' (.ite ?_ hdeclaration)
    exact parallel_alternationAt spans rfl list list' parts
  | index expr expr' => exact parallel_exprAt expr expr' hdeclaration

theorem parallel_planPath (h : Mirrors near store store' id id') (status : Status) :
    Parallel near Eq (planPath model store parameters status id)
      (planPath model store' parameters status id') := by
  unfold planPath
  obtain ⟨expr, expr', hexpr, hexpr', places⟩ := h.exists_expr
  refine parallel_exprAt hexpr hexpr' ?_
  refine (parallel_pathAt h).bind_eq fun path => ?_
  split
  · split
    · exact .ite (.ok rfl) (.refused rfl rfl rfl places)
    · split
      · exact .refused rfl rfl rfl places
      · exact .ite (.refused rfl rfl rfl places) (.ok rfl)
  · exact .refused rfl rfl rfl places

theorem parallel_planAlternation {first first' second second' : ExprId}
    (hfirst : Mirrors near store store' first first')
    (hsecond : Mirrors near store store' second second') {span span' : Span}
    (places : near span span') (status : Status) :
    Parallel near Eq (planAlternation model store parameters span status first second)
      (planAlternation model store' parameters span' status first' second') := by
  unfold planAlternation
  refine (parallel_planPath hfirst status).bind_eq fun primary => ?_
  refine (parallel_planPath hsecond status).bind_eq fun secondary => ?_
  split
  · split
    · exact .refused rfl rfl rfl places
    · split <;> exact .ok rfl
  · exact .refused rfl rfl rfl places

/-- Expressions that mirror each other are planned alike. -/
theorem parallel_planStatement (h : Mirrors near store store' id id') :
    Parallel near Eq (planStatement model store parameters id)
      (planStatement model store' parameters id') := by
  refine (parallel_statementAt h).bind fun statement statement' hstated => ?_
  cases hstated with
  | declaration status hpath =>
    refine (parallel_planPath hpath status).bind_eq fun plan => ?_
    cases plan <;> exact .ok rfl
  | alternation places status hfirst hsecond =>
    exact parallel_planAlternation hfirst hsecond places status

/-- Wherever the recorder comes to a halt, the reason has no place in the text. -/
def Placeless {α : Type} (recorder : Recorder α) : Prop :=
  ∀ parameters halt left, recorder parameters = .error halt left → halt.span? = none

theorem placeless_pure {α : Type} (a : α) : Placeless (pure a) := by
  intro parameters halt left h
  cases h

theorem placeless_bind {α β : Type} {recorder : Recorder α} {next : α → Recorder β}
    (h : Placeless recorder) (hnext : ∀ a, Placeless (next a)) : Placeless (recorder >>= next) := by
  intro parameters halt left hhalt
  change EStateM.bind recorder next parameters = .error halt left at hhalt
  simp only [EStateM.bind] at hhalt
  cases hresult : recorder parameters with
  | ok a after =>
    rw [hresult] at hhalt
    exact hnext a after halt left hhalt
  | error halt' left' =>
    rw [hresult] at hhalt
    cases hhalt
    exact h parameters halt left hresult

theorem placeless_foldlM {α β : Type} {step : α → β → Recorder α}
    (h : ∀ a b, Placeless (step a b)) (bs : List β) (a : α) : Placeless (bs.foldlM step a) := by
  induction bs generalizing a with
  | nil => exact placeless_pure a
  | cons b bs ih =>
    simp only [List.foldlM_cons]
    exact placeless_bind (h a b) ih

theorem placeless_onForest {α : Type} (owner : Nat) (edit : Forest.Edit α) :
    Placeless (onForest owner edit) := by
  intro parameters halt left h
  unfold onForest at h
  split at h
  · cases h
    rfl
  · split at h
    · cases h
    · cases h
      rfl

theorem placeless_visit (owner : Nat) (parent : Option NodeId) (member : Member) :
    Placeless (visit owner parent member) := by
  refine placeless_bind (placeless_onForest owner _) fun result => ?_
  exact placeless_bind (placeless_onForest owner _) fun _ => placeless_pure result.1

theorem placeless_record (plan : MemberPlan) : Placeless (record plan) := by
  refine placeless_bind (placeless_visit plan.owner none plan.first) fun root => ?_
  refine placeless_bind ?_ fun leaf => ?_
  · exact placeless_foldlM (fun parent => placeless_visit plan.owner (some parent)) plan.later root
  · exact placeless_bind (placeless_onForest plan.owner _) fun _ => placeless_pure leaf

theorem placeless_exclude (owner : Nat) (node : NodeId) (excludedOwner : Nat) (excluded : NodeId) :
    Placeless (exclude owner node excludedOwner excluded) := by
  intro parameters halt left h
  rw [exclude_apply] at h
  cases htarget : parameters[excludedOwner]? with
  | none =>
    rw [htarget] at h
    cases h
    rfl
  | some target =>
    rw [htarget] at h
    exact placeless_bind (placeless_onForest excludedOwner _) (fun _ => placeless_onForest owner _)
      parameters halt left h

/-- What a planned statement could still stumble on is no place in the text. -/
theorem placeless_carryOut (change : Change) : Placeless (carryOut change) := by
  cases change with
  | flag owner status =>
    intro parameters halt left h
    cases h
  | record plan => exact placeless_bind (placeless_record plan) fun _ => placeless_pure ()
  | link primary secondary =>
    refine placeless_bind (placeless_record primary) fun node => ?_
    exact placeless_bind (placeless_record secondary) fun excluded =>
      placeless_exclude primary.owner node secondary.owner excluded
  | relink primary secondary linked =>
    refine placeless_bind (placeless_record primary) fun _ => ?_
    exact placeless_bind (placeless_onForest secondary.owner _) fun _ => placeless_pure ()

/-- Both analyses leave the same parameters. Both come to an end, or to the same halt that is nowhere in
the text, or they refuse for the same reason, at places that are related. -/
inductive AnalyzedAlike (near : Span → Span → Prop) :
    EStateM.Result Halt (List Parameter) Unit → EStateM.Result Halt (List Parameter) Unit → Prop
  | ok (after) : AnalyzedAlike near (.ok () after) (.ok () after)
  | halted {halt : Halt} (placeless : halt.span? = none) (left) :
      AnalyzedAlike near (.error halt left) (.error halt left)
  | refused {error error' span span' left} (same : error.unplaced = error'.unplaced)
      (place : error.span? = some span) (place' : error'.span? = some span')
      (places : near span span') :
      AnalyzedAlike near (.error (.refused error) left) (.error (.refused error') left)

/-- Expressions that mirror each other are recorded alike. -/
theorem analyzeStatement_alike (model : Model) (h : Mirrors near store store' id id')
    (parameters : List Parameter) :
    AnalyzedAlike near (analyzeStatement model store id parameters)
      (analyzeStatement model store' id' parameters) := by
  have hplan : Parallel near Eq (planStatement model store parameters id)
      (planStatement model store' parameters id') := parallel_planStatement h
  unfold analyzeStatement
  generalize planStatement model store parameters id = planned at hplan ⊢
  generalize planStatement model store' parameters id' = planned' at hplan ⊢
  cases hplan with
  | refused same place place' places => exact .refused same place place' places
  | @ok change _ hsame =>
    subst hsame
    simp only
    cases hresult : carryOut change parameters with
    | ok _ after => exact .ok after
    | error halt left => exact .halted (placeless_carryOut change parameters halt left hresult) left

/-- Blocks that mirror each other are analyzed alike. -/
theorem analyze_alike (model : Model) {roots roots' : List ExprId}
    (h : MirrorsAll near store store' roots roots') (parameters : List Parameter) :
    AnalyzedAlike near (analyze model ⟨store, roots⟩ parameters)
      (analyze model ⟨store', roots'⟩ parameters) := by
  induction roots generalizing roots' parameters with
  | nil =>
    cases h with
    | nil => exact .ok parameters
  | cons root roots ih =>
    cases h with
    | cons hroot hroots =>
      rw [analyze_cons, analyze_cons]
      have hstatement := analyzeStatement_alike model hroot parameters
      generalize analyzeStatement model store root parameters = result at hstatement ⊢
      generalize analyzeStatement model store' _ parameters = result' at hstatement ⊢
      cases hstatement with
      | ok after => exact ih hroots after
      | halted placeless left => exact .halted placeless left
      | refused same place place' places => exact .refused same place place' places

end Analysis

end InputDetail
