import InputDetail.Proofs.Analysis.Atomicity
import InputDetail.Proofs.Analysis.References
import Mathlib.Tactic.IntervalCases

/-!
# Analyses are safe

Whatever forests an analysis begins with, every edit that it attempts is possible: nodes get no second
type, and none is detached twice. An analysis of a sound store comes to a halt only where the
documentation is at fault.
-/
namespace InputDetail.Analysis

open ExprStore

variable {model : Model} {store : ExprStore} {parameters left : List Parameter} {id : ExprId}
  {halt : Halt}

theorem checked_planPath (hsound : store.Sound) (hid : (store.get? id).isSome = true)
    (status : Status) : Checked (planPath model store parameters status id) := by
  unfold planPath
  refine checked_bind (checked_exprAt hid) fun expr _ => ?_
  refine checked_bind (checked_pathAt hsound hid) fun path _ => ?_
  split
  · split
    · split
      · exact checked_ok _
      · exact checked_refuse nofun
    · split
      · exact checked_refuse nofun
      · simp only
        split
        · exact checked_refuse nofun
        · exact checked_ok _
  · exact checked_refuse nofun

theorem checked_planAlternation (hsound : store.Sound) {first second : ExprId}
    (hfirst : (store.get? first).isSome = true) (hsecond : (store.get? second).isSome = true)
    (span : Span) (status : Status) :
    Checked (planAlternation model store parameters span status first second) := by
  unfold planAlternation
  refine checked_bind (checked_planPath hsound hfirst status) fun primary _ => ?_
  refine checked_bind (checked_planPath hsound hsecond status) fun secondary _ => ?_
  split
  · split
    · exact checked_refuse nofun
    · split <;> exact checked_ok _
  · exact checked_refuse nofun

theorem checked_planStatement (hsound : store.Sound) (hid : (store.get? id).isSome = true) :
    Checked (planStatement model store parameters id) := by
  unfold planStatement
  refine checked_bind (checked_statementAt hsound hid) fun statement hstatement => ?_
  have hknown := known_of_statementAt hsound hid hstatement
  cases statement with
  | declaration status path =>
    have hpath := hknown path (List.mem_singleton_self path)
    refine checked_bind (checked_planPath hsound hpath status) fun plan _ => ?_
    cases plan <;> exact checked_ok _
  | alternation span status primary secondary =>
    have hprimary := hknown primary List.mem_cons_self
    have hsecondary := hknown secondary (List.mem_cons_of_mem _ List.mem_cons_self)
    exact checked_planAlternation hsound hprimary hsecondary span status

/-- What is not in the store makes no statement. -/
theorem planStatement_of_unknown (hid : store.get? id = none) :
    planStatement model store parameters id = .error .brokenReference := by
  simp [planStatement, statementAt, exprAt, hid, bind, Except.bind]

/-- An analysis comes to a halt at the first root that is refused while it is planned, and leaves what
the roots before it recorded. -/
theorem plan_of_error (hbuilt : Built parameters) {document : Document}
    (h : analyze model document parameters = .error halt left) :
    ∃ k root, document.roots[k]? = some root ∧
      analyze model ⟨document.store, document.roots.take k⟩ parameters = .ok () left ∧
      planStatement model document.store left root = .error halt := by
  obtain ⟨k, root, hroot, hbefore, hrefused⟩ := halt_of_wellFormed hbuilt.wellFormed h
  have hleft := hbuilt.stateAfter model document
  rw [stateAfter, h] at hleft
  rw [analyze_singleton] at hrefused
  exact ⟨k, root, hroot, hbefore, (plan_of_analyzeStatement_error hleft.wellFormed hrefused).1⟩

theorem plan_of_halt (hbuilt : Built parameters) {document : Document}
    (h : halt? model document parameters = some halt) :
    ∃ root ∈ document.roots, ∃ reached, planStatement model document.store reached root = .error halt := by
  obtain ⟨k, root, hroot, -, hplan⟩ := plan_of_error hbuilt (analyze_of_halt?_some h)
  exact ⟨root, List.mem_of_getElem? hroot, _, hplan⟩

/-- Whatever edits and analyses went before, every planned statement is carried out. An analysis of a
sound store halts for a defect of the documentation, or at a root that is not in the store; it leaves
forests from which the next analysis can begin. -/
theorem analyze_safe (hbuilt : Built parameters) {document : Document}
    (hsound : document.store.Sound) :
    (∀ root change, planStatement model document.store parameters root = .ok change →
        ∃ after, carryOut change parameters = .ok () after) ∧
      (∀ halt, halt? model document parameters = some halt → halt.Defect ∨
        halt = .brokenReference ∧ ∃ root ∈ document.roots, document.store.get? root = none) ∧
      Built (stateAfter model document parameters) := by
  refine ⟨fun root change hplan => ?_, fun halt hhalt => ?_, hbuilt.stateAfter model document⟩
  · obtain ⟨after, hcarry, -⟩ := carryOut_spec hbuilt.wellFormed
      (fits_plannedType model.types parameters) (planStatement_sound hplan)
    exact ⟨after, hcarry⟩
  · obtain ⟨root, hroot, reached, hplan⟩ := plan_of_halt hbuilt hhalt
    cases hknown : document.store.get? root with
    | some expr =>
      have hid : (document.store.get? root).isSome = true := by rw [hknown]; rfl
      exact Or.inl (checked_planStatement hsound hid halt hplan)
    | none =>
      rw [planStatement_of_unknown hknown] at hplan
      cases hplan
      exact Or.inr ⟨rfl, root, hroot, hknown⟩

namespace Sample

theorem ordered : Sample.store.Ordered := by
  constructor
  case lists =>
    rintro ⟨index⟩ receiver name range span hexpr
    have hlt : index < 8 := lt_size_of_get? hexpr
    interval_cases index <;> cases hexpr <;> rfl
  case older =>
    rintro ⟨index⟩ next hrefers
    have hlt : index < 8 := by simpa [ExprStore.get?, Sample.store] using hrefers.known
    interval_cases index <;> cases hrefers with
      | receiver expr => cases expr <;> decide
      | argument expr list mem =>
        cases expr
        cases list
        revert next
        decide
      | array expr => cases expr
      | index expr => cases expr

/-- A root `a` of the type of strings, which was detached. -/
def detached : Forest := ⟨#[⟨⟨5⟩, none, some ⟨3⟩, none, none, false⟩]⟩

theorem built_detached : detached.Built := by
  have hinsert : Forest.insert none ⟨5⟩ .empty = .ok (⟨0⟩, true) ⟨#[.new ⟨5⟩ none]⟩ := rfl
  have htype : Forest.setType ⟨0⟩ ⟨3⟩ ⟨#[.new ⟨5⟩ none]⟩ =
      .ok () ⟨#[⟨⟨5⟩, none, some ⟨3⟩, none, none, true⟩]⟩ := rfl
  have hdetach : Forest.detach ⟨0⟩ ⟨#[⟨⟨5⟩, none, some ⟨3⟩, none, none, true⟩]⟩ =
      .ok () detached := rfl
  exact .detach (.setType (.insert .empty hinsert) htype) hdetach

end Sample

/-- An alternation whose first side was detached by hand, and then a parameter as a whole, which is
refused. -/
theorem analyze_safe_sample :
    let parameters : List Parameter := [⟨⟨7⟩, ⟨5⟩, .input, .optional, Sample.detached⟩]
    let document : Document := ⟨Sample.store, [⟨5⟩, ⟨0⟩]⟩
    Built parameters ∧ document.store.Sound ∧
      (∀ root change, planStatement Sample.model document.store parameters root = .ok change →
        ∃ after, carryOut change parameters = .ok () after) ∧
      (∀ halt, halt? Sample.model document parameters = some halt → halt.Defect ∨
        halt = .brokenReference ∧ ∃ root ∈ document.roots, document.store.get? root = none) ∧
      Built (stateAfter Sample.model document parameters) := by
  intro parameters document
  have hbuilt : Built parameters := by
    intro parameter hmem
    obtain rfl := List.mem_singleton.1 hmem
    exact Sample.built_detached
  have hsound : document.store.Sound := Sample.ordered.sound
  exact ⟨hbuilt, hsound, analyze_safe hbuilt hsound⟩

end InputDetail.Analysis
