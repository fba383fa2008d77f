import InputDetail.Proofs.Analysis.Reachable

/-!
# Statements are recorded as a whole or not at all

A statement is refused while it is planned, or not at all. So an analysis that comes to a halt has
recorded the statements before the refused one, and of the refused one nothing.
-/
namespace InputDetail.Analysis

open Parameter

section

variable {model : Model} {store : ExprStore} {parameters after left : List Parameter} {id : ExprId}
  {halt : Halt}

/-- A refused statement was refused while it was planned, and changes nothing. -/
theorem plan_of_analyzeStatement_error (hwf : WellFormed parameters)
    (h : analyzeStatement model store id parameters = .error halt left) :
    planStatement model store parameters id = .error halt ∧ left = parameters := by
  cases hplan : planStatement model store parameters id with
  | error refused =>
    simp only [analyzeStatement, hplan] at h
    cases h
    exact ⟨rfl, rfl⟩
  | ok change =>
    obtain ⟨after, hok, -⟩ := analyzeStatement_spec hwf hplan
    rw [hok] at h
    cases h

/-- The plan of a recorded statement was carried out. -/
theorem effect_of_analyzeStatement (hwf : WellFormed parameters)
    (h : analyzeStatement model store id parameters = .ok () after) :
    ∃ change, planStatement model store parameters id = .ok change ∧
      Effect (plannedType model.types parameters) change parameters after := by
  obtain ⟨change, hplan⟩ := plan_of_analyzeStatement h
  obtain ⟨after', hok, heffect⟩ := analyzeStatement_spec hwf hplan
  rw [hok] at h
  cases h
  exact ⟨change, hplan, heffect⟩

/-- An analysis that comes to a halt is the analysis of the statements before the refused one, and
the refused one alone is refused for the same reason. -/
theorem halt_of_wellFormed (hwf : WellFormed parameters) {roots : List ExprId}
    (h : analyze model ⟨store, roots⟩ parameters = .error halt left) :
    ∃ k root, roots[k]? = some root ∧
      analyze model ⟨store, roots.take k⟩ parameters = .ok () left ∧
      analyze model ⟨store, [root]⟩ left = .error halt left := by
  induction roots generalizing parameters with
  | nil => cases h
  | cons root roots ih =>
    rw [analyze_cons] at h
    cases hroot : analyzeStatement model store root parameters with
    | error refused remaining =>
      rw [hroot] at h
      cases h
      obtain ⟨-, rfl⟩ := plan_of_analyzeStatement_error hwf hroot
      exact ⟨0, root, rfl, rfl, by rw [analyze_singleton, hroot]⟩
    | ok _ after =>
      rw [hroot] at h
      obtain ⟨change, -, heffect⟩ := effect_of_analyzeStatement hwf hroot
      obtain ⟨k, refused, hk, htake, hrefused⟩ := ih heffect.wellFormed h
      refine ⟨k + 1, refused, hk, ?_, hrefused⟩
      rw [List.take_succ_cons, analyze_cons, hroot]
      exact htake

/-- What recorded statements keep, an analysis keeps, whether it comes to a halt or not. -/
theorem stateAfter_of_step {p : List Parameter → Prop} (hwf : WellFormed parameters)
    (hp : p parameters) {document : Document}
    (hstep : ∀ {parameters after root}, WellFormed parameters → p parameters →
      analyzeStatement model document.store root parameters = .ok () after → p after) :
    p (stateAfter model document parameters) := by
  obtain ⟨store, roots⟩ := document
  unfold stateAfter
  induction roots generalizing parameters with
  | nil => exact hp
  | cons root roots ih =>
    rw [analyze_cons]
    cases hroot : analyzeStatement model store root parameters with
    | error halt left => exact (plan_of_analyzeStatement_error hwf hroot).2 ▸ hp
    | ok _ after =>
      obtain ⟨change, -, heffect⟩ := effect_of_analyzeStatement hwf hroot
      exact ih heffect.wellFormed (hstep hwf hp hroot) hstep

/-- Whatever edits and analyses went before, a halting analysis leaves exactly what the statements
before the refused one recorded, numbers of nodes included. -/
theorem analyze_atomic (hbuilt : Built parameters) {document : Document}
    (h : analyze model document parameters = .error halt left) :
    ∃ k root, document.roots[k]? = some root ∧
      analyze model ⟨document.store, document.roots.take k⟩ parameters = .ok () left ∧
      analyze model ⟨document.store, [root]⟩ left = .error halt left :=
  halt_of_wellFormed hbuilt.wellFormed h

end

namespace Sample

/-- A struct with the members `a`, of its own type, and `b`, a string. -/
def types : TypeTable :=
  ⟨#[.primitive .boolean, .primitive .integer, .primitive .decimal, .primitive .string,
    .primitive .date, .struct ⟨8⟩ (some [⟨⟨5⟩, ⟨5⟩⟩, ⟨⟨6⟩, ⟨3⟩⟩])]⟩

def model : Model := ⟨types, .lastWins⟩

def names : NameTable := ⟨#["", "mandatory", "optional", "collection", "or", "a", "b", "p", "t"]⟩

/-- A parameter of that type, with nothing recorded. -/
def parameters : List Parameter := [.new ⟨7⟩ ⟨5⟩ .input]

/-- The number 0 is the parameter, 3 declares `a` mandatory, 4 declares `b` mandatory, 5 is the
alternation of both, and 7 declares the member `a` of `a` mandatory. -/
def store : ExprStore where
  exprs := #[
    ⟨.call none ⟨7⟩ ⟨0, 0⟩, ⟨0, 0⟩⟩, ⟨.call (some ⟨0⟩) ⟨5⟩ ⟨0, 0⟩, ⟨0, 0⟩⟩,
    ⟨.call (some ⟨0⟩) ⟨6⟩ ⟨0, 0⟩, ⟨0, 0⟩⟩, ⟨.call none .mandatory ⟨0, 1⟩, ⟨0, 0⟩⟩,
    ⟨.call none .mandatory ⟨1, 1⟩, ⟨0, 0⟩⟩, ⟨.call none .or ⟨2, 2⟩, ⟨0, 0⟩⟩,
    ⟨.call (some ⟨1⟩) ⟨5⟩ ⟨0, 0⟩, ⟨0, 0⟩⟩, ⟨.call none .mandatory ⟨4, 1⟩, ⟨0, 0⟩⟩]
  args := #[⟨1⟩, ⟨2⟩, ⟨3⟩, ⟨4⟩, ⟨6⟩]

theorem nothing_recorded : ∀ parameter ∈ parameters, parameter.forest = .empty := by
  intro parameter h
  obtain rfl := List.mem_singleton.1 h
  rfl

end Sample

/-- After the alternation is recorded, the parameter as a whole is refused. -/
theorem analyze_atomic_sample :
    let roots : List ExprId := [⟨5⟩, ⟨0⟩]
    let halt : Halt := .refused (.simpleParameterExpected ⟨7⟩ ⟨0, 0⟩)
    let left := stateAfter Sample.model ⟨Sample.store, roots⟩ Sample.parameters
    Built Sample.parameters ∧
      analyze Sample.model ⟨Sample.store, roots⟩ Sample.parameters = .error halt left ∧
      ∃ k root, roots[k]? = some root ∧
        analyze Sample.model ⟨Sample.store, roots.take k⟩ Sample.parameters = .ok () left ∧
        analyze Sample.model ⟨Sample.store, [root]⟩ left = .error halt left := by
  intro roots halt left
  have hbuilt : Built Sample.parameters := (Reachable.start Sample.nothing_recorded).built
  have hhalt : halt? Sample.model ⟨Sample.store, roots⟩ Sample.parameters = some halt := by
    decide +kernel
  have herror := analyze_of_halt?_some hhalt
  exact ⟨hbuilt, herror, analyze_atomic hbuilt herror⟩

end InputDetail.Analysis
