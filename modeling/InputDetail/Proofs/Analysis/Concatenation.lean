import InputDetail.Proofs.Analysis.Atomicity
import InputDetail.Proofs.Analysis.Mirror
import InputDetail.Proofs.Document.Concatenation

/-!
# Analysis of blocks one after the other

Two texts of which each is a block are analyzed as one text as they are one after the other.
-/
namespace InputDetail

/-- The error with its place `n` bytes further on. An internal error has no place. -/
def AnalysisError.shift (n : Nat) : AnalysisError → AnalysisError
  | .parse failure => .parse { failure with span := failure.span.shift n }
  | .unsupportedExpression span cause => .unsupportedExpression (span.shift n) cause
  | .invalidCollectionIndex span => .invalidCollectionIndex (span.shift n)
  | .malformedAlternation span defect => .malformedAlternation (span.shift n) defect
  | .unknownParameter name span => .unknownParameter name (span.shift n)
  | .structuralMismatch parameter path cause span =>
    .structuralMismatch parameter path cause (span.shift n)
  | .simpleParameterExpected parameter span => .simpleParameterExpected parameter (span.shift n)
  | .conflictingStatus parameter path span => .conflictingStatus parameter path (span.shift n)
  | .internal error => .internal error

theorem AnalysisError.unplaced_shift (n : Nat) (error : AnalysisError) :
    (error.shift n).unplaced = error.unplaced := by
  cases error <;> rfl

theorem AnalysisError.span?_shift {error : AnalysisError} {span : Span}
    (h : error.span? = some span) (n : Nat) : (error.shift n).span? = some (span.shift n) := by
  cases error <;> cases h <;> rfl

namespace Analysis

open Document

def Halt.shift (n : Nat) : Halt → Halt
  | .refused error => .refused (error.shift n)
  | .brokenReference => .brokenReference
  | .endlessChain => .endlessChain

theorem Halt.shift_zero (halt : Halt) : halt.shift 0 = halt := by
  cases halt with
  | refused error => cases error <;> rfl
  | brokenReference => rfl
  | endlessChain => rfl

theorem Halt.shift_of_span?_none {halt : Halt} (h : halt.span? = none) (n : Nat) :
    halt.shift n = halt := by
  cases halt with
  | refused error => cases error <;> first | rfl | cases h
  | brokenReference => rfl
  | endlessChain => rfl

/-- The result with the place of its failure `n` bytes further on. -/
def shiftResult {α : Type} (n : Nat) :
    EStateM.Result Halt (List Parameter) α → EStateM.Result Halt (List Parameter) α
  | .ok a after => .ok a after
  | .error halt left => .error (halt.shift n) left

theorem shiftResult_zero {α : Type} (result : EStateM.Result Halt (List Parameter) α) :
    shiftResult 0 result = result := by
  cases result with
  | ok a after => rfl
  | error halt left => rw [shiftResult, halt.shift_zero]

variable {model : Model} {n : Nat} {store store' : ExprStore}

/-- Where analyses are alike, the place of a failure is the only difference. -/
theorem AnalyzedAlike.eq_shiftResult {result result' : EStateM.Result Halt (List Parameter) Unit}
    (h : AnalyzedAlike (Span.Later n) result result') : result' = shiftResult n result := by
  cases h with
  | ok after => rfl
  | halted placeless left => rw [shiftResult, Halt.shift_of_span?_none placeless]
  | @refused error error' span span' left same place place' places =>
    obtain rfl : span' = span.shift n := places
    have hshift : (error.shift n).unplaced = error'.unplaced :=
      (error.unplaced_shift n).trans same
    have hplace : (error.shift n).span? = some (span.shift n) := AnalysisError.span?_shift place n
    rw [shiftResult, Halt.shift, AnalysisError.eq_of_unplaced hshift hplace place']

/-- Blocks that mirror each other are analyzed alike. -/
theorem analyze_shift {roots roots' : List ExprId}
    (h : MirrorsAll (Span.Later n) store store' roots roots') (parameters : List Parameter) :
    analyze model ⟨store', roots'⟩ parameters =
      shiftResult n (analyze model ⟨store, roots⟩ parameters) :=
  (analyze_alike model h parameters).eq_shiftResult

/-- If two texts are blocks, then analyzing the first followed directly by the second is analyzing the
first and then, unless it comes to a halt, the second with the names that are left. A failure in the
second text lies further on by the length of the first. -/
theorem analyzeText_append {first second : String} (hfirst : Accepted first)
    (hsecond : Accepted second) (model : Model) (names : NameTable) (parameters : List Parameter) :
    (analyzeText model (first ++ second) names parameters).1 =
        (match analyzeText model first names parameters with
        | (.ok _ after, names') =>
          shiftResult first.utf8ByteSize (analyzeText model second names' after).1
        | (.error halt left, _) => .error halt left) ∧
      (analyzeText model (first ++ second) names parameters).2 =
        (analyzeText model second (analyzeText model first names parameters).2 parameters).2 := by
  obtain ⟨document, document', both, names', names'', roots, roots', hparse, hparse', hboth, hroots,
    hmirrors, hmirrors'⟩ := parse_append hfirst hsecond names
  obtain ⟨store, bothRoots⟩ := both
  subst hroots
  simp only [analyzeText, hparse, hparse', hboth, analyzeParsed, analyze_append, and_true]
  have hbefore : analyze model ⟨store, roots⟩ parameters =
      shiftResult 0 (analyze model document parameters) := analyze_shift hmirrors parameters
  rw [shiftResult_zero] at hbefore
  rw [hbefore]
  cases analyze model document parameters with
  | error halt left => rfl
  | ok _ after =>
    simp only [hparse']
    exact analyze_shift hmirrors' after

/-- An alternation, and directly behind it its second side as optional and a parameter as a whole, which
is refused. -/
theorem analyzeText_append_sample :
    let first := "or(mandatory(p().a()), mandatory(p().b()))"
    let second := "optional(p().b()) p()"
    Accepted first ∧ Accepted second ∧
      (analyzeText Sample.model (first ++ second) Sample.names Sample.parameters).1 =
        (match analyzeText Sample.model first Sample.names Sample.parameters with
        | (.ok _ after, names') =>
          shiftResult first.utf8ByteSize (analyzeText Sample.model second names' after).1
        | (.error halt left, _) => .error halt left) ∧
      (analyzeText Sample.model (first ++ second) Sample.names Sample.parameters).2 =
        (analyzeText Sample.model second
          (analyzeText Sample.model first Sample.names Sample.parameters).2 Sample.parameters).2 := by
  intro first second
  have hfirst : Accepted "or(mandatory(p().a()), mandatory(p().b()))" := by
    refine accepted_iff.2 ⟨[.call "or" [.call "mandatory" [.access (.call "p" []) "a" []],
      .call "mandatory" [.access (.call "p" []) "b" []]]], ?_⟩
    rw [renders_iff, show (scan 0 _).map (·.symbol) = _ from rfl]
    exact .statement _ .nil
  have hsecond : Accepted "optional(p().b()) p()" := by
    refine accepted_iff.2 ⟨[.call "optional" [.access (.call "p" []) "b" []], .call "p" []], ?_⟩
    rw [renders_iff, show (scan 0 _).map (·.symbol) = _ from rfl]
    exact .statement _ (.statement _ .nil)
  exact ⟨hfirst, hsecond, analyzeText_append hfirst hsecond Sample.model Sample.names Sample.parameters⟩

end Analysis

end InputDetail
