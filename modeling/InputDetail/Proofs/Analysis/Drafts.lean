import InputDetail.Proofs.Analysis.Atomicity
import InputDetail.Proofs.Analysis.Mirror
import InputDetail.Proofs.Document.Sentences
import InputDetail.Proofs.Document.Spans

/-!
# Statements written by hand

Statements that are written by hand are analyzed as a text that renders them, whichever way its
identifiers are spelled: the same is recorded, or the same is refused. Only the places of refusals
differ.
-/
namespace InputDetail

/-- The phrase with its identifiers in canonical spelling. -/
def Document.Phrase.canonical (phrase : Document.Phrase String) : Document.Phrase String :=
  phrase.map Text.canonical

namespace Analysis

open Document

def Halt.unplaced : Halt → Halt
  | .refused error => .refused error.unplaced
  | .brokenReference => .brokenReference
  | .endlessChain => .endlessChain

/-- The result without the place of its failure. -/
def unplacedResult {α : Type} :
    EStateM.Result Halt (List Parameter) α → EStateM.Result Halt (List Parameter) α
  | .ok a after => .ok a after
  | .error halt left => .error halt.unplaced left

theorem AnalyzedAlike.unplacedResult_eq {near : Span → Span → Prop}
    {result result' : EStateM.Result Halt (List Parameter) Unit}
    (h : AnalyzedAlike near result result') : unplacedResult result = unplacedResult result' := by
  cases h with
  | ok after => rfl
  | halted placeless left => rfl
  | refused same => rw [unplacedResult, unplacedResult, Halt.unplaced, Halt.unplaced, same]

/-- Names depend on the canonical spelling only. -/
theorem map_internWords (final : NameTable) (phrases : List (Phrase String)) :
    phrases.map (Phrase.map fun text => (final.internWords text).1) =
      (phrases.map Phrase.canonical).map (Phrase.map fun text => (final.intern text).1) := by
  rw [List.map_map]
  refine List.map_congr_left fun phrase _ => ?_
  rw [Function.comp_apply, Phrase.canonical, Phrase.map_map]
  rfl

/-- Statements can be written into any draft. Wherever they are written, and in whatever order, they
are analyzed as any text that renders them, if the names come from one table. -/
theorem analyze_draft (sentences : List Draft.Sentence) :
    (∀ start, Draft.WroteAll ((Draft.Sentence.writeAll sentences).run start).2
      ((Draft.Sentence.writeAll sentences).run start).1 (sentences.map (·.phrase))) ∧
    ∀ draft ids, Draft.WroteAll draft ids (sentences.map (·.phrase)) →
      ∀ statements source names, Renders statements source →
        statements.map Phrase.canonical = (sentences.map (·.phrase)).map Phrase.canonical →
        draft.names.Compatible (parse source names).2 →
        ∃ document, (parse source names).1 = .ok document ∧
          ∀ model parameters, unplacedResult (analyze model ⟨draft.store, ids⟩ parameters) =
            unplacedResult (analyze model document parameters) := by
  refine ⟨fun start => (Draft.writeAll_spec sentences start).2, ?_⟩
  intro draft ids hwrote statements source names hrenders hspelled ⟨final, hinitial, hdraft, htext⟩
  obtain ⟨document, hparse, hunfolds⟩ := unfoldsAll_of_renders hrenders htext
  have hordered := (nested_of_parse hparse).toOrdered
  have hsame : statements.map (Phrase.map fun text => (final.internWords text).1) =
      (sentences.map (·.phrase)).map (Phrase.map fun text => (final.internWords text).1) := by
    rw [map_internWords, map_internWords, hspelled]
  rw [hsame] at hunfolds
  have hmirrors := hwrote.mirrors hinitial hdraft hordered hunfolds
  exact ⟨document, hparse, fun model parameters =>
    (analyze_alike model hmirrors parameters).unplacedResult_eq⟩

/-- An alternative and a parameter as a whole, written by hand and then as a text in another spelling. -/
theorem analyze_draft_sample :
    let sentences : List Draft.Sentence := [
      .either .mandatory ⟨⟨"p", false⟩, [⟨"a", true⟩]⟩ .mandatory ⟨⟨"p", false⟩, [⟨"b", false⟩]⟩,
      .bare ⟨⟨"p", false⟩, []⟩]
    let statements : List (Phrase String) := [
      .call "or" [.call "Mandatory" [.index (.access (.call "p" []) "a" []) "collection"],
        .call "mandatory" [.access (.call "P" []) "b" []]], .call "p" []]
    let source := "or(Mandatory(p().a()[collection]), mandatory(P().b())); p()"
    let draft := ((Draft.Sentence.writeAll sentences).run ⟨.empty, .initial, .nowhere⟩).2
    let ids := ((Draft.Sentence.writeAll sentences).run ⟨.empty, .initial, .nowhere⟩).1
    Draft.WroteAll draft ids (sentences.map (·.phrase)) ∧ Renders statements source ∧
      statements.map Phrase.canonical = (sentences.map (·.phrase)).map Phrase.canonical ∧
      draft.names.Compatible (parse source draft.names).2 ∧
      ∃ document, (parse source draft.names).1 = .ok document ∧
        unplacedResult (analyze Sample.model ⟨draft.store, ids⟩ Sample.parameters) =
          unplacedResult (analyze Sample.model document Sample.parameters) := by
  intro sentences statements source draft ids
  obtain ⟨hgrows, hwrote⟩ := Draft.writeAll_spec sentences ⟨.empty, .initial, .nowhere⟩
  have hrenders : Renders [.call "or" [.call "Mandatory" [.index (.access (.call "p" []) "a" [])
      "collection"], .call "mandatory" [.access (.call "P" []) "b" []]], .call "p" []]
      "or(Mandatory(p().a()[collection]), mandatory(P().b())); p()" := by
    rw [renders_iff, show (scan 0 _).map (·.symbol) = _ from rfl]
    exact .statement _ (.semicolon (.statement _ .nil))
  have hspelled : statements.map Phrase.canonical =
      (sentences.map (·.phrase)).map Phrase.canonical := by
    have hmarker : Text.canonical "Mandatory" = Text.canonical "mandatory" := by decide +kernel
    have hindex : Text.canonical "collection" = Text.canonical "COLLECTION" := by decide +kernel
    have hparameter : Text.canonical "P" = Text.canonical "p" := by decide +kernel
    simp [statements, sentences, Draft.Sentence.phrase, Draft.PlainChain.phrase, Draft.Link.phrase,
      Phrase.canonical, Phrase.map, Status.word, hmarker, hindex, hparameter]
  have hlater : draft.names.Extends (parse source draft.names).2 := extends_internAll _ _
  have hnames : draft.names.Compatible (parse source draft.names).2 :=
    ⟨_, hgrows.names.trans hlater, hlater, .refl _⟩
  obtain ⟨document, hparse, hsame⟩ := (analyze_draft sentences).2 draft ids hwrote statements source
    draft.names hrenders hspelled hnames
  exact ⟨hwrote, hrenders, hspelled, hnames, document, hparse, hsame Sample.model Sample.parameters⟩

end Analysis

end InputDetail
