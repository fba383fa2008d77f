import InputDetail.Document
import InputDetail.Proofs.Document.Reading
import InputDetail.Proofs.Document.Scan
import InputDetail.Proofs.Document.Unfolding
import InputDetail.Proofs.Name.Interning
import Mathlib.Data.List.Basic

/-!
# Exactness of parsing

A block is parsed exactly if it renders statements. There is only one list of statements that it
renders, and the document unfolds into it, with the names of its identifiers.
-/
namespace InputDetail.Document

variable {names : NameTable} {texts : List String} {text source : String} {name : Name}
  {statements : List (Phrase String)}

theorem name?_internAll_of_some (h : names.name? text = some name) (texts : List String) :
    (internAll names texts).name? text = some name := by
  induction texts generalizing names with
  | nil => exact h
  | cons other texts ih => exact ih (NameTable.name?_intern_of_some h _)

/-- Every identifier that has been interned has a name. -/
theorem name?_internAll (h : text ∈ texts) :
    ∃ name, (internAll names texts).name? (Text.canonical text) = some name := by
  induction texts generalizing names with
  | nil => cases h
  | cons other texts ih =>
    obtain rfl | h := List.mem_cons.1 h
    · exact ⟨_, name?_internAll_of_some (NameTable.name?_intern names (Text.canonical text)) texts⟩
    · exact ih h

/-- Interning an identifier once more changes nothing. -/
theorem internWords_internAll (h : text ∈ texts) :
    ((internAll names texts).internWords text).2 = internAll names texts := by
  obtain ⟨name, hname⟩ := name?_internAll h
  rw [NameTable.internWords, NameTable.intern_of_name? hname]

/-- A block that is read has the words of its text as identifiers. -/
theorem identifiers_scan (source : String) :
    Document.identifiers (scan 0 source.toList) source.utf8ByteSize =
      ((scan 0 source.toList).map (·.symbol)).filterMap Symbol.word? := by
  rw [Document.identifiers, List.filterMap_map]
  refine List.filterMap_congr fun token htoken => ?_
  have hstart := (start_of_mem_scan htoken).2
  rw [String.ofList_toList, Nat.zero_add] at hstart
  rw [if_pos hstart]
  obtain ⟨symbol, span⟩ := token
  cases symbol <;> rfl

/-- The statements that a text renders are read from it. -/
theorem readTerms_of_renders (h : Renders statements source) :
    ∃ terms, readTerms source = (.ok terms, statements.flatMap Phrase.identifiers) ∧
      terms.map Term.phrase = statements := by
  have hlayout := renders_iff.1 h
  obtain ⟨terms, hread, hterms⟩ : ∃ terms, Reader.readAll source.utf8ByteSize .initial
      (scan 0 source.toList) = .ok terms ∧ terms.map Term.phrase = statements :=
    Reader.readAll_initial_iff.2 hlayout
  refine ⟨terms, ?_, hterms⟩
  rw [← hlayout.words, ← identifiers_scan, readTerms, hread]

/-- What is read from a text is rendered by it. -/
theorem renders_of_readTerms {terms : List (Term String)} (h : (readTerms source).1 = .ok terms) :
    Renders (terms.map Term.phrase) source := by
  rw [readTerms] at h
  split at h
  · next found hread =>
    obtain rfl := Except.ok.inj h
    exact renders_iff.2 (Reader.readAll_initial_iff.1 ⟨found, hread, rfl⟩)
  · cases h

/-- A text renders one list of statements at most. -/
theorem Renders.unique {others : List (Phrase String)} (h : Renders statements source)
    (h' : Renders others source) : statements = others := by
  obtain ⟨terms, hread, hterms⟩ := readTerms_of_renders h
  obtain ⟨terms', hread', hterms'⟩ := readTerms_of_renders h'
  obtain rfl : terms = terms' := Except.ok.inj (congrArg Prod.fst (hread.symm.trans hread'))
  exact hterms.symm.trans hterms'

/-- A rendering is parsed, and the document unfolds into its statements. -/
theorem parse_of_renders (h : Renders statements source) (names : NameTable) :
    ∃ document, parse source names =
        (.ok document, internAll names (statements.flatMap Phrase.identifiers)) ∧
      UnfoldsAll document.store document.roots (statements.map (Phrase.map fun text =>
        ((internAll names (statements.flatMap Phrase.identifiers)).internWords text).1)) := by
  obtain ⟨terms, hread, rfl⟩ := readTerms_of_renders h
  rw [parse, hread]
  refine ⟨_, rfl, ?_⟩
  have hspec := (Term.storeAll_spec (Term.mapAll (fun text => ((internAll names
    ((terms.map Term.phrase).flatMap Phrase.identifiers)).internWords text).1) terms) .empty).2
  rw [Term.phrases_mapAll] at hspec
  simpa using hspec

theorem exists_renders_of_parse {document : Document} (h : (parse source names).1 = .ok document) :
    ∃ statements, Renders statements source := by
  cases hread : (readTerms source).1 with
  | ok terms => exact ⟨_, renders_of_readTerms hread⟩
  | error failure => simp [parse, hread, Except.map] at h

/-- Parsing accepts exactly the renderings of statements, and every list of statements has renderings
if its identifiers are identifiers of the language. A rendering is one of a single list, and its document
unfolds into the statements with their identifiers replaced by names, and into nothing else. The names
are those that interning the identifiers gives, and interning one of them again changes nothing. -/
theorem parse_exact (names : NameTable) :
    (∀ source, (∃ document, (parse source names).1 = .ok document) ↔
      ∃ statements, Renders statements source) ∧
    (∀ statements, (∃ source, Renders statements source) ↔
      ∀ text ∈ statements.flatMap Phrase.identifiers, IsIdentifier text) ∧
    ∀ source statements, Renders statements source →
      (∀ others, Renders others source → others = statements) ∧
      ∃ document names', parse source names = (.ok document, names') ∧
        (∀ phrases, UnfoldsAll document.store document.roots phrases ↔
          phrases = statements.map (Phrase.map fun text => (names'.internWords text).1)) ∧
        names' = internAll names (statements.flatMap Phrase.identifiers) ∧
        ∀ text ∈ statements.flatMap Phrase.identifiers, (names'.internWords text).2 = names' := by
  refine ⟨fun source => ⟨?_, ?_⟩, fun statements => exists_renders_iff,
    fun source statements hrenders => ⟨fun others hothers => hothers.unique hrenders, ?_⟩⟩
  · rintro ⟨document, hparse⟩
    exact exists_renders_of_parse hparse
  · rintro ⟨statements, hrenders⟩
    obtain ⟨document, hparse, -⟩ := parse_of_renders hrenders names
    exact ⟨document, by rw [hparse]⟩
  · obtain ⟨document, hparse, hunfolds⟩ := parse_of_renders hrenders names
    refine ⟨document, _, hparse, fun phrases => ⟨fun h => h.unique hunfolds, ?_⟩, rfl,
      fun text htext => internWords_internAll htext⟩
    rintro rfl
    exact hunfolds

/-- Two statements without anything between them, with white space here and there. -/
theorem parse_exact_sample :
    let source := "; or(vm().disk( )[ COLLECTION ],\n\tid ( ) ) host().name() ;;"
    let statements : List (Phrase String) :=
      [.call "or" [.index (.access (.call "vm" []) "disk" []) "COLLECTION", .call "id" []],
        .access (.call "host" []) "name" []]
    Renders statements source ∧ ∃ document names', parse source .initial = (.ok document, names') ∧
      UnfoldsAll document.store document.roots
        (statements.map (Phrase.map fun text => (names'.internWords text).1)) := by
  have hrenders : Renders
      [.call "or" [.index (.access (.call "vm" []) "disk" []) "COLLECTION", .call "id" []],
        .access (.call "host" []) "name" []]
      "; or(vm().disk( )[ COLLECTION ],\n\tid ( ) ) host().name() ;;" := by
    rw [renders_iff, show (scan 0 _).map (·.symbol) = _ from rfl]
    exact .semicolon (.statement _ (.statement _ (.semicolon (.semicolon .nil))))
  obtain ⟨-, document, names', hparse, hunfolds, -, -⟩ := (parse_exact .initial).2.2 _ _ hrenders
  exact ⟨hrenders, document, names', hparse, (hunfolds _).2 rfl⟩

end InputDetail.Document
