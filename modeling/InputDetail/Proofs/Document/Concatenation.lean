import InputDetail.Proofs.Document.Exactness
import InputDetail.Proofs.Document.Mirror

/-!
# Blocks one after the other

Two texts that are blocks make one block, if one follows directly on the other. Its statements are those
of the first text and then those of the second, further on by the length of the first. The names are
those that parsing one text after the other gives.
-/
namespace InputDetail.Document

/-- The text is a documentation block, whatever names there are. -/
def Accepted (source : String) : Prop := ∃ names document, (parse source names).1 = .ok document

variable {first second source : String} {names later : NameTable} {terms terms' : List (Term String)}
  {texts : List String}

/-- The words of a text. -/
def words (source : String) : List String :=
  ((scan 0 source.toList).map (·.symbol)).filterMap Symbol.word?

theorem readTerms_eq_ok_iff : (readTerms source).1 = .ok terms ↔
    Reader.readAll source.utf8ByteSize .initial (scan 0 source.toList) = .ok terms := by
  rw [readTerms]
  split
  · next hread => rw [hread]; simp
  · next hread => rw [hread]; simp

theorem readTerms_of_ok (h : (readTerms source).1 = .ok terms) :
    readTerms source = (.ok terms, words source) := by
  have hread := readTerms_eq_ok_iff.1 h
  rw [words, ← identifiers_scan, readTerms, hread]

/-- The blocks are the texts that render statements. -/
theorem accepted_iff : Accepted source ↔ ∃ statements, Renders statements source := by
  constructor
  · rintro ⟨names, document, hparse⟩
    exact exists_renders_of_parse hparse
  · rintro ⟨statements, hrenders⟩
    obtain ⟨document, hparse, -⟩ := parse_of_renders hrenders .initial
    exact ⟨.initial, document, by rw [hparse]⟩

theorem Accepted.exists_terms (h : Accepted source) : ∃ terms, (readTerms source).1 = .ok terms := by
  obtain ⟨statements, hrenders⟩ := accepted_iff.1 h
  obtain ⟨terms, hread, -⟩ := readTerms_of_renders hrenders
  exact ⟨terms, by rw [hread]⟩

/-- The words of a block are the identifiers of its terms. -/
theorem words_of_readTerms (h : (readTerms source).1 = .ok terms) :
    words source = (terms.map Term.phrase).flatMap Phrase.identifiers :=
  (renders_iff.1 (renders_of_readTerms h)).words

/-- Two blocks have the tokens of the first and, further on, those of the second. -/
theorem scan_append_of_ok (h : (readTerms first).1 = .ok terms) : scan 0 (first ++ second).toList =
    scan 0 first.toList ++ (scan 0 second.toList).map (Token.shift first.utf8ByteSize) := by
  have hseparated := (renders_iff.1 (renders_of_readTerms h)).separated
  rw [String.toList_append, scan_append hseparated, String.ofList_toList, scan_shift]

/-- Two blocks are read as the terms of the first and, further on, those of the second. -/
theorem readTerms_append (hfirst : (readTerms first).1 = .ok terms)
    (hsecond : (readTerms second).1 = .ok terms') :
    (readTerms (first ++ second)).1 = .ok (terms ++ terms'.map (Term.shift first.utf8ByteSize)) ∧
      words (first ++ second) = words first ++ words second := by
  have hscan : scan 0 (first ++ second).toList = _ := scan_append_of_ok hfirst
  obtain ⟨final, hreads, hfinish⟩ := Reader.readAll_eq_ok_iff.1 (readTerms_eq_ok_iff.1 hfirst)
  obtain ⟨final', hreads', hfinish'⟩ := Reader.readAll_eq_ok_iff.1 (readTerms_eq_ok_iff.1 hsecond)
  have hsettled := (Reader.consumed_initial.reads hreads).settled hfinish
  obtain ⟨last, hlast, hfinish⟩ := hsettled.reads_of_initial hreads' hfinish' first.utf8ByteSize
  constructor
  · refine readTerms_eq_ok_iff.2 (Reader.readAll_eq_ok_iff.2 ⟨last, ?_, hfinish⟩)
    rw [hscan, Reader.reads_append, hreads, Option.bind_some, hlast]
  · rw [words, hscan, List.map_append, symbols_shift, List.filterMap_append]
    rfl

namespace Term

variable {α β : Type} {f g : α → β}

mutual

/-- Only the identifiers of a term are replaced. -/
theorem map_congr : (term : Term α) → (∀ text ∈ term.phrase.identifiers, f text = g text) →
    term.map f = term.map g
  | call name args span, h => by
    simp only [phrase, Phrase.identifiers, List.forall_mem_cons] at h
    rw [map, map, h.1, mapAll_congr args h.2]
  | access receiver name args span, h => by
    simp only [phrase, Phrase.identifiers, List.forall_mem_append, List.forall_mem_cons] at h
    rw [map, map, map_congr receiver h.1, h.2.1, mapAll_congr args h.2.2]
  | index array field fieldSpan span, h => by
    simp only [phrase, Phrase.identifiers, List.forall_mem_append, List.forall_mem_singleton] at h
    rw [map, map, map_congr array h.1, h.2]

theorem mapAll_congr : (terms : List (Term α)) →
    (∀ text ∈ Phrase.identifiersAll (phrases terms), f text = g text) → mapAll f terms = mapAll g terms
  | [], _ => rfl
  | term :: terms, h => by
    simp only [phrases, Phrase.identifiersAll, List.forall_mem_append] at h
    rw [mapAll, mapAll, map_congr term h.1, mapAll_congr terms h.2]

end

theorem mapAll_append (f : α → β) (terms others : List (Term α)) :
    mapAll f (terms ++ others) = mapAll f terms ++ mapAll f others := by
  induction terms with
  | nil => rfl
  | cons term terms ih => rw [List.cons_append, mapAll, mapAll, ih, List.cons_append]

/-- Terms are written one after the other. -/
theorem storeAll_append (terms others : List (Term Name)) (into : ExprStore) :
    storeAll (terms ++ others) into = ((storeAll terms into).1 ++
      (storeAll others (storeAll terms into).2).1, (storeAll others (storeAll terms into).2).2) := by
  induction terms generalizing into with
  | nil => rfl
  | cons term terms ih => simp only [List.cons_append, storeAll, ih]

end Term

/-- The terms with names for identifiers. -/
def named (names : NameTable) (terms : List (Term String)) : List (Term Name) :=
  Term.mapAll (fun text => (names.internWords text).1) terms

theorem parse_of_ok (h : (readTerms source).1 = .ok terms) (names : NameTable) :
    let document := Term.storeAll (named (internAll names (words source)) terms) .empty
    parse source names = (.ok ⟨document.2, document.1⟩, internAll names (words source)) := by
  rw [parse, readTerms_of_ok h]
  rfl

theorem extends_internAll (names : NameTable) (texts : List String) :
    names.Extends (internAll names texts) := fun _ _ hname => name?_internAll_of_some hname texts

/-- An identifier that is known keeps its name. -/
theorem internWords_of_mem {text : String} (h : text ∈ texts)
    (hlater : (internAll names texts).Extends later) :
    (later.internWords text).1 = ((internAll names texts).internWords text).1 := by
  refine NameTable.Extends.internWords_eq ?_
  rwa [internWords_internAll h]

theorem named_append (names : NameTable) (terms others : List (Term String)) :
    named names (terms ++ others) = named names terms ++ named names others :=
  Term.mapAll_append _ terms others

theorem named_shift (names : NameTable) (n : Nat) (terms : List (Term String)) :
    named names (terms.map (Term.shift n)) = Term.shiftAll n (named names terms) := by
  rw [← Term.shiftAll_eq_map]
  exact Term.mapAll_shiftAll _ n terms

/-- The terms of a block keep their names when more is interned. -/
theorem named_of_readTerms (h : (readTerms source).1 = .ok terms)
    (hlater : (internAll names (words source)).Extends later) :
    named later terms = named (internAll names (words source)) terms := by
  refine Term.mapAll_congr terms fun text htext => internWords_of_mem ?_ hlater
  rw [words_of_readTerms h]
  simpa using htext

theorem internAll_append (names : NameTable) (texts more : List String) :
    internAll names (texts ++ more) = internAll (internAll names texts) more := List.foldl_append

/-- A block is parsed as what it renders, with the names that its identifiers keep in all later
tables. -/
theorem unfoldsAll_of_renders {statements : List (Phrase String)} (h : Renders statements source)
    (hlater : (parse source names).2.Extends later) :
    ∃ document, (parse source names).1 = .ok document ∧
      UnfoldsAll document.store document.roots
        (statements.map (Phrase.map fun text => (later.internWords text).1)) := by
  obtain ⟨terms, hread, rfl⟩ := readTerms_of_renders h
  have hterms : (readTerms source).1 = .ok terms := by rw [hread]
  have hparse := parse_of_ok hterms names
  rw [hparse] at hlater
  refine ⟨_, by rw [hparse], ?_⟩
  have hphrases : (terms.map Term.phrase).map
      (Phrase.map fun text => (later.internWords text).1) = Term.phrases (named later terms) := by
    rw [named, Term.phrases_mapAll, Phrase.mapAll_eq_map, Term.phrases_eq_map]
  rw [hphrases, ← named_of_readTerms hterms hlater]
  exact (Term.storeAll_spec (named later terms) .empty).2

/-- The document of two blocks has the statements of the first document and, further on, those of the
second, which is parsed with the names that the first leaves. -/
theorem parse_append (hfirst : Accepted first) (hsecond : Accepted second) (names : NameTable) :
    ∃ document document' both names' names'' roots roots',
      parse first names = (.ok document, names') ∧ parse second names' = (.ok document', names'') ∧
      parse (first ++ second) names = (.ok both, names'') ∧ both.roots = roots ++ roots' ∧
      MirrorsAll (Span.Later 0) document.store both.store document.roots roots ∧
      MirrorsAll (Span.Later first.utf8ByteSize) document'.store both.store document'.roots roots' := by
  obtain ⟨terms, hterms⟩ := hfirst.exists_terms
  obtain ⟨terms', hterms'⟩ := hsecond.exists_terms
  obtain ⟨hread, hwords⟩ := readTerms_append hterms hterms'
  have hparse := parse_of_ok hread names
  rw [hwords, internAll_append, named_append, named_shift,
    named_of_readTerms hterms (extends_internAll _ _), Term.storeAll_append] at hparse
  have hmirrors := Term.storeAll_mirrors 0 (named (internAll names (words first)) terms) .empty .empty
  rw [Term.shiftAll_zero] at hmirrors
  have hmirrors' := Term.storeAll_mirrors first.utf8ByteSize
    (named (internAll (internAll names (words first)) (words second)) terms') .empty
    (Term.storeAll (named (internAll names (words first)) terms) .empty).2
  exact ⟨_, _, _, _, _, _, _, parse_of_ok hterms names, parse_of_ok hterms' _, hparse, rfl,
    hmirrors.mono (.refl _) (Term.storeAll_spec _ _).1, hmirrors'⟩

end InputDetail.Document
