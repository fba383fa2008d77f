import InputDetail.Proofs.Document.Spans

/-!
# The vocabulary of a block

A parser interns the identifiers of a block before it writes the document, and names every call of the
document by one of them. So whoever reads the document afterwards meets known names only, and all
expressions that it refers to.
-/
namespace InputDetail

namespace ExprStore

variable {store : ExprStore} {names : NameTable}

/-- The names of all calls are known. -/
def Named (store : ExprStore) (names : NameTable) : Prop :=
  ∀ ⦃id receiver name range span⦄, store.get? id = some ⟨.call receiver name range, span⟩ →
    (names.text? name).isSome

theorem named_empty (names : NameTable) : empty.Named names := by
  intro id receiver name range span hexpr
  simp [empty, get?] at hexpr

theorem Named.push (h : store.Named names) {expr : Expr}
    (hname : ∀ receiver name range, expr.kind = .call receiver name range →
      (names.text? name).isSome) : (store.push expr).2.Named names := by
  intro id receiver name range span hexpr
  obtain hold | ⟨-, rfl⟩ := get?_push_cases hexpr
  · exact h hold
  · exact hname receiver name range rfl

/-- A new call with its arguments. -/
theorem Named.call (h : store.Named names) {name : Name} (hname : (names.text? name).isSome)
    (receiver : Option ExprId) (ids : List ExprId) (span : Span) :
    ((store.pushArgs ids).2.push ⟨.call receiver name (store.pushArgs ids).1, span⟩).2.Named names := by
  have hargs : (store.pushArgs ids).2.Named names := h
  refine hargs.push fun _ _ _ hkind => ?_
  cases hkind
  exact hname

end ExprStore

namespace Document

namespace Phrase

variable {α β : Type}

mutual

theorem identifiers_map (f : α → β) :
    (phrase : Phrase α) → (phrase.map f).identifiers = phrase.identifiers.map f
  | call name args => by
    rw [map, identifiers, identifiers, identifiersAll_mapAll f args, List.map_cons]
  | access receiver name args => by
    rw [map, identifiers, identifiers, identifiers_map f receiver, identifiersAll_mapAll f args,
      List.map_append, List.map_cons]
  | index array field => by
    rw [map, identifiers, identifiers, identifiers_map f array, List.map_append, List.map_singleton]

theorem identifiersAll_mapAll (f : α → β) : (phrases : List (Phrase α)) →
    identifiersAll (mapAll f phrases) = (identifiersAll phrases).map f
  | [] => rfl
  | phrase :: phrases => by
    rw [mapAll, identifiersAll, identifiersAll, identifiers_map f phrase,
      identifiersAll_mapAll f phrases, List.map_append]

end

end Phrase

namespace Term

open ExprStore

variable {names : NameTable}

mutual

/-- The names of all calls stay known when a term of known names is written. -/
theorem named_store : (term : Term Name) → (into : ExprStore) →
    (∀ name ∈ term.phrase.identifiers, (names.text? name).isSome) → into.Named names →
    (term.store into).2.Named names
  | .call name args span, into, hknown, hinto => by
    simp only [phrase, Phrase.identifiers, List.forall_mem_cons] at hknown
    exact (named_storeAll args into hknown.2 hinto).call hknown.1 none _ span
  | .access receiver name args span, into, hknown, hinto => by
    simp only [phrase, Phrase.identifiers, List.forall_mem_append, List.forall_mem_cons] at hknown
    have htarget := named_store receiver into hknown.1 hinto
    exact (named_storeAll args _ hknown.2.2 htarget).call hknown.2.1 _ _ span
  | .index array field fieldSpan span, into, hknown, hinto => by
    simp only [phrase, Phrase.identifiers, List.forall_mem_append] at hknown
    have htarget := named_store array into hknown.1 hinto
    exact (htarget.push (by intros; contradiction)).push (by intros; contradiction)

theorem named_storeAll : (terms : List (Term Name)) → (into : ExprStore) →
    (∀ name ∈ Phrase.identifiersAll (phrases terms), (names.text? name).isSome) →
    into.Named names → (storeAll terms into).2.Named names
  | [], _, _, hinto => hinto
  | term :: terms, into, hknown, hinto => by
    simp only [phrases, Phrase.identifiersAll, List.forall_mem_append] at hknown
    exact named_storeAll terms _ hknown.2 (named_store term into hknown.1 hinto)

end

end Term

variable {names : NameTable} {source : String} {document : Document}

theorem text?_internAll_isSome {name : Name} (h : (names.text? name).isSome) (texts : List String) :
    ((internAll names texts).text? name).isSome := by
  induction texts generalizing names with
  | nil => exact h
  | cons text texts ih =>
    obtain ⟨known, hknown⟩ := Option.isSome_iff_exists.1 h
    have hkept : (names.internWords text).2.text? name = some known :=
      NameTable.text?_intern_of_some hknown _
    exact ih (by rw [hkept]; rfl)

/-- Parsing forgets no name, also if it fails. -/
theorem text?_parse_isSome {name : Name} (h : (names.text? name).isSome) (source : String) :
    ((parse source names).2.text? name).isSome := text?_internAll_isSome h _

/-- The name of an identifier that has been interned is known. -/
theorem text?_internWords_isSome {texts : List String} {text : String} (h : text ∈ texts) :
    ((internAll names texts).text? ((internAll names texts).internWords text).1).isSome := by
  obtain ⟨name, hname⟩ : ∃ name, (internAll names texts).name? (Text.canonical text) = some name :=
    name?_internAll h
  rw [NameTable.internWords_of_name? hname, NameTable.text?_of_name? hname]
  rfl

/-- What parsing a block gives: a document that names its calls by known names, and holds its
statements and all that they refer to. -/
theorem parse_spec (h : (parse source names).1 = .ok document) :
    document.store.Named (parse source names).2 ∧ document.store.Sound ∧
      ∀ root ∈ document.roots, (document.store.get? root).isSome := by
  obtain ⟨terms, hread⟩ : ∃ terms, (readTerms source).1 = .ok terms :=
    Accepted.exists_terms ⟨names, document, h⟩
  have hsound := (nested_of_parse h).toOrdered.sound
  have hparse := parse_of_ok hread names
  rw [hparse] at h
  obtain rfl := Except.ok.inj h
  refine ⟨?_, hsound, fun root hroot => ?_⟩
  · rw [hparse]
    refine Term.named_storeAll _ .empty (fun name hname => ?_) (ExprStore.named_empty _)
    rw [named, Term.phrases_mapAll, Phrase.identifiersAll_mapAll] at hname
    obtain ⟨text, htext, rfl⟩ := List.mem_map.1 hname
    refine text?_internWords_isSome ?_
    rw [words_of_readTerms hread]
    simpa using htext
  · obtain ⟨phrase, hunfolds⟩ := (Term.storeAll_spec _ _).2.exists_of_mem hroot
    obtain ⟨expr, hexpr⟩ := hunfolds.exists_expr
    rw [hexpr]
    rfl

end Document

end InputDetail
