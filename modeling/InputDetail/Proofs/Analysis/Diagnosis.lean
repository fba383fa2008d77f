import InputDetail.Proofs.Outline.Render
import InputDetail.Proofs.Types.Acyclic

/-!
# Diagnostics of failures

A failure mentions names by their numbers. Its diagnostic spells them out, so there is one if they are
known, and the names of the types with them. It has the code of the failure and points to its place.
-/
namespace InputDetail

variable {types : TypeTable} {names : NameTable}

/-- The names that have to be known to say what is wrong with a member. The names of types are apart. -/
def MemberError.mentioned : MemberError → List Name
  | .unknownMember _ member => [member]
  | _ => []

/-- Only the member itself can be unknown. -/
theorem TypeTable.eq_of_mem_mentioned {type : TypeId} {name : Name} {cause : MemberError}
    (h : types.resolve type name = .error cause) : ∀ other ∈ cause.mentioned, other = name := by
  have hstruct := structOf_of_error h
  cases cause with
  | unknownMember owner missing =>
    obtain ⟨-, -, rfl⟩ := hstruct
    exact fun other hmem => List.mem_singleton.1 hmem
  | notStructured type kind => exact nofun
  | listOfNonStruct list kind => exact nofun
  | unknownType unknown => exact nofun

theorem MemberError.note?_isSome (hlists : types.Acyclic) (hnamed : types.Named names)
    {cause : MemberError} (h : ∀ name ∈ cause.mentioned, (names.text? name).isSome) :
    (cause.note? types names).isSome := by
  have hwritten : ∀ type, ∃ text, types.write? names type = some text :=
    fun type => Option.isSome_iff_exists.1 (hlists.write?_isSome hnamed type)
  cases cause with
  | notStructured type kind =>
    obtain ⟨text, htext⟩ := hwritten type
    simp [note?, htext]
  | listOfNonStruct list kind =>
    obtain ⟨text, htext⟩ := hwritten list
    simp [note?, htext]
  | unknownMember type member =>
    obtain ⟨text, htext⟩ := hwritten type
    obtain ⟨known, hknown⟩ := Option.isSome_iff_exists.1 (h member (List.mem_singleton_self _))
    simp [note?, htext, hknown]
  | unknownType type => rfl

theorem NameTable.qualified?_isSome {parameter : Name} {path : List Name}
    (h : ∀ name ∈ parameter :: path, (names.text? name).isSome) :
    (names.qualified? parameter path).isSome := by
  obtain ⟨texts, htexts⟩ := Option.isSome_iff_exists.1 (Outline.mapM_isSome h)
  rw [NameTable.qualified?, htexts]
  rfl

namespace AnalysisError

variable {error : AnalysisError}

/-- The names that have to be known to report the failure, besides those of types. -/
def mentioned : AnalysisError → List Name
  | unknownParameter name _ => [name]
  | structuralMismatch parameter path cause _ => parameter :: path ++ cause.mentioned
  | simpleParameterExpected parameter _ => [parameter]
  | conflictingStatus parameter path _ => parameter :: path
  | _ => []

/-- A failure that mentions known names only has a diagnostic. -/
theorem diagnostic?_isSome (hlists : types.Acyclic) (hnamed : types.Named names)
    (h : ∀ name ∈ error.mentioned, (names.text? name).isSome) :
    (error.diagnostic? types names).isSome := by
  cases error with
  | parse failure => rfl
  | unsupportedExpression span cause => rfl
  | invalidCollectionIndex span => rfl
  | malformedAlternation span defect => rfl
  | internal error => rfl
  | unknownParameter name span =>
    obtain ⟨text, htext⟩ := Option.isSome_iff_exists.1 (h name (List.mem_singleton_self _))
    simp [diagnostic?, htext]
  | simpleParameterExpected parameter span =>
    obtain ⟨text, htext⟩ := Option.isSome_iff_exists.1 (h parameter (List.mem_singleton_self _))
    simp [diagnostic?, htext]
  | conflictingStatus parameter path span =>
    obtain ⟨text, htext⟩ := Option.isSome_iff_exists.1 (NameTable.qualified?_isSome h)
    simp [diagnostic?, htext]
  | structuralMismatch parameter path cause span =>
    obtain ⟨hpath, hcause⟩ := List.forall_mem_append.1 h
    obtain ⟨member, hmember⟩ := Option.isSome_iff_exists.1 (NameTable.qualified?_isSome hpath)
    obtain ⟨text, htext⟩ := Option.isSome_iff_exists.1 (hpath parameter List.mem_cons_self)
    obtain ⟨note, hnote⟩ := Option.isSome_iff_exists.1 (cause.note?_isSome hlists hnamed hcause)
    simp [diagnostic?, hmember, htext, hnote]

/-- A diagnostic has the code of the failure, and its first label is at the place of the failure. -/
theorem code_of_diagnostic? {diagnostic : Diagnostic}
    (h : error.diagnostic? types names = some diagnostic) :
    diagnostic.code = error.code ∧ diagnostic.primarySpan = error.span? := by
  cases error with
  | parse failure => cases h; exact ⟨rfl, rfl⟩
  | unsupportedExpression span cause => cases h; exact ⟨rfl, rfl⟩
  | invalidCollectionIndex span => cases h; exact ⟨rfl, rfl⟩
  | malformedAlternation span defect => cases h; exact ⟨rfl, rfl⟩
  | internal error => cases h; exact ⟨rfl, rfl⟩
  | unknownParameter name span =>
    obtain ⟨_, -, heq⟩ := Option.bind_eq_some_iff.1 h
    cases heq
    exact ⟨rfl, rfl⟩
  | simpleParameterExpected parameter span =>
    obtain ⟨_, -, heq⟩ := Option.bind_eq_some_iff.1 h
    cases heq
    exact ⟨rfl, rfl⟩
  | conflictingStatus parameter path span =>
    obtain ⟨_, -, heq⟩ := Option.bind_eq_some_iff.1 h
    cases heq
    exact ⟨rfl, rfl⟩
  | structuralMismatch parameter path cause span =>
    obtain ⟨_, -, h⟩ := Option.bind_eq_some_iff.1 h
    obtain ⟨_, -, h⟩ := Option.bind_eq_some_iff.1 h
    obtain ⟨_, -, heq⟩ := Option.bind_eq_some_iff.1 h
    cases heq
    exact ⟨rfl, rfl⟩

end AnalysisError

end InputDetail
