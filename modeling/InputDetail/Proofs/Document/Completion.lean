import InputDetail.Proofs.Document.Reading
import InputDetail.Proofs.Document.Scan

/-!
# Completing a block

What a reader has read can always be completed: first the call or the index at its place, then the calls
that are open, each with a closing parenthesis. Whether it can go on with a token depends on the token's
first character alone, and it never goes on with a character that is not ASCII.
-/
namespace InputDetail.Document

variable {statements : List (Term String)} {calls : List OpenCall} {reader : Reader}
  {row : List Symbol} {token : Token} {c : Char} {span : Span}

/-- Completes the call or the index at the place. -/
def Place.rest : Place → List Symbol
  | .between => []
  | .head _ => [.mark '(', .mark ')']
  | .firstArgument _ => [.mark ')']
  | .nextArgument _ => [.word ['x'], .mark '(', .mark ')', .mark ')']
  | .term _ => []
  | .receiver _ => [.word ['x'], .mark '(', .mark ')']
  | .array _ => [.word ['x'], .mark ']']
  | .field _ _ _ => [.mark ']']

/-- Closes `n` calls. -/
def closing (n : Nat) : List Symbol := List.replicate n (.mark ')')

/-- Completes the block. -/
def Reader.rest (reader : Reader) : List Symbol := reader.place.rest ++ closing reader.calls.length

/-- A token that stands in no text. -/
def Symbol.anywhere (symbol : Symbol) : Token := ⟨symbol, .nowhere⟩

theorem symbols_map_anywhere (row : List Symbol) : (row.map Symbol.anywhere).map (·.symbol) = row := by
  induction row with
  | nil => rfl
  | cons symbol row ih => rw [List.map_cons, List.map_cons, ih]; rfl

namespace Reader

theorem reads_closing (statements : List (Term String)) (term : Term String)
    (calls : List OpenCall) : ∃ last,
      reads ⟨statements, .term term, calls⟩ ((closing calls.length).map Symbol.anywhere) =
        some ⟨statements, .term last, []⟩ := by
  induction calls generalizing term with
  | nil => exact ⟨term, rfl⟩
  | cons call calls ih => exact ih ((call.add term).close Span.nowhere.stop)

/-- Inside a statement, the place is completed to a term. -/
theorem reads_rest {place : Place} (h : place ≠ .between) (statements : List (Term String))
    (calls : List OpenCall) :
    ∃ term, reads ⟨statements, place, calls⟩ (place.rest.map Symbol.anywhere) =
      some ⟨statements, .term term, calls⟩ := by
  cases place with
  | between => exact absurd rfl h
  | head _ => exact ⟨_, rfl⟩
  | firstArgument _ => exact ⟨_, rfl⟩
  | nextArgument _ => exact ⟨_, rfl⟩
  | term _ => exact ⟨_, rfl⟩
  | receiver _ => exact ⟨_, rfl⟩
  | array _ => exact ⟨_, rfl⟩
  | field _ _ _ => exact ⟨_, rfl⟩

/-- Whatever has been read is the beginning of a layout. -/
theorem Consumed.exists_layout (h : reader.Consumed row) :
    ∃ phrases, Layout phrases (row ++ reader.rest) := by
  obtain ⟨final, terms, hreads, hfinish⟩ : ∃ final terms,
      reader.reads (reader.rest.map Symbol.anywhere) = some final ∧ final.finish = some terms := by
    obtain ⟨statements, place, calls⟩ := reader
    by_cases hplace : place = .between
    · obtain rfl := hplace
      obtain rfl : calls = [] := h.outside rfl
      exact ⟨_, statements, rfl, rfl⟩
    · obtain ⟨term, hterm⟩ := reads_rest hplace statements calls
      obtain ⟨last, hlast⟩ := reads_closing statements term calls
      refine ⟨⟨statements, .term last, []⟩, statements ++ [last], ?_, rfl⟩
      rw [rest, List.map_append, reads_append, hterm, Option.bind_some, hlast]
  have hlayout := (h.reads hreads).layout hfinish
  rw [symbols_map_anywhere] at hlayout
  exact ⟨_, hlayout⟩

end Reader

theorem separated_closing (n : Nat) : Separated (closing n) := by
  induction n with
  | zero => exact .nil
  | succ n ih => exact .mark (by decide) ih

theorem Place.separated_rest (place : Place) : Separated place.rest := by
  cases place with
  | between => exact .nil
  | head _ => exact .mark (by decide) (.mark (by decide) .nil)
  | firstArgument _ => exact .mark (by decide) .nil
  | nextArgument _ => exact .word _ (by decide) (.mark (by decide) (.mark (by decide) .nil))
  | term _ => exact .nil
  | receiver _ => exact .word _ (by decide) (.mark (by decide) .nil)
  | array _ => exact .word _ (by decide) .nil
  | field _ _ _ => exact .mark (by decide) .nil

theorem words_closing (n : Nat) : (closing n).filterMap Symbol.word? = [] := by
  rw [List.filterMap_eq_nil_iff]
  intro symbol hmem
  rw [List.eq_of_mem_replicate hmem]
  rfl

theorem Place.words_rest (place : Place) :
    ∀ word ∈ place.rest.filterMap Symbol.word?, word = "x" := by
  cases place <;> simp [rest, List.filterMap_cons]

/-- The rest of a block can be written down. -/
theorem Reader.exists_spells_rest (reader : Reader) : ∃ text, Spells reader.rest text := by
  refine (reader.place.separated_rest.append (separated_closing _)).exists_spells fun word hmem => ?_
  rw [List.filterMap_append, words_closing, List.append_nil] at hmem
  rw [reader.place.words_rest word hmem]
  exact ⟨by decide, List.all_eq_true.1 (by decide)⟩

/-- A token that begins with the character. -/
inductive Begins (c : Char) : Symbol → Prop
  | word (text : List Char) (letter : isWordChar c = true) : Begins c (.word text)
  | mark (sign : IsMark c) : Begins c (.mark c)

namespace Reader

/-- The reader goes on alike with all tokens that begin with the same character. -/
theorem Step.exists_of_begins {next : Reader} {other : Token} (h : reader.Step other next)
    (hother : Begins c other.symbol) (hbegins : Begins c token.symbol) :
    ∃ next', reader.Step token next' := by
  obtain ⟨symbol, span⟩ := token
  obtain ⟨symbol', span'⟩ := other
  cases hother with
  | word text' letter =>
    cases hbegins with
    | mark sign => exact Bool.noConfusion (letter.symm.trans sign.2)
    | word text _ =>
      cases h with
      | statement => exact ⟨_, .statement ..⟩
      | nextStatement => exact ⟨_, .nextStatement ..⟩
      | firstArgument => exact ⟨_, .firstArgument ..⟩
      | nextArgument => exact ⟨_, .nextArgument ..⟩
      | member => exact ⟨_, .member ..⟩
      | field => exact ⟨_, .field ..⟩
  | mark sign =>
    cases hbegins with
    | word text letter => exact Bool.noConfusion (letter.symm.trans sign.2)
    | mark _ =>
      cases h with
      | gap => exact ⟨_, .gap ..⟩
      | semicolon => exact ⟨_, .semicolon ..⟩
      | openCall => exact ⟨_, .openCall ..⟩
      | closeEmpty => exact ⟨_, .closeEmpty ..⟩
      | comma => exact ⟨_, .comma ..⟩
      | closeCall => exact ⟨_, .closeCall ..⟩
      | point => exact ⟨_, .point ..⟩
      | bracket => exact ⟨_, .bracket ..⟩
      | closeIndex => exact ⟨_, .closeIndex ..⟩

/-- Another token that begins with the same character cannot follow either. -/
theorem read_eq_none {other : Token} (h : reader.read token = none) (hbegins : Begins c token.symbol)
    (hother : Begins c other.symbol) : reader.read other = none := by
  refine Option.eq_none_iff_forall_not_mem.2 fun next hread => ?_
  obtain ⟨next', hstep⟩ := (read_eq_some_iff.1 hread).exists_of_begins hother hbegins
  rw [read_eq_some_iff.2 hstep] at h
  cases h

/-- No token begins with a character of several bytes. -/
theorem read_eq_none_of_utf8Size (hc : c.utf8Size ≠ 1) (hbegins : Begins c token.symbol) :
    reader.read token = none := by
  obtain ⟨symbol, span⟩ := token
  cases hbegins with
  | word text letter => exact absurd (utf8Size_eq_one_of_isWordChar letter) hc
  | mark sign =>
    refine Option.eq_none_iff_forall_not_mem.2 fun next hread => hc ?_
    cases read_eq_some_iff.1 hread <;> rfl

end Reader

end InputDetail.Document
