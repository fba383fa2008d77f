import InputDetail.Document.Term
import InputDetail.Document.Token

/-!
# Phrases and their renderings

A phrase is an expression of the documentation language without its place in a text. Written down,
it is a fixed row of symbols. A list of statements is written as the rows of its statements, with
semicolons wherever one likes between them, and a row of symbols as their texts, with white space
wherever one likes before each.
-/
namespace InputDetail.Document

inductive Phrase (α : Type) where
  /-- `name(args)` -/
  | call (name : α) (args : List (Phrase α))
  /-- `receiver.name(args)` -/
  | access (receiver : Phrase α) (name : α) (args : List (Phrase α))
  /-- `array[field]` -/
  | index (array : Phrase α) (field : α)

namespace Phrase

variable {α β γ : Type}

mutual

/-- Replaces every identifier. -/
def map (f : α → β) : Phrase α → Phrase β
  | call name args => call (f name) (mapAll f args)
  | access receiver name args => access (map f receiver) (f name) (mapAll f args)
  | index array field => index (map f array) (f field)

def mapAll (f : α → β) : List (Phrase α) → List (Phrase β)
  | [] => []
  | phrase :: phrases => map f phrase :: mapAll f phrases

end

mutual

/-- The identifiers in the order in which they are written. -/
def identifiers : Phrase α → List α
  | call name args => name :: identifiersAll args
  | access receiver name args => identifiers receiver ++ name :: identifiersAll args
  | index array field => identifiers array ++ [field]

def identifiersAll : List (Phrase α) → List α
  | [] => []
  | phrase :: phrases => identifiers phrase ++ identifiersAll phrases

end

mutual

/-- The symbols of a phrase. -/
def symbols : Phrase String → List Symbol
  | call name args => .word name.toList :: .mark '(' :: (argumentSymbols args ++ [.mark ')'])
  | access receiver name args =>
    symbols receiver ++
      .mark '.' :: .word name.toList :: .mark '(' :: (argumentSymbols args ++ [.mark ')'])
  | index array field => symbols array ++ [.mark '[', .word field.toList, .mark ']']

/-- Arguments have commas between them. -/
def argumentSymbols : List (Phrase String) → List Symbol
  | [] => []
  | [arg] => symbols arg
  | arg :: next :: args => symbols arg ++ .mark ',' :: argumentSymbols (next :: args)

end

@[simp] theorem mapAll_eq_map (f : α → β) (phrases : List (Phrase α)) :
    mapAll f phrases = phrases.map (map f) := by
  induction phrases with
  | nil => rfl
  | cons phrase phrases ih => simp [mapAll, ih]

@[simp] theorem identifiersAll_eq_flatMap (phrases : List (Phrase α)) :
    identifiersAll phrases = phrases.flatMap identifiers := by
  induction phrases with
  | nil => rfl
  | cons phrase phrases ih => simp [identifiersAll, ih]

mutual

theorem map_map (f : α → β) (g : β → γ) :
    (phrase : Phrase α) → (phrase.map f).map g = phrase.map fun a => g (f a)
  | call name args => by rw [map, map, map, mapAll_mapAll f g args]
  | access receiver name args => by
    rw [map, map, map, map_map f g receiver, mapAll_mapAll f g args]
  | index array field => by rw [map, map, map, map_map f g array]

theorem mapAll_mapAll (f : α → β) (g : β → γ) :
    (phrases : List (Phrase α)) → mapAll g (mapAll f phrases) = mapAll (fun a => g (f a)) phrases
  | [] => rfl
  | phrase :: phrases => by rw [mapAll, mapAll, mapAll, map_map f g phrase, mapAll_mapAll f g phrases]

end

/-- Before a further argument, a comma follows each of the others. -/
theorem argumentSymbols_concat (args : List (Phrase String)) (arg : Phrase String) :
    argumentSymbols (args ++ [arg]) =
      args.flatMap (fun arg => arg.symbols ++ [.mark ',']) ++ arg.symbols := by
  induction args with
  | nil => simp [argumentSymbols]
  | cons first args ih =>
    cases args with
    | nil => simp [argumentSymbols]
    | cons next args =>
      simp only [List.cons_append, argumentSymbols] at ih ⊢
      simp [ih]

end Phrase

namespace Term

variable {α β : Type}

mutual

/-- What a term says, wherever it stands. -/
def phrase : Term α → Phrase α
  | call name args _ => .call name (phrases args)
  | access receiver name args _ => .access (phrase receiver) name (phrases args)
  | index array field _ _ => .index (phrase array) field

def phrases : List (Term α) → List (Phrase α)
  | [] => []
  | term :: terms => phrase term :: phrases terms

end

@[simp] theorem phrases_eq_map (terms : List (Term α)) : phrases terms = terms.map phrase := by
  induction terms with
  | nil => rfl
  | cons term terms ih => simp [phrases, ih]

mutual

/-- Replacing identifiers is the same in a term and in what it says. -/
theorem phrase_map (f : α → β) : (term : Term α) → (term.map f).phrase = term.phrase.map f
  | call name args span => by
    rw [map, phrase, phrase, Phrase.map, phrases_mapAll f args]
  | access receiver name args span => by
    rw [map, phrase, phrase, Phrase.map, phrase_map f receiver, phrases_mapAll f args]
  | index array field fieldSpan span => by
    rw [map, phrase, phrase, Phrase.map, phrase_map f array]

theorem phrases_mapAll (f : α → β) :
    (terms : List (Term α)) → phrases (mapAll f terms) = Phrase.mapAll f (phrases terms)
  | [] => rfl
  | term :: terms => by
    rw [mapAll, phrases, phrases, Phrase.mapAll, phrase_map f term, phrases_mapAll f terms]

end

end Term

/-- The rows of symbols of a list of statements. -/
inductive Layout : List (Phrase String) → List Symbol → Prop
  | nil : Layout [] []
  | semicolon {statements symbols} (rest : Layout statements symbols) :
      Layout statements (.mark ';' :: symbols)
  | statement {statements symbols} (phrase : Phrase String) (rest : Layout statements symbols) :
      Layout (phrase :: statements) (phrase.symbols ++ symbols)

/-- The text consists of the symbols, with white space before each and at the end. -/
inductive Spells : List Symbol → List Char → Prop
  | nil {blank} (white : ∀ c ∈ blank, isSpace c = true) : Spells [] blank
  | word {blank word symbols text} (white : ∀ c ∈ blank, isSpace c = true) (filled : word ≠ [])
      (letters : ∀ c ∈ word, isWordChar c = true) (rest : Spells symbols text) :
      Spells (.word word :: symbols) (blank ++ (word ++ text))
  | mark {blank c symbols text} (white : ∀ c ∈ blank, isSpace c = true) (dark : isSpace c = false)
      (sign : isWordChar c = false) (rest : Spells symbols text) :
      Spells (.mark c :: symbols) (blank ++ c :: text)

/-- The text is a way to write the statements. -/
def Renders (statements : List (Phrase String)) (source : String) : Prop :=
  ∃ symbols, Layout statements symbols ∧ Spells symbols source.toList

namespace Layout

variable {statements others : List (Phrase String)} {symbols row : List Symbol}

theorem append (h : Layout statements symbols) (h' : Layout others row) :
    Layout (statements ++ others) (symbols ++ row) := by
  induction h with
  | nil => exact h'
  | semicolon _ ih => exact .semicolon ih
  | statement phrase _ ih => simpa using ih.statement phrase

theorem single (phrase : Phrase String) : Layout [phrase] phrase.symbols := by
  simpa using nil.statement phrase

end Layout

/-- The character is a mark wherever it stands. -/
def IsMark (c : Char) : Prop := isSpace c = false ∧ isWordChar c = false

instance (c : Char) : Decidable (IsMark c) := inferInstanceAs (Decidable (_ ∧ _))

/-- A mark follows every word. -/
inductive Separated : List Symbol → Prop
  | nil : Separated []
  | mark {c symbols} (sign : IsMark c) (rest : Separated symbols) : Separated (.mark c :: symbols)
  | word {c symbols} (text : List Char) (sign : IsMark c) (rest : Separated symbols) :
      Separated (.word text :: .mark c :: symbols)

theorem Separated.append {symbols row : List Symbol} (h : Separated symbols) (h' : Separated row) :
    Separated (symbols ++ row) := by
  induction h with
  | nil => exact h'
  | mark sign _ ih => exact .mark sign ih
  | word text sign _ ih => exact .word text sign ih

namespace Phrase

mutual

/-- No two words of a phrase touch. -/
theorem separated_symbols : (phrase : Phrase String) → Separated phrase.symbols
  | call name args => by
    have hargs := (separated_argumentSymbols args).append (.mark (c := ')') (by decide) .nil)
    exact .word name.toList (by decide) hargs
  | access receiver name args => by
    have hargs := (separated_argumentSymbols args).append (.mark (c := ')') (by decide) .nil)
    exact (separated_symbols receiver).append
      (.mark (by decide) (.word name.toList (by decide) hargs))
  | index array field => by
    exact (separated_symbols array).append
      (.mark (by decide) (.word field.toList (by decide) .nil))

theorem separated_argumentSymbols :
    (args : List (Phrase String)) → Separated (argumentSymbols args)
  | [] => .nil
  | [arg] => separated_symbols arg
  | arg :: next :: args =>
    (separated_symbols arg).append (.mark (by decide) (separated_argumentSymbols (next :: args)))

end

end Phrase

theorem Layout.separated {statements : List (Phrase String)} {symbols : List Symbol}
    (h : Layout statements symbols) : Separated symbols := by
  induction h with
  | nil => exact .nil
  | semicolon _ ih => exact .mark (by decide) ih
  | statement phrase _ ih => exact phrase.separated_symbols.append ih

/-- The text of a word. -/
def Symbol.word? : Symbol → Option String
  | .word text => some (String.ofList text)
  | .mark _ => none

@[simp] theorem Symbol.word?_word (text : List Char) :
    (Symbol.word text).word? = some (String.ofList text) := rfl

@[simp] theorem Symbol.word?_mark (c : Char) : (Symbol.mark c).word? = none := rfl

namespace Phrase

mutual

theorem words_symbols :
    (phrase : Phrase String) → phrase.symbols.filterMap Symbol.word? = phrase.identifiers
  | call name args => by
    simpa [symbols, identifiers, List.filterMap_cons] using words_argumentSymbols args
  | access receiver name args => by
    simpa [symbols, identifiers, List.filterMap_cons, words_symbols receiver]
      using words_argumentSymbols args
  | index array field => by
    simp [symbols, identifiers, List.filterMap_cons, words_symbols array]

theorem words_argumentSymbols :
    (args : List (Phrase String)) →
      (argumentSymbols args).filterMap Symbol.word? = identifiersAll args
  | [] => rfl
  | [arg] => by simp [argumentSymbols, words_symbols arg]
  | arg :: next :: args => by
    rw [argumentSymbols, identifiersAll, List.filterMap_append, words_symbols arg,
      List.filterMap_cons_none rfl, words_argumentSymbols (next :: args)]

end

end Phrase

/-- The words of a layout are the identifiers of its statements, in order. -/
theorem Layout.words {statements : List (Phrase String)} {symbols : List Symbol}
    (h : Layout statements symbols) :
    symbols.filterMap Symbol.word? = statements.flatMap Phrase.identifiers := by
  induction h with
  | nil => rfl
  | semicolon _ ih => simpa [List.filterMap_cons] using ih
  | statement phrase _ ih => simp [phrase.words_symbols, ih]

/-- The text is an identifier as the documentation language writes them. -/
def IsIdentifier (text : String) : Prop :=
  text.toList ≠ [] ∧ ∀ c ∈ text.toList, isWordChar c = true

theorem Spells.identifiers {symbols : List Symbol} {text : List Char} (h : Spells symbols text) :
    ∀ word ∈ symbols.filterMap Symbol.word?, IsIdentifier word := by
  induction h with
  | nil => simp
  | word _ filled letters _ ih =>
    rw [List.filterMap_cons_some (Symbol.word?_word _), List.forall_mem_cons]
    exact ⟨by simpa [IsIdentifier] using ⟨filled, letters⟩, ih⟩
  | mark _ _ _ _ ih => simpa [List.filterMap_cons] using ih

theorem Separated.exists_spells {symbols : List Symbol} (h : Separated symbols)
    (hwords : ∀ word ∈ symbols.filterMap Symbol.word?, IsIdentifier word) :
    ∃ text, Spells symbols text := by
  have hnone : ∀ c ∈ ([] : List Char), isSpace c = true := by simp
  induction h with
  | nil => exact ⟨[], .nil hnone⟩
  | mark sign _ ih =>
    obtain ⟨text, hspells⟩ := ih (by simpa [List.filterMap_cons] using hwords)
    exact ⟨_, .mark hnone sign.1 sign.2 hspells⟩
  | word word sign _ ih =>
    rw [List.filterMap_cons_some (Symbol.word?_word _), List.forall_mem_cons,
      List.filterMap_cons_none (Symbol.word?_mark _)] at hwords
    obtain ⟨⟨hfilled, hletters⟩, hrest⟩ := hwords
    rw [String.toList_ofList] at hfilled hletters
    obtain ⟨text, hspells⟩ := ih hrest
    exact ⟨_, .word hnone hfilled hletters (.mark hnone sign.1 sign.2 hspells)⟩

theorem layout_flatMap (statements : List (Phrase String)) :
    Layout statements (statements.flatMap Phrase.symbols) := by
  induction statements with
  | nil => exact .nil
  | cons phrase statements ih => exact .statement phrase ih

/-- Statements can be written exactly if all their identifiers can. -/
theorem exists_renders_iff {statements : List (Phrase String)} :
    (∃ source, Renders statements source) ↔
      ∀ text ∈ statements.flatMap Phrase.identifiers, IsIdentifier text := by
  constructor
  · rintro ⟨source, symbols, hlayout, hspells⟩
    rw [← hlayout.words]
    exact hspells.identifiers
  · intro hidentifiers
    have hlayout := layout_flatMap statements
    rw [← hlayout.words] at hidentifiers
    obtain ⟨text, hspells⟩ := hlayout.separated.exists_spells hidentifiers
    exact ⟨String.ofList text, _, hlayout, by rwa [String.toList_ofList]⟩

end InputDetail.Document
