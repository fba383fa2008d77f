import InputDetail.Proofs.Text.Canonical

/-!
# The shape of canonical spellings

A canonical spelling is made of words with single underscores between them, and of nothing else. Without
the underscores it is the text in lowercase, less its separators: no character is lost, none is added,
and none changes its place.
-/
namespace InputDetail.Text

variable {first second : List Char} {others : List (List Char)}

theorem flatten_consWord (word : List Char) (others : List (List Char)) :
    (consWord word others).flatten = word ++ others.flatten := by
  cases word <;> rfl

/-- Wherever words begin, the characters inside words stay in order. -/
theorem flatten_scanWords (before : Option Char) (text : List Char) :
    (scanWords before text).1 ++ (scanWords before text).2.flatten =
      (text.filter fun c => !isSeparator c).flatMap lower := by
  induction text generalizing before with
  | nil => rfl
  | cons c text ih =>
    cases hc : isSeparator c with
    | true =>
      have hskip : ((c :: text).filter fun c => !isSeparator c) = text.filter fun c => !isSeparator c :=
        List.filter_cons_of_neg (by simp [hc])
      rw [scanWords_separator hc, List.nil_append, words_eq, flatten_consWord, ih, hskip]
    | false =>
      have hkeep : ((c :: text).filter fun c => !isSeparator c) =
          c :: text.filter fun c => !isSeparator c := List.filter_cons_of_pos (by simp [hc])
      rw [hkeep, List.flatMap_cons, ← ih (some c)]
      cases hstarts : before.any (startsWord · c text.head?) with
      | true =>
        rw [scanWords_start hc hstarts, List.nil_append, List.flatten_cons, List.append_assoc]
      | false => rw [scanWords_inside hc hstarts, List.append_assoc]

theorem flatten_words (text : List Char) :
    (words text).flatten = (text.filter fun c => !isSeparator c).flatMap lower := by
  rw [words_eq, flatten_consWord, flatten_scanWords]

theorem underscore_notMem {word : List Char} (h : ∀ c ∈ word, isSeparator c = false) :
    '_' ∉ word := by
  intro hmem
  have hletter := h _ hmem
  rw [isSeparator_underscore] at hletter
  cases hletter

/-- Joined words are the words themselves without the underscores. -/
theorem filter_intercalate (h : ∀ word ∈ others, ∀ c ∈ word, isSeparator c = false) :
    (List.intercalate ['_'] others).filter (· != '_') = others.flatten := by
  have hword : ∀ word ∈ others, word.filter (· != '_') = word := by
    intro word hmem
    refine List.filter_eq_self.2 fun c hc => bne_iff_ne.2 ?_
    rintro rfl
    exact underscore_notMem (h word hmem) hc
  clear h
  induction others with
  | nil => rfl
  | cons word others ih =>
    rw [List.forall_mem_cons] at hword
    cases others with
    | nil => simpa using hword.1
    | cons next others =>
      rw [List.intercalate_cons_cons, List.filter_append, List.filter_append, hword.1, ih hword.2]
      simp

/-- Behind a word without underscores, an underscore is the one that follows it or comes later. -/
theorem append_underscore_cases {word rest : List Char} (hword : '_' ∉ word)
    (h : word ++ '_' :: rest = first ++ '_' :: second) :
    first = word ∧ second = rest ∨
      ∃ between, first = word ++ '_' :: between ∧ rest = between ++ '_' :: second := by
  obtain ⟨between, rfl, hbetween⟩ | ⟨between, rfl, hbetween⟩ := List.append_eq_append_iff.1 h
  · cases between with
    | nil => exact Or.inl ⟨List.append_nil _, (List.cons.inj hbetween).2.symm⟩
    | cons c between =>
      obtain ⟨rfl, hrest⟩ := List.cons.inj hbetween
      exact Or.inr ⟨between, rfl, hrest⟩
  · cases between with
    | nil => exact Or.inl ⟨(List.append_nil _).symm, (List.cons.inj hbetween).2⟩
    | cons c between =>
      obtain ⟨rfl, -⟩ := List.cons.inj hbetween
      exact absurd (by simp) hword

/-- Between filled words an underscore has a character of a word on either side. -/
theorem exists_around_underscore
    (hwords : ∀ word ∈ others, word ≠ [] ∧ ∀ c ∈ word, isSeparator c = false)
    (h : List.intercalate ['_'] others = first ++ '_' :: second) :
    ∃ x ∈ first.getLast?, ∃ y ∈ second.head?, isSeparator x = false ∧ isSeparator y = false := by
  induction others generalizing first with
  | nil => simp at h
  | cons word others ih =>
    rw [List.forall_mem_cons] at hwords
    obtain ⟨⟨hfilled, hletters⟩, hothers⟩ := hwords
    have hword := underscore_notMem hletters
    cases others with
    | nil =>
      rw [List.intercalate_singleton] at h
      exact absurd (by simp [h]) hword
    | cons next others =>
      rw [List.intercalate_cons_cons, List.append_assoc, List.singleton_append] at h
      obtain ⟨rfl, hsecond⟩ | ⟨between, rfl, hrest⟩ := append_underscore_cases hword h
      · obtain ⟨hnext, hnextLetters⟩ := hothers next List.mem_cons_self
        obtain ⟨y, next, rfl⟩ := List.exists_cons_of_ne_nil hnext
        refine ⟨first.getLast hfilled, List.getLast?_eq_some_getLast hfilled, y, ?_,
          hletters _ (List.getLast_mem hfilled), hnextLetters y List.mem_cons_self⟩
        rw [hsecond]
        cases others <;> simp
      · obtain ⟨x, hx, y, hy, hletters'⟩ := ih hothers hrest
        refine ⟨x, ?_, y, hy, hletters'⟩
        rw [Option.mem_def] at hx ⊢
        simp [List.getLast?_cons, hx]

/-- A canonical spelling is made of filled words that are joined by underscores and have no separators
in them. So each underscore has a character of a word on either side, there is none at an end and no two
stand together, and there are no hyphens and no blank characters. Without the underscores, the lowercase
forms of exactly the characters of the text are left that are no separators, in their order. -/
theorem canonical_shape (text : String) :
    (∃ list, (canonical text).toList = List.intercalate ['_'] list ∧
      ∀ word ∈ list, word ≠ [] ∧ ∀ c ∈ word, isSeparator c = false) ∧
    (∀ first second, (canonical text).toList = first ++ '_' :: second →
      ∃ x ∈ first.getLast?, ∃ y ∈ second.head?, isSeparator x = false ∧ isSeparator y = false) ∧
    (∀ c ∈ (canonical text).toList, c ≠ '-' ∧ isBlank c = false) ∧
    (canonical text).toList.filter (· != '_') =
      (text.toList.filter fun c => !isSeparator c).flatMap lower := by
  have hwords : ∀ word ∈ words text.toList, word ≠ [] ∧ ∀ c ∈ word, isSeparator c = false := by
    intro word hmem
    obtain ⟨hfilled, hlowers⟩ := lowers_of_mem_words hmem
    exact ⟨hfilled, fun c hc => (hlowers c hc).isSeparator_eq_false⟩
  refine ⟨⟨_, toList_canonical text, hwords⟩, fun first second h => ?_, fun c hc => ?_, ?_⟩
  · rw [toList_canonical] at h
    exact exists_around_underscore hwords h
  · obtain rfl | hlowers := mem_canonical hc
    · decide
    · have hletter := hlowers.isSeparator_eq_false
      simp only [isSeparator, Bool.or_eq_false_iff, beq_eq_false_iff_ne] at hletter
      exact ⟨hletter.1.2, hletter.2⟩
  · rw [toList_canonical, filter_intercalate fun word hmem => (hwords word hmem).2, flatten_words]

end InputDetail.Text
