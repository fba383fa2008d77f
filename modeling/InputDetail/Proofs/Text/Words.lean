import InputDetail.Proofs.Text.Lowercase

/-!
# Words

The words of two texts with a separator between them are those of the one and then those of the other.
What a word is made of are the lowercase forms of its characters. In a text of lowercase forms no word
begins inside a word that has been found, and such words are found again.
-/
namespace InputDetail.Text

variable {before next : Option Char} {text first second word : List Char}
  {others more : List (List Char)} {c d x separator : Char}

theorem consWord_append (word : List Char) (others more : List (List Char)) :
    consWord word (others ++ more) = consWord word others ++ more := by
  cases word <;> rfl

theorem mem_consWord (h : word ∈ consWord first others) : word = first ∧ first ≠ [] ∨ word ∈ others := by
  cases first with
  | nil => exact Or.inr h
  | cons c first =>
    obtain rfl | h := List.mem_cons.1 h
    · exact Or.inl ⟨rfl, List.cons_ne_nil _ _⟩
    · exact Or.inr h

theorem words_eq (text : List Char) :
    words text = consWord (scanWords none text).1 (scanWords none text).2 := rfl

theorem scanWords_separator (h : isSeparator c = true) (before : Option Char) (text : List Char) :
    scanWords before (c :: text) = ([], words text) := by
  rw [scanWords, if_pos h]
  rfl

theorem scanWords_start (h : isSeparator c = false)
    (hstarts : before.any (startsWord · c text.head?) = true) :
    scanWords before (c :: text) =
      ([], (lower c ++ (scanWords (some c) text).1) :: (scanWords (some c) text).2) := by
  simp [scanWords, h, hstarts]

theorem scanWords_inside (h : isSeparator c = false)
    (hstarts : before.any (startsWord · c text.head?) = false) :
    scanWords before (c :: text) =
      (lower c ++ (scanWords (some c) text).1, (scanWords (some c) text).2) := by
  simp [scanWords, h, hstarts]

/-- A separator that follows is as good as the end of the text. -/
theorem startsWord_head?_append (h : isSeparator separator = true) (x c : Char)
    (first second : List Char) :
    startsWord x c (first ++ separator :: second).head? = startsWord x c first.head? := by
  cases first with
  | nil => simp [startsWord, isLowercase_of_isSeparator h]
  | cons d first => rfl

theorem scanWords_append (h : isSeparator separator = true) (before : Option Char)
    (first second : List Char) : scanWords before (first ++ separator :: second) =
      ((scanWords before first).1, (scanWords before first).2 ++ words second) := by
  induction first generalizing before with
  | nil => exact scanWords_separator h before second
  | cons c first ih =>
    rw [List.cons_append]
    cases hc : isSeparator c with
    | true =>
      rw [scanWords_separator hc, scanWords_separator hc, words_eq, words_eq, ih, consWord_append]
    | false =>
      have hhead : before.any (startsWord · c (first ++ separator :: second).head?) =
          before.any (startsWord · c first.head?) := by
        simp only [startsWord_head?_append h]
      cases hstarts : before.any (startsWord · c first.head?) with
      | true =>
        rw [scanWords_start hc hstarts, scanWords_start hc (hhead.trans hstarts), ih, List.cons_append]
      | false => rw [scanWords_inside hc hstarts, scanWords_inside hc (hhead.trans hstarts), ih]

/-- Words lie on one side of a separator. -/
theorem words_append (h : isSeparator separator = true) (first second : List Char) :
    words (first ++ separator :: second) = words first ++ words second := by
  rw [words_eq, scanWords_append h, words_eq first, consWord_append]

theorem words_separator (h : isSeparator separator = true) (text : List Char) :
    words (separator :: text) = words text := words_append h [] text

theorem isSeparator_underscore : isSeparator '_' = true := by decide

/-- Words joined by underscores are read one by one. -/
theorem words_intercalate (others : List (List Char)) :
    words (List.intercalate ['_'] others) = others.flatMap words := by
  induction others with
  | nil => rfl
  | cons word others ih =>
    cases others with
    | nil => simp
    | cons next others =>
      rw [List.intercalate_cons_cons, List.append_assoc, List.singleton_append,
        words_append isSeparator_underscore, ih]
      simp only [List.flatMap_cons]

/-- The character is a lowercase form of a character of the text that is no separator. -/
def Lowers (text : List Char) (d : Char) : Prop := ∃ c ∈ text, isSeparator c = false ∧ d ∈ lower c

theorem Lowers.cons (h : Lowers text d) (c : Char) : Lowers (c :: text) d := by
  obtain ⟨e, hmem, he⟩ := h
  exact ⟨e, List.mem_cons_of_mem c hmem, he⟩

theorem lowers_scanWords (before : Option Char) (text : List Char) :
    (∀ d ∈ (scanWords before text).1, Lowers text d) ∧
      ∀ word ∈ (scanWords before text).2, word ≠ [] ∧ ∀ d ∈ word, Lowers text d := by
  induction text generalizing before with
  | nil => simp [scanWords]
  | cons c text ih =>
    cases hc : isSeparator c with
    | true =>
      rw [scanWords_separator hc]
      refine ⟨by simp, fun word hword => ?_⟩
      obtain ⟨rfl, hfilled⟩ | hword := mem_consWord hword
      · exact ⟨hfilled, fun d hd => ((ih none).1 d hd).cons c⟩
      · obtain ⟨hfilled, hlowers⟩ := (ih none).2 word hword
        exact ⟨hfilled, fun d hd => (hlowers d hd).cons c⟩
    | false =>
      have hfirst : ∀ d ∈ lower c ++ (scanWords (some c) text).1, Lowers (c :: text) d := by
        intro d hd
        obtain hd | hd := List.mem_append.1 hd
        · exact ⟨c, List.mem_cons_self, hc, hd⟩
        · exact ((ih (some c)).1 d hd).cons c
      have hothers : ∀ word ∈ (scanWords (some c) text).2,
          word ≠ [] ∧ ∀ d ∈ word, Lowers (c :: text) d := by
        intro word hword
        obtain ⟨hfilled, hlowers⟩ := (ih (some c)).2 word hword
        exact ⟨hfilled, fun d hd => (hlowers d hd).cons c⟩
      cases hstarts : before.any (startsWord · c text.head?) with
      | true =>
        rw [scanWords_start hc hstarts]
        have hfilled : lower c ++ (scanWords (some c) text).1 ≠ [] := by simp [lower_ne_nil]
        exact ⟨by simp, List.forall_mem_cons.2 ⟨⟨hfilled, hfirst⟩, hothers⟩⟩
      | false =>
        rw [scanWords_inside hc hstarts]
        exact ⟨hfirst, hothers⟩

theorem lowers_of_mem_words (h : word ∈ words text) : word ≠ [] ∧ ∀ d ∈ word, Lowers text d := by
  obtain ⟨hfirst, hothers⟩ := lowers_scanWords none text
  obtain ⟨rfl, hfilled⟩ | h := mem_consWord h
  · exact ⟨hfilled, hfirst⟩
  · exact hothers word h

theorem Lowers.lower_eq (h : Lowers text d) : lower d = [d] := by
  obtain ⟨c, -, -, hd⟩ := h
  exact lower_of_mem_lower hd

theorem Lowers.isSeparator_eq_false (h : Lowers text d) : isSeparator d = false := by
  obtain ⟨c, -, hc, hd⟩ := h
  exact isSeparator_of_mem_lower hc hd

/-- No word begins inside the text. -/
def Unbroken (text : List Char) : Prop :=
  ∀ before x c after, text = before ++ x :: c :: after → startsWord x c after.head? = false

theorem unbroken_nil : Unbroken [] := by
  intro before x c after h
  simp at h

theorem unbroken_singleton (x : Char) : Unbroken [x] := by
  intro before x c after h
  have hlength := congrArg List.length h
  simp only [List.length_append, List.length_cons, List.length_nil] at hlength
  omega

theorem unbroken_cons_cons : Unbroken (x :: c :: text) ↔
    startsWord x c text.head? = false ∧ Unbroken (c :: text) := by
  constructor
  · intro h
    refine ⟨h [] x c text rfl, fun before y d after heq => ?_⟩
    exact h (x :: before) y d after (by rw [heq]; rfl)
  · rintro ⟨hstarts, h⟩ before y d after heq
    cases before with
    | nil =>
      cases heq
      exact hstarts
    | cons e before =>
      rw [List.cons_append] at heq
      exact h before y d after (List.cons.inj heq).2

theorem unbroken_toList (before : Option Char) : Unbroken before.toList := by
  cases before with
  | none => exact unbroken_nil
  | some x => exact unbroken_singleton x

/-- Words joined by underscores are broken nowhere if no word is. -/
theorem unbroken_append_underscore :
    Unbroken (first ++ '_' :: second) ↔ Unbroken first ∧ Unbroken second := by
  have hsecond : Unbroken ('_' :: second) ↔ Unbroken second := by
    cases second with
    | nil => exact iff_of_true (unbroken_singleton _) unbroken_nil
    | cons c second =>
      rw [unbroken_cons_cons]
      exact and_iff_right (by simp [startsWord, show isLowercase '_' = false by decide,
        show isUppercase '_' = false by decide])
  induction first with
  | nil => exact hsecond.trans (and_iff_right unbroken_nil).symm
  | cons x first ih =>
    cases first with
    | nil =>
      have hstarts : startsWord x '_' second.head? = false := by
        simp [startsWord, show isUppercase '_' = false by decide]
      rw [List.singleton_append, unbroken_cons_cons, hsecond]
      simp only [hstarts, unbroken_singleton, true_and]
    | cons c first =>
      rw [List.cons_append, List.cons_append, unbroken_cons_cons, unbroken_cons_cons,
        startsWord_head?_append isSeparator_underscore, and_assoc]
      exact and_congr_right fun _ => ih

theorem unbroken_intercalate :
    Unbroken (List.intercalate ['_'] others) ↔ ∀ word ∈ others, Unbroken word := by
  induction others with
  | nil => exact iff_of_true unbroken_nil (by simp)
  | cons word others ih =>
    cases others with
    | nil => simp
    | cons next others =>
      rw [List.intercalate_cons_cons, List.append_assoc, List.singleton_append,
        unbroken_append_underscore, ih]
      exact List.forall_mem_cons.symm

/-- A text of lowercase forms in which no word begins is one word. -/
theorem scanWords_of_unbroken (hlower : ∀ c ∈ text, lower c = [c])
    (hletters : ∀ c ∈ text, isSeparator c = false) (h : Unbroken (before.toList ++ text)) :
    scanWords before text = (text, []) := by
  induction text generalizing before with
  | nil => rfl
  | cons c text ih =>
    have hstarts : before.any (startsWord · c text.head?) = false := by
      cases before with
      | none => rfl
      | some x => exact (unbroken_cons_cons.1 h).1
    have hrest : Unbroken (c :: text) := by
      cases before with
      | none => exact h
      | some x => exact (unbroken_cons_cons.1 h).2
    rw [List.forall_mem_cons] at hlower hletters
    have hscan : scanWords (some c) text = (text, []) := ih hlower.2 hletters.2 hrest
    rw [scanWords_inside hletters.1 hstarts, hscan, hlower.1]
    rfl

theorem words_of_unbroken (hfilled : text ≠ []) (hlower : ∀ c ∈ text, lower c = [c])
    (hletters : ∀ c ∈ text, isSeparator c = false) (h : Unbroken text) : words text = [text] := by
  have hscan : scanWords none text = (text, []) := scanWords_of_unbroken hlower hletters h
  obtain ⟨c, text, rfl⟩ := List.exists_cons_of_ne_nil hfilled
  rw [words_eq, hscan, consWord_cons]

theorem scanWords_begins (hlower : ∀ c ∈ text, lower c = [c]) (before : Option Char) :
    (scanWords before text).1 <+: text := by
  induction text generalizing before with
  | nil => exact List.prefix_refl _
  | cons c text ih =>
    cases hc : isSeparator c with
    | true =>
      rw [scanWords_separator hc]
      exact List.nil_prefix
    | false =>
      cases hstarts : before.any (startsWord · c text.head?) with
      | true =>
        rw [scanWords_start hc hstarts]
        exact List.nil_prefix
      | false =>
        rw [List.forall_mem_cons] at hlower
        rw [scanWords_inside hc hstarts, hlower.1, List.singleton_append, List.cons_prefix_cons]
        exact ⟨rfl, ih hlower.2 (some c)⟩

/-- Where no word begins, none begins if the text ends there. -/
theorem startsWord_of_begins (h : startsWord x c text.head? = false) (hbegin : word <+: text) :
    startsWord x c word.head? = false := by
  cases word with
  | nil =>
    cases hnext : text.head? with
    | none => rwa [hnext] at h
    | some d =>
      rw [hnext] at h
      simp only [startsWord, List.head?_nil, Option.any_none, Bool.and_false, Bool.or_false]
      simp only [startsWord, Bool.and_eq_false_iff, Bool.or_eq_false_iff] at h ⊢
      exact h.imp_right And.left
  | cons d word =>
    obtain ⟨rest, rfl⟩ := hbegin
    exact h

theorem unbroken_scanWords (hlower : ∀ c ∈ text, lower c = [c]) (before : Option Char) :
    Unbroken (before.toList ++ (scanWords before text).1) ∧
      ∀ word ∈ (scanWords before text).2, Unbroken word := by
  induction text generalizing before with
  | nil => exact ⟨by simpa [scanWords] using unbroken_toList before, by simp [scanWords]⟩
  | cons c text ih =>
    have hbefore := unbroken_toList before
    rw [List.forall_mem_cons] at hlower
    cases hc : isSeparator c with
    | true =>
      rw [scanWords_separator hc]
      refine ⟨by simpa using hbefore, fun word hword => ?_⟩
      obtain ⟨rfl, -⟩ | hword := mem_consWord hword
      · exact (ih hlower.2 none).1
      · exact (ih hlower.2 none).2 word hword
    | false =>
      obtain ⟨hword, hothers⟩ := ih hlower.2 (some c)
      cases hstarts : before.any (startsWord · c text.head?) with
      | true =>
        rw [scanWords_start hc hstarts, hlower.1]
        exact ⟨by simpa using hbefore, List.forall_mem_cons.2 ⟨hword, hothers⟩⟩
      | false =>
        rw [scanWords_inside hc hstarts, hlower.1]
        refine ⟨?_, hothers⟩
        cases before with
        | none => exact hword
        | some x =>
          exact unbroken_cons_cons.2
            ⟨startsWord_of_begins hstarts (scanWords_begins hlower.2 (some c)), hword⟩

theorem unbroken_of_mem_words (hlower : ∀ c ∈ text, lower c = [c]) (h : word ∈ words text) :
    Unbroken word := by
  obtain ⟨hfirst, hothers⟩ := unbroken_scanWords hlower none
  obtain ⟨rfl, -⟩ | h := mem_consWord h
  · exact hfirst
  · exact hothers word h

end InputDetail.Text
