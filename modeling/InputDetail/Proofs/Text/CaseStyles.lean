import InputDetail.Proofs.Name.Requests
import InputDetail.Proofs.Text.Words

/-!
# Case styles

An identifier may be written in any of the usual styles, with separators around and between its words,
if these are plain: a small letter and then at least one more small letter or digit. Splitting gives the
words back, as each ends with a character after which a capital begins a word, and has no capital behind
its first character. So identifiers have the same name exactly if they are made of the same words.
-/
namespace InputDetail.Text

variable {c : Char}

/-- A small letter or a digit of ASCII. -/
def isPlainChar (c : Char) : Bool := c.isLower || c.isDigit

/-- Two or more small letters and digits of ASCII, a letter first. -/
inductive IsPlain : List Char → Prop
  | intro {c rest} (letter : c.isLower = true) (filled : rest ≠ [])
      (plain : ∀ d ∈ rest, isPlainChar d = true) : IsPlain (c :: rest)

/-- The word with a capital first letter. -/
def capitalize : List Char → List Char
  | [] => []
  | c :: rest => c.toUpper :: rest

theorem isLower_iff : c.isLower = true ↔ 97 ≤ c.toNat ∧ c.toNat ≤ 122 := by
  delta Char.isLower
  simp [UInt32.le_iff_toNat_le, ← Char.toNat_val]

theorem isDigit_iff : c.isDigit = true ↔ 48 ≤ c.toNat ∧ c.toNat ≤ 57 := by
  delta Char.isDigit
  simp [UInt32.le_iff_toNat_le, ← Char.toNat_val]

theorem isSmall_of_isPlainChar (h : isPlainChar c = true) : IsSmall c := by
  have hruns : bitsAll [⟨48, 57, 1⟩, ⟨97, 122, 1⟩] &&& bitsAll foreignRuns = 0 := by decide +kernel
  refine isSmall_of_inRuns (inRuns_eq_false_of_bitsAll hruns ?_)
  rw [isPlainChar, Bool.or_eq_true, isLower_iff, isDigit_iff] at h
  have hcontains : ∀ {first last}, first ≤ c.toNat ∧ c.toNat ≤ last →
      CodeRun.contains ⟨first, last, 1⟩ c.toNat = true :=
    fun hrun => CodeRun.contains_iff.2 ⟨hrun.1, hrun.2, Nat.mod_one _⟩
  obtain h | h := h
  · exact inRuns_iff.2 ⟨⟨97, 122, 1⟩, by simp, hcontains h⟩
  · exact inRuns_iff.2 ⟨⟨48, 57, 1⟩, by simp, hcontains h⟩

theorem isLowercase_of_isLower (h : c.isLower = true) : isLowercase c = true := by
  obtain ⟨hfirst, hlast⟩ := isLower_iff.1 h
  exact inRuns_iff.2 ⟨⟨97, 122, 1⟩, List.mem_cons_self,
    CodeRun.contains_iff.2 ⟨hfirst, hlast, Nat.mod_one _⟩⟩

/-- The small letter is the lowercase form of its capital, which is one in ASCII. -/
theorem toUpper_of_isLower (h : c.isLower = true) :
    isUppercase c.toUpper = true ∧ isSeparator c.toUpper = false ∧ lower c.toUpper = [c] := by
  have hletters : ∀ i < 26, isUppercase (Char.ofNat (97 + i)).toUpper = true ∧
      isSeparator (Char.ofNat (97 + i)).toUpper = false ∧
      lower (Char.ofNat (97 + i)).toUpper = [Char.ofNat (97 + i)] := by decide +kernel
  obtain ⟨hfirst, hlast⟩ := isLower_iff.1 h
  have hletter := hletters (c.toNat - 97) (by omega)
  rwa [Nat.add_sub_cancel' hfirst, Char.ofNat_toNat] at hletter

/-- A capital that follows begins a word. -/
theorem startsWord_of_isPlainChar {z : Char} (h : isPlainChar z = true) (hc : isUppercase c = true)
    (next : Option Char) : startsWord z c next = true := by
  rw [isPlainChar, Bool.or_eq_true] at h
  obtain h | h := h
  · simp [startsWord, hc, isLowercase_of_isLower h]
  · simp [startsWord, hc, h]

/-- The word as it stands, or with a capital first letter. -/
def IsForm (word form : List Char) : Prop := form = word ∨ form = capitalize word

/-- What follows a word: each of the next words begins with a capital or is set off by separators, and
there may be separators at the end. -/
inductive Follows : List (List Char) → List Char → Prop
  | done {gap} (separators : ∀ c ∈ gap, isSeparator c = true) : Follows [] gap
  | separated {gap word form list text} (filled : gap ≠ [])
      (separators : ∀ c ∈ gap, isSeparator c = true) (same : IsForm word form)
      (rest : Follows list text) : Follows (word :: list) (gap ++ (form ++ text))
  | joined {word list text} (rest : Follows list text) :
      Follows (word :: list) (capitalize word ++ text)

/-- A way to write the words as one identifier. -/
inductive Spelling : List (List Char) → List Char → Prop
  | intro {gap word form list text} (separators : ∀ c ∈ gap, isSeparator c = true)
      (same : IsForm word form) (rest : Follows list text) :
      Spelling (word :: list) (gap ++ (form ++ text))

variable {list : List (List Char)} {text word form gap : List Char}

inductive CaseStyle where
  | snake | kebab | spaced | camel | pascal

namespace CaseStyle

/-- How the first word is written. -/
def first : CaseStyle → List Char → List Char
  | pascal, word => capitalize word
  | _, word => word

/-- How each of the other words is written. -/
def next : CaseStyle → List Char → List Char
  | snake, word => '_' :: word
  | kebab, word => '-' :: word
  | spaced, word => ' ' :: word
  | camel, word => capitalize word
  | pascal, word => capitalize word

def spell (style : CaseStyle) : List (List Char) → List Char
  | [] => []
  | word :: list => style.first word ++ list.flatMap style.next

theorem follows_next (style : CaseStyle) (list : List (List Char))
    (hgap : ∀ c ∈ gap, isSeparator c = true) : Follows list (list.flatMap style.next ++ gap) := by
  induction list with
  | nil => exact .done hgap
  | cons word list ih =>
    rw [List.flatMap_cons, List.append_assoc]
    have hseparated : ∀ separator, isSeparator separator = true →
        Follows (word :: list) ([separator] ++ (word ++ (list.flatMap style.next ++ gap))) :=
      fun separator h => .separated (List.cons_ne_nil _ []) (by simpa using h) (Or.inl rfl) ih
    cases style with
    | snake => exact hseparated '_' (by decide)
    | kebab => exact hseparated '-' (by decide)
    | spaced => exact hseparated ' ' (by decide)
    | camel => exact .joined ih
    | pascal => exact .joined ih

/-- Every style is a way to write words, also with separators before and behind. -/
theorem spelling_spell (style : CaseStyle) (hfilled : list ≠ []) {front back : List Char}
    (hfront : ∀ c ∈ front, isSeparator c = true) (hback : ∀ c ∈ back, isSeparator c = true) :
    Spelling list (front ++ style.spell list ++ back) := by
  obtain ⟨word, list, rfl⟩ := List.exists_cons_of_ne_nil hfilled
  rw [spell, List.append_assoc, List.append_assoc]
  refine .intro hfront ?_ (follows_next style list hback)
  cases style with
  | pascal => exact Or.inr rfl
  | _ => exact Or.inl rfl

end CaseStyle

theorem words_gap (hgap : ∀ c ∈ gap, isSeparator c = true) (text : List Char) :
    words (gap ++ text) = words text := by
  induction gap with
  | nil => rfl
  | cons c gap ih =>
    rw [List.forall_mem_cons] at hgap
    rw [List.cons_append, words_separator hgap.1, ih hgap.2]

/-- Plain characters go on with a word. -/
theorem scanWords_plain (hplain : ∀ d ∈ word, isPlainChar d = true) (before : Char)
    (text : List Char) : scanWords (some before) (word ++ text) =
      (word ++ (scanWords (some (word.getLastD before)) text).1,
        (scanWords (some (word.getLastD before)) text).2) := by
  induction word generalizing before with
  | nil => rfl
  | cons c word ih =>
    rw [List.forall_mem_cons] at hplain
    have hsmall := isSmall_of_isPlainChar hplain.1
    have hstarts : (some before).any (startsWord · c (word ++ text).head?) = false := by
      simp [startsWord, hsmall.uppercase]
    rw [List.cons_append, scanWords_inside hsmall.separator hstarts, ih hplain.2, hsmall.lower,
      List.getLastD_cons]
    rfl

/-- After a plain character, the next words begin. -/
def Splits (text : List Char) (list : List (List Char)) : Prop :=
  ∀ z, isPlainChar z = true → scanWords (some z) text = ([], list)

/-- Behind its first character a plain word is read up to its end, whatever this character is. -/
theorem scanWords_rest {rest : List Char} (hfilled : rest ≠ [])
    (hplain : ∀ d ∈ rest, isPlainChar d = true) (h : Splits text list) (before : Char) :
    scanWords (some before) (rest ++ text) = (rest, list) := by
  have hlast : isPlainChar (rest.getLastD before) = true := by
    rw [List.getLastD_eq_getLast?, List.getLast?_eq_some_getLast hfilled]
    exact hplain _ (List.getLast_mem hfilled)
  rw [scanWords_plain hplain, h _ hlast, List.append_nil]

/-- A plain word in either form has the word's lowercase first letter. -/
theorem IsPlain.exists_of_isForm (hword : IsPlain word) (hform : IsForm word form) :
    ∃ c first rest, word = c :: rest ∧ form = first :: rest ∧ rest ≠ [] ∧
      (∀ d ∈ rest, isPlainChar d = true) ∧ isSeparator first = false ∧ lower first = [c] := by
  obtain @⟨c, rest, letter, filled, plain⟩ := hword
  obtain rfl | rfl := hform
  · have hsmall := isSmall_of_isPlainChar (show isPlainChar c = true by simp [isPlainChar, letter])
    exact ⟨c, c, rest, rfl, rfl, filled, plain, hsmall.separator, hsmall.lower⟩
  · obtain ⟨-, hseparator, hlower⟩ := toUpper_of_isLower letter
    exact ⟨c, c.toUpper, rest, rfl, rfl, filled, plain, hseparator, hlower⟩

/-- At the start of a text a plain word is read in either form. -/
theorem IsPlain.words_form (hword : IsPlain word) (hform : IsForm word form)
    (h : Splits text list) : words (form ++ text) = word :: list := by
  obtain ⟨c, first, rest, rfl, rfl, hfilled, hplain, hseparator, hlower⟩ :=
    hword.exists_of_isForm hform
  have hscan : scanWords none (first :: (rest ++ text)) = (c :: rest, list) := by
    rw [scanWords_inside hseparator rfl, scanWords_rest hfilled hplain h, hlower]
    rfl
  rw [List.cons_append, words_eq, hscan, consWord_cons]

theorem Follows.splits (h : Follows list text) (hplain : ∀ word ∈ list, IsPlain word) :
    Splits text list := by
  induction h with
  | @done gap separators =>
    intro z _
    cases gap with
    | nil => rfl
    | cons c gap =>
      rw [List.forall_mem_cons] at separators
      have hgap := words_gap separators.2 []
      rw [List.append_nil] at hgap
      rw [scanWords_separator separators.1, hgap]
      rfl
  | separated filled separators same _ ih =>
    intro z _
    rw [List.forall_mem_cons] at hplain
    obtain ⟨c, gap, rfl⟩ := List.exists_cons_of_ne_nil filled
    rw [List.forall_mem_cons] at separators
    rw [List.cons_append, scanWords_separator separators.1, words_gap separators.2,
      hplain.1.words_form same (ih hplain.2)]
  | @joined word list text _ ih =>
    intro z hz
    rw [List.forall_mem_cons] at hplain
    obtain @⟨c, rest, letter, filled, plain⟩ := hplain.1
    obtain ⟨huppercase, hseparator, hlower⟩ := toUpper_of_isLower letter
    have hstarts : (some z).any (startsWord · c.toUpper (rest ++ text).head?) = true :=
      startsWord_of_isPlainChar hz huppercase _
    rw [capitalize, List.cons_append, scanWords_start hseparator hstarts,
      scanWords_rest filled plain (ih hplain.2), hlower]
    rfl

theorem Spelling.words_eq (h : Spelling list text) (hplain : ∀ word ∈ list, IsPlain word) :
    words text = list := by
  obtain ⟨separators, same, rest⟩ := h
  rw [List.forall_mem_cons] at hplain
  rw [words_gap separators, hplain.1.words_form same (rest.splits hplain.2)]

theorem Spelling.canonical_eq (h : Spelling list text) (hplain : ∀ word ∈ list, IsPlain word) :
    canonical (String.ofList text) = String.ofList (List.intercalate ['_'] list) := by
  rw [canonical, String.toList_ofList, h.words_eq hplain]

/-- Joined words are told apart by splitting them. -/
theorem intercalate_inj {others : List (List Char)} (hplain : ∀ word ∈ list, IsPlain word)
    (hothers : ∀ word ∈ others, IsPlain word) :
    List.intercalate ['_'] list = List.intercalate ['_'] others ↔ list = others := by
  have hwords : ∀ list : List (List Char), (∀ word ∈ list, IsPlain word) →
      words (List.intercalate ['_'] list) = list := by
    intro list hlist
    have hword : ∀ word ∈ list, words word = [word] := by
      intro word hmem
      have hdone : Splits [] [] := (Follows.done (by simp)).splits (by simp)
      simpa using (hlist word hmem).words_form (Or.inl rfl) hdone
    rw [words_intercalate, List.flatMap_congr hword, List.flatMap_singleton']
  constructor
  · intro h
    rw [← hwords list hplain, h, hwords others hothers]
  · rintro rfl
    rfl

/-- Plain words have the same canonical spelling in every case style, and in every other spelling with
separators or capitals between the words: the words joined by underscores. So two identifiers made of
plain words have the same name, whatever is interned between them, if and only if their words are the
same. -/
theorem case_styles_merge (hfilled : list ≠ []) (hplain : ∀ word ∈ list, IsPlain word) :
    (∀ (style : CaseStyle) (front back : List Char), (∀ c ∈ front, isSeparator c = true) →
      (∀ c ∈ back, isSeparator c = true) → Spelling list (front ++ style.spell list ++ back)) ∧
    ∀ text, Spelling list text →
      canonical (String.ofList text) = String.ofList (List.intercalate ['_'] list) ∧
      ∀ others text', (∀ word ∈ others, IsPlain word) → Spelling others text' →
        ∀ (table : NameTable) (requests : List NameTable.Request),
          let first := table.internWords (String.ofList text)
          ((first.2.afterAll requests).internWords (String.ofList text')).1 = first.1 ↔
            list = others := by
  refine ⟨fun style _ _ => style.spelling_spell hfilled, fun text h => ⟨h.canonical_eq hplain, ?_⟩⟩
  intro others text' hothers h' table requests first
  rw [NameTable.internWords_afterAll_eq_iff, h.canonical_eq hplain, h'.canonical_eq hothers,
    String.ofList_inj, intercalate_inj hothers hplain, eq_comm]

theorem case_styles_merge_sample :
    let list := ["data".toList, "center2".toList]
    (list ≠ [] ∧ ∀ word ∈ list, IsPlain word) ∧ Spelling list " -DataCenter2".toList ∧
      canonical (String.ofList " -DataCenter2".toList) = "data_center2" := by
  intro list
  have hplain : ∀ word ∈ list, IsPlain word := by
    have hdata : IsPlain "data".toList :=
      .intro (by decide) (by decide) (List.all_eq_true.1 (by decide))
    have hcenter : IsPlain "center2".toList :=
      .intro (by decide) (by decide) (List.all_eq_true.1 (by decide))
    simpa [list] using ⟨hdata, hcenter⟩
  obtain ⟨hstyles, hspellings⟩ := case_styles_merge (List.cons_ne_nil _ _) hplain
  have hpascal : Spelling list " -DataCenter2".toList :=
    hstyles .pascal [' ', '-'] [] (List.all_eq_true.1 (by decide)) (by simp)
  exact ⟨⟨List.cons_ne_nil _ _, hplain⟩, hpascal, (hspellings _ hpascal).1⟩

end InputDetail.Text
