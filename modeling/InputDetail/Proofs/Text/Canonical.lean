import InputDetail.Proofs.Name.Requests
import InputDetail.Proofs.Text.Words

/-!
# Canonical spellings

A canonical spelling is read back as itself exactly if no word begins inside one of its words. So it is
whenever every capital of the text has a small form; a capital without one may follow a small letter in
the canonical spelling, and is taken for the start of a word there. The canonical spelling of a
canonical spelling is always read back as itself.
-/
namespace InputDetail.Text

variable {text : String} {c : Char}

theorem toList_canonical (text : String) :
    (canonical text).toList = List.intercalate ['_'] (words text.toList) := String.toList_ofList

/-- A canonical spelling is made of underscores and lowercase forms. -/
theorem mem_canonical (h : c ∈ (canonical text).toList) : c = '_' ∨ Lowers text.toList c := by
  rw [toList_canonical] at h
  have hwords : ∀ word ∈ words text.toList, ∀ d ∈ word, Lowers text.toList d :=
    fun word hword => (lowers_of_mem_words hword).2
  generalize words text.toList = others at h hwords
  induction others with
  | nil => cases h
  | cons word others ih =>
    rw [List.forall_mem_cons] at hwords
    cases others with
    | nil => exact Or.inr (hwords.1 c (by simpa using h))
    | cons next others =>
      rw [List.intercalate_cons_cons, List.append_assoc, List.singleton_append, List.mem_append,
        List.mem_cons] at h
      obtain h | h | h := h
      · exact Or.inr (hwords.1 c h)
      · exact Or.inl h
      · exact ih h hwords.2

theorem lower_of_mem_canonical (h : c ∈ (canonical text).toList) : lower c = [c] := by
  obtain rfl | h := mem_canonical h
  · decide +kernel
  · exact h.lower_eq

theorem unbroken_canonical_iff : Unbroken (canonical text).toList ↔
    ∀ word ∈ words text.toList, Unbroken word := by
  rw [toList_canonical, unbroken_intercalate]

/-- Where no word begins, the canonical spelling has the words that it was made of. -/
theorem canonical_of_unbroken (h : Unbroken (canonical text).toList) :
    canonical (canonical text) = canonical text := by
  have hwords : ∀ word ∈ words text.toList, words word = [word] := by
    intro word hword
    obtain ⟨hfilled, hlowers⟩ := lowers_of_mem_words hword
    exact words_of_unbroken hfilled (fun d hd => (hlowers d hd).lower_eq)
      (fun d hd => (hlowers d hd).isSeparator_eq_false) (unbroken_canonical_iff.1 h word hword)
  rw [canonical, toList_canonical, words_intercalate, List.flatMap_congr hwords]
  simp [canonical]

/-- No word begins in a canonical spelling that has been read back. -/
theorem unbroken_canonical_canonical (text : String) :
    Unbroken (canonical (canonical text)).toList :=
  unbroken_canonical_iff.2 fun _ hword =>
    unbroken_of_mem_words (fun _ hc => lower_of_mem_canonical hc) hword

/-- If every capital has a small form, then the canonical spelling is all small. -/
theorem unbroken_canonical (h : ∀ c ∈ text.toList, isUppercase c = true → lower c ≠ [c]) :
    Unbroken (canonical text).toList := by
  intro before x c after heq
  have hmem : c ∈ (canonical text).toList := by simp [heq]
  have huppercase : isUppercase c = false := by
    refine Bool.eq_false_iff.2 fun hc => ?_
    obtain rfl | ⟨d, hd, -, hlower⟩ := mem_canonical hmem
    · revert hc
      decide
    · obtain ⟨rfl, hsame⟩ := lower_of_isUppercase hlower hc
      exact h c hd hc hsame
  rw [startsWord, huppercase, Bool.false_and]

/-- A canonical spelling is a canonical spelling of itself if and only if no word begins inside it, as
is the case when all capitals of the text have small forms. From the second time on it stays what it
is. Written back, whatever has been interned since, it has the same name under the same condition. -/
theorem canonical_read_back (text : String) :
    (canonical (canonical text) = canonical text ↔ Unbroken (canonical text).toList) ∧
    ((∀ c ∈ text.toList, isUppercase c = true → lower c ≠ [c]) →
      Unbroken (canonical text).toList) ∧
    canonical (canonical (canonical text)) = canonical (canonical text) ∧
    ∀ (table : NameTable) (requests : List NameTable.Request),
      let name := (table.internWords text).1
      let later := (table.internWords text).2.afterAll requests
      later.text? name = some (canonical text) ∧
        ((later.internWords (canonical text)).1 = name ↔ Unbroken (canonical text).toList) := by
  have hiff : canonical (canonical text) = canonical text ↔ Unbroken (canonical text).toList :=
    ⟨fun h => h ▸ unbroken_canonical_canonical text, canonical_of_unbroken⟩
  refine ⟨hiff, unbroken_canonical, canonical_of_unbroken (unbroken_canonical_canonical text), ?_⟩
  intro table requests name later
  refine ⟨NameTable.text?_afterAll (table.text?_intern _) requests, ?_⟩
  rw [← hiff]
  exact NameTable.internWords_afterAll_eq_iff table requests text (canonical text)

/-- The bold capital has no small form. It begins a word once the capital before it is small. -/
theorem canonical_read_back_sample : canonical (canonical "A𝐀") ≠ canonical "A𝐀" ∧
    canonical (canonical "VMPool size") = canonical "VMPool size" := by
  constructor
  · rw [Ne, (canonical_read_back "A𝐀").1]
    intro h
    exact absurd (h [] 'a' '𝐀' [] (by decide +kernel)) (by decide +kernel)
  · have hsmall : "VMPool size".toList.all (fun c => !isUppercase c || lower c != [c]) = true := by
      decide +kernel
    refine (canonical_read_back "VMPool size").1.2 ((canonical_read_back "VMPool size").2.1 ?_)
    intro c hc huppercase
    simpa [huppercase] using List.all_eq_true.1 hsmall c hc

end InputDetail.Text
