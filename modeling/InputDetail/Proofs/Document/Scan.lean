import InputDetail.Proofs.Document.Phrase

/-!
# Scanning

A text consists of the symbols that scanning it finds. As a mark follows every word of a row of
symbols, scanning finds exactly the row that was written, whatever white space there is.
-/
namespace InputDetail.Document

variable {offset : Nat} {text rest blank word : List Char} {token : Token} {symbols : List Symbol}

theorem isWordChar_eq_false_of_isSpace {c : Char} (h : isSpace c = true) : isWordChar c = false := by
  simp only [isSpace, Bool.or_eq_true, beq_iff_eq] at h
  obtain (((rfl | rfl) | rfl) | rfl) | rfl := h <;> decide

/-- All characters of a word are ASCII. -/
theorem utf8Size_eq_one_of_isWordChar {c : Char} (h : isWordChar c = true) : c.utf8Size = 1 := by
  rw [Char.utf8Size_eq_one_iff]
  delta isWordChar Char.isAlphanum Char.isAlpha Char.isUpper Char.isLower Char.isDigit at h
  simp only [Bool.or_eq_true, Bool.and_eq_true, decide_eq_true_eq, beq_iff_eq,
    UInt32.le_iff_toNat_le] at h
  rw [UInt32.le_iff_toNat_le]
  obtain ((h | h) | h) | rfl := h
  · exact Nat.le_trans h.2 (by decide)
  · exact Nat.le_trans h.2 (by decide)
  · exact Nat.le_trans h.2 (by decide)
  · decide

theorem mem_extendWord {c : Char} {later : List Token} (h : token ∈ extendWord c offset later) :
    token.span.start = offset ∨ token ∈ later := by
  unfold extendWord at h
  split at h
  · split at h
    · obtain rfl | h := List.mem_cons.1 h
      · exact Or.inl rfl
      · exact Or.inr (List.mem_cons_of_mem _ h)
    · obtain rfl | h := List.mem_cons.1 h
      · exact Or.inl rfl
      · exact Or.inr h
  · obtain rfl | h := List.mem_cons.1 h
    · exact Or.inl rfl
    · exact Or.inr h

theorem utf8ByteSize_ofList_cons (c : Char) (text : List Char) :
    (String.ofList (c :: text)).utf8ByteSize =
      c.utf8Size + (String.ofList text).utf8ByteSize := by
  rw [← List.singleton_append, String.ofList_append, String.utf8ByteSize_append,
    ← String.singleton_eq_ofList, String.utf8ByteSize_singleton]

/-- Every token begins inside the text. -/
theorem start_of_mem_scan (h : token ∈ scan offset text) :
    offset ≤ token.span.start ∧
      token.span.start < offset + (String.ofList text).utf8ByteSize := by
  induction text generalizing offset with
  | nil => cases h
  | cons c text ih =>
    have hpos := c.utf8Size_pos
    have hlater : token ∈ scan (offset + c.utf8Size) text → offset ≤ token.span.start ∧
        token.span.start < offset + (c.utf8Size + (String.ofList text).utf8ByteSize) := by
      intro hmem
      have := ih hmem
      omega
    rw [utf8ByteSize_ofList_cons]
    simp only [scan] at h
    split at h
    · exact hlater h
    · split at h
      · obtain hstart | h := mem_extendWord h
        · omega
        · exact hlater h
      · obtain rfl | h := List.mem_cons.1 h
        · exact ⟨Nat.le_refl _, by dsimp only; omega⟩
        · exact hlater h

theorem scan_blank (white : ∀ c ∈ blank, isSpace c = true) :
    ∃ offset', scan offset (blank ++ text) = scan offset' text := by
  induction blank generalizing offset with
  | nil => exact ⟨offset, rfl⟩
  | cons c blank ih =>
    obtain ⟨hc, hblank⟩ := List.forall_mem_cons.1 white
    simpa only [List.cons_append, scan, if_pos hc] using ih hblank

theorem scan_mark {c : Char} (dark : isSpace c = false) (sign : isWordChar c = false) :
    scan offset (c :: text) =
      ⟨.mark c, ⟨offset, offset + c.utf8Size⟩⟩ :: scan (offset + c.utf8Size) text := by
  simp [scan, dark, sign]

/-- Text that does not go on with a letter does not go on with a word. -/
theorem extendWord_scan {c : Char} (ends : ∀ d ∈ text.head?, isWordChar d = false) :
    extendWord c offset (scan (offset + 1) text) =
      ⟨.word [c], ⟨offset, offset + 1⟩⟩ :: scan (offset + 1) text := by
  cases text with
  | nil => rfl
  | cons d text =>
    have hd : isWordChar d = false := ends d rfl
    cases hspace : isSpace d with
    | false => rw [scan_mark hspace hd, extendWord]; simp
    | true =>
      simp only [scan, if_pos hspace]
      cases hscan : scan (offset + 1 + d.utf8Size) text with
      | nil => rfl
      | cons token tokens =>
        have hstart := start_of_mem_scan (hscan ▸ List.mem_cons_self)
        have hpos := d.utf8Size_pos
        obtain ⟨symbol, span⟩ := token
        cases symbol with
        | mark c => rfl
        | word text => rw [extendWord, if_neg (by dsimp only at hstart; omega)]

/-- A word is scanned as a whole if no letter follows. -/
theorem scan_word (filled : word ≠ []) (letters : ∀ c ∈ word, isWordChar c = true)
    (ends : ∀ c ∈ text.head?, isWordChar c = false) :
    scan offset (word ++ text) =
      ⟨.word word, ⟨offset, offset + word.length⟩⟩ :: scan (offset + word.length) text := by
  induction word generalizing offset with
  | nil => exact absurd rfl filled
  | cons c word ih =>
    obtain ⟨hc, hword⟩ := List.forall_mem_cons.1 letters
    have hspace : isSpace c = false := by
      cases hspace : isSpace c with
      | false => rfl
      | true => rw [isWordChar_eq_false_of_isSpace hspace] at hc; cases hc
    simp only [List.cons_append, scan, hspace, if_pos hc, utf8Size_eq_one_of_isWordChar hc]
    cases word with
    | nil => exact extendWord_scan ends
    | cons d word =>
      rw [ih (by simp) hword, extendWord]
      simp [Nat.add_comm, Nat.add_left_comm]

/-- After a word, white space or a mark. -/
theorem Spells.head_of_mark {c : Char} (h : Spells (.mark c :: symbols) text) :
    ∀ d ∈ text.head?, isWordChar d = false := by
  cases h with
  | @mark blank _ _ _ white _ sign _ =>
    intro d hd
    cases blank with
    | nil =>
      obtain rfl : c = d := by simpa using hd
      exact sign
    | cons e blank =>
      obtain rfl : e = d := by simpa using hd
      exact isWordChar_eq_false_of_isSpace (white e List.mem_cons_self)

/-- Scanning finds the symbols that were written. -/
theorem Spells.scan_eq (h : Spells symbols text) (apart : Separated symbols) :
    (scan offset text).map (·.symbol) = symbols := by
  induction h generalizing offset with
  | nil white =>
    obtain ⟨offset', hscan⟩ : ∃ offset', scan offset (_ ++ []) = scan offset' [] := scan_blank white
    rw [List.append_nil] at hscan
    rw [hscan]
    rfl
  | word white filled letters rest ih =>
    cases apart with
    | word _ c apart =>
      obtain ⟨offset', hscan⟩ := scan_blank white
      rw [hscan, scan_word filled letters rest.head_of_mark, List.map_cons, ih (.mark c apart)]
  | mark white dark sign rest ih =>
    cases apart with
    | mark _ apart =>
      obtain ⟨offset', hscan⟩ := scan_blank white
      rw [hscan, scan_mark dark sign, List.map_cons, ih apart]

theorem Spells.after_blank (white : ∀ c ∈ blank, isSpace c = true) (h : Spells symbols text) :
    Spells symbols (blank ++ text) := by
  cases h with
  | @nil blank' white' => exact .nil (List.forall_mem_append.2 ⟨white, white'⟩)
  | word white' filled letters rest =>
    rw [← List.append_assoc]
    exact .word (List.forall_mem_append.2 ⟨white, white'⟩) filled letters rest
  | mark white' dark sign rest =>
    rw [← List.append_assoc]
    exact .mark (List.forall_mem_append.2 ⟨white, white'⟩) dark sign rest

/-- A word at the start of a text reaches up to the first character that is no letter. -/
theorem exists_word {c : Char} (letter : isWordChar c = true) (text : List Char) :
    ∃ word after, c :: text = word ++ after ∧ word ≠ [] ∧ (∀ d ∈ word, isWordChar d = true) ∧
      (∀ d ∈ after.head?, isWordChar d = false) ∧ after.length ≤ text.length := by
  refine ⟨c :: text.takeWhile isWordChar, text.dropWhile isWordChar, ?_, List.cons_ne_nil _ _,
    List.forall_mem_cons.2 ⟨letter, List.all_eq_true.1 List.all_takeWhile⟩, ?_,
    (List.dropWhile_sublist _).length_le⟩
  · rw [List.cons_append, List.takeWhile_append_dropWhile]
  · intro d hd
    have h := List.head?_dropWhile_not isWordChar text
    rw [Option.mem_def.1 hd] at h
    exact h

/-- A text consists of the symbols that scanning finds. -/
theorem spells_scan (offset : Nat) (text : List Char) :
    Spells ((scan offset text).map (·.symbol)) text := by
  match text with
  | [] => exact .nil (by simp)
  | c :: text =>
    have hnone : ∀ d ∈ ([] : List Char), isSpace d = true := by simp
    cases hspace : isSpace c with
    | true =>
      have hblank : ∀ d ∈ [c], isSpace d = true := by simpa using hspace
      simpa [scan, hspace] using (spells_scan (offset + c.utf8Size) text).after_blank hblank
    | false =>
    cases hletter : isWordChar c with
    | false =>
      rw [scan_mark hspace hletter]
      exact .mark hnone hspace hletter (spells_scan _ text)
    | true =>
      obtain ⟨word, after, hsplit, hfilled, hletters, hends, hle⟩ := exists_word hletter text
      rw [hsplit, scan_word hfilled hletters hends]
      exact .word hnone hfilled hletters (spells_scan _ after)
  termination_by text.length
  decreasing_by all_goals simp only [List.length_cons]; omega

/-- A text renders statements exactly if scanning it finds a layout of them. -/
theorem renders_iff {statements : List (Phrase String)} {source : String} :
    Renders statements source ↔ Layout statements ((scan 0 source.toList).map (·.symbol)) := by
  constructor
  · rintro ⟨symbols, hlayout, hspells⟩
    rwa [hspells.scan_eq hlayout.separated]
  · intro hlayout
    exact ⟨_, hlayout, spells_scan 0 source.toList⟩

end InputDetail.Document
