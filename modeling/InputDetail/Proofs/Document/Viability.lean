import InputDetail.Proofs.Document.Completion
import InputDetail.Proofs.Document.Concatenation

/-!
# Where a text is refused

A text that is no block is refused at the first byte that no block goes on with. What stands before this
byte is scanned by itself, and what has been read of it can be completed. The byte begins a token that
cannot follow, whatever stands behind the byte.
-/
namespace InputDetail.Document

variable {offset : Nat} {text first second before : List Char} {tokens earlier later : List Token}
  {token : Token} {c : Char} {source block : String}

/-- No word goes across from the one text into the other. -/
def Breaks (first second : List Char) : Prop :=
  ∀ d ∈ first.getLast?, isWordChar d = true → ∀ c ∈ second.head?, isWordChar c = false

theorem scan_ne_nil (hc : isWordChar c = true) (text : List Char) : scan offset (c :: text) ≠ [] := by
  have hspace : isSpace c = false := by
    cases hspace : isSpace c with
    | false => rfl
    | true => rw [isWordChar_eq_false_of_isSpace hspace] at hc; cases hc
  rw [scan, hspace, if_neg Bool.false_ne_true, if_pos hc]
  unfold extendWord
  split
  · split <;> exact List.cons_ne_nil _ _
  · exact List.cons_ne_nil _ _

theorem Breaks.of_eq_false (hc : isWordChar c = false) (text : List Char) : Breaks [c] text := by
  intro d hd hletter
  obtain rfl : c = d := by simpa using hd
  exact Bool.noConfusion (hc.symm.trans hletter)

theorem Breaks.of_cons {d : Char} (h : Breaks (d :: first) second) : Breaks first second := by
  intro e he
  cases first with
  | nil => cases he
  | cons f first => exact h e (by rwa [List.getLast?_cons_cons])

/-- Both sides of a break are scanned by themselves. -/
theorem scan_append_of_breaks (h : Breaks first second) : scan offset (first ++ second) =
    scan offset first ++ scan (offset + (String.ofList first).utf8ByteSize) second := by
  induction first generalizing offset with
  | nil => simp [scan]
  | cons d first ih =>
    rw [utf8ByteSize_ofList_cons, ← Nat.add_assoc, List.cons_append]
    have hrest := @ih (offset + d.utf8Size) h.of_cons
    cases hspace : isSpace d with
    | true => simpa only [scan, if_pos hspace] using hrest
    | false =>
    cases hletter : isWordChar d with
    | false => rw [scan_mark hspace hletter, scan_mark hspace hletter, hrest, List.cons_append]
    | true =>
      rw [utf8Size_eq_one_of_isWordChar hletter] at hrest ⊢
      simp only [scan, hspace, if_pos hletter, Bool.false_eq_true, if_false,
        utf8Size_eq_one_of_isWordChar hletter]
      cases hfirst : first with
      | nil =>
        subst hfirst
        have hends : ∀ c ∈ second.head?, isWordChar c = false := h d rfl hletter
        simpa [scan, extendWord] using extendWord_scan hends
      | cons e first' =>
        rw [← hfirst]
        cases hnext : isWordChar e with
        | true => rw [hrest, extendWord_append (hfirst ▸ scan_ne_nil hnext first')]
        | false =>
          have hends : ∀ c ∈ first.head?, isWordChar c = false := by simpa [hfirst] using hnext
          have hends' : ∀ c ∈ (first ++ second).head?, isWordChar c = false := by
            simpa [hfirst] using hnext
          rw [extendWord_scan hends, extendWord_scan hends', hrest, List.cons_append]

theorem exists_begins (hc : isSpace c = false) (text : List Char) : ∃ token tokens,
    scan offset (c :: text) = token :: tokens ∧ token.span.start = offset ∧ Begins c token.symbol := by
  cases hletter : isWordChar c with
  | false => exact ⟨_, _, scan_mark hc hletter, rfl, .mark ⟨hc, hletter⟩⟩
  | true =>
    obtain ⟨word, after, hsplit, hfilled, hletters, hends, -⟩ := exists_word hletter text
    rw [hsplit, scan_word hfilled hletters hends]
    exact ⟨_, _, rfl, rfl, .word word hletter⟩

/-- The token begins with the character, at the break behind the text. -/
structure BeginsAt (offset : Nat) (before : List Char) (c : Char) (token : Token) : Prop where
  start : token.span.start = offset + (String.ofList before).utf8ByteSize
  breaks : Breaks before [c]
  dark : isSpace c = false
  begins : Begins c token.symbol

/-- The same token with more text before. -/
theorem BeginsAt.append
    (h : BeginsAt (offset + (String.ofList first).utf8ByteSize) before c token)
    (hbreaks : Breaks first (before ++ [c])) : BeginsAt offset (first ++ before) c token := by
  refine ⟨?_, fun d hd hletter => ?_, h.dark, h.begins⟩
  · rw [h.start, String.ofList_append, String.utf8ByteSize_append, Nat.add_assoc]
  · cases before with
    | nil => exact hbreaks d (by simpa using hd) hletter
    | cons e before => exact h.breaks d (by simpa [List.getLast?_append] using hd) hletter

/-- A text up to a break, and then a text in which the token is found. -/
theorem exists_of_scan_append {rest : List Char} (hbreaks : Breaks first rest)
    (h : ∃ before c after, rest = before ++ c :: after ∧
      scan (offset + (String.ofList first).utf8ByteSize) before = earlier ∧
      BeginsAt (offset + (String.ofList first).utf8ByteSize) before c token) :
    ∃ before c after, first ++ rest = before ++ c :: after ∧
      scan offset before = scan offset first ++ earlier ∧ BeginsAt offset before c token := by
  obtain ⟨before, c, after, rfl, hscan, hbegins⟩ := h
  have hbefore : Breaks first before := by
    intro d hd hletter e he
    refine hbreaks d hd hletter e ?_
    rw [List.head?_append, Option.mem_def.1 he, Option.some_or]
    rfl
  have hbefore' : Breaks first (before ++ [c]) := by
    intro d hd hletter e he
    refine hbreaks d hd hletter e ?_
    cases before <;> simpa using he
  refine ⟨first ++ before, c, after, by rw [List.append_assoc], ?_, hbegins.append hbefore'⟩
  rw [scan_append_of_breaks hbefore, hscan]

/-- A token begins with a character of the text, and what stands before this character is scanned as
the tokens before it. -/
theorem exists_of_scan (offset : Nat) (text : List Char) (earlier : List Token)
    (h : scan offset text = earlier ++ token :: later) :
    ∃ before c after, text = before ++ c :: after ∧ scan offset before = earlier ∧
      BeginsAt offset before c token := by
  match text with
  | [] => simp [scan] at h
  | c :: text =>
    cases hspace : isSpace c with
    | true =>
      have hc : scan offset [c] = [] := by simp [scan, hspace]
      have hbreaks : Breaks [c] text := .of_eq_false (isWordChar_eq_false_of_isSpace hspace) text
      rw [← List.singleton_append, scan_append_of_breaks hbreaks, hc, List.nil_append] at h
      simpa [hc] using exists_of_scan_append hbreaks (exists_of_scan _ text earlier h)
    | false =>
    cases earlier with
    | nil =>
      obtain ⟨token', tokens, hscan, hstart, hbegins⟩ := exists_begins hspace text
      obtain rfl : token' = token := (List.cons.inj (hscan.symm.trans h)).1
      exact ⟨[], c, text, rfl, rfl, hstart, (fun _ h => by cases h), hspace, hbegins⟩
    | cons token' earlier =>
    cases hletter : isWordChar c with
    | false =>
      have hc : scan offset [c] = [⟨.mark c, ⟨offset, offset + c.utf8Size⟩⟩] :=
        scan_mark hspace hletter
      have hbreaks : Breaks [c] text := .of_eq_false hletter text
      rw [← List.singleton_append, scan_append_of_breaks hbreaks, hc] at h
      obtain ⟨rfl, hrest⟩ := List.cons.inj h
      simpa [hc] using exists_of_scan_append hbreaks (exists_of_scan _ text earlier hrest)
    | true =>
      obtain ⟨word, after, hsplit, hfilled, hletters, hends, hle⟩ := exists_word hletter text
      have hword : scan offset word = [⟨.word word, ⟨offset, offset + word.length⟩⟩] := by
        simpa [scan] using @scan_word offset [] word hfilled hletters (by simp)
      have hbreaks : Breaks word after := fun _ _ _ => hends
      rw [hsplit, scan_append_of_breaks hbreaks, hword] at h
      obtain ⟨rfl, hrest⟩ := List.cons.inj h
      rw [hsplit]
      simpa [hword] using exists_of_scan_append hbreaks (exists_of_scan _ after earlier hrest)
  termination_by text.length
  decreasing_by all_goals simp only [List.length_cons]; omega

/-- The bytes of a text in UTF-8. -/
def utf8 (source : String) : List UInt8 := source.toUTF8.data.toList

theorem utf8_eq_flatMap (source : String) :
    utf8 source = source.toList.flatMap String.utf8EncodeChar := by
  rw [utf8, String.toUTF8_eq_toByteArray, ← String.utf8Encode_toList, List.utf8Encode,
    List.data_toByteArray]

theorem length_utf8 (source : String) : (utf8 source).length = source.utf8ByteSize := by
  rw [utf8, Array.length_toList, ByteArray.size_data, String.toUTF8_eq_toByteArray,
    String.size_toByteArray]

theorem length_flatMap_utf8EncodeChar (text : List Char) :
    (text.flatMap String.utf8EncodeChar).length = (String.ofList text).utf8ByteSize := by
  rw [← length_utf8, utf8_eq_flatMap, String.toList_ofList]

/-- The first byte of an ASCII character is its code, and that of any other character is no ASCII
code. -/
theorem exists_lead (c : Char) : ∃ byte bytes, String.utf8EncodeChar c = byte :: bytes ∧
    (c.utf8Size = 1 → byte.toNat = c.toNat) ∧ (byte.toNat < 128 → c.utf8Size = 1) := by
  have hsize : c.utf8Size = 1 ↔ c.val.toNat ≤ 127 := Char.utf8Size_eq_one_iff
  have hmax : c.val.toNat < 1114112 := by
    have := c.valid
    unfold UInt32.isValidChar Nat.isValidChar at this
    omega
  rw [hsize, String.utf8EncodeChar]
  split
  · refine ⟨_, _, rfl, fun _ => ?_, fun _ => by assumption⟩
    rw [UInt8.toNat_ofNat', Nat.mod_eq_of_lt (by omega)]
    rfl
  · have hlead : ∀ n, 128 ≤ n → n < 256 → (UInt8.ofNat n).toNat < 128 → c.val.toNat ≤ 127 := by
      intro n hlow hhigh hbyte
      rw [UInt8.toNat_ofNat', Nat.mod_eq_of_lt hhigh] at hbyte
      omega
    split
    · exact ⟨_, _, rfl, fun h => by omega, hlead _ (by omega) (by omega)⟩
    split
    · exact ⟨_, _, rfl, fun h => by omega, hlead _ (by omega) (by omega)⟩
    · exact ⟨_, _, rfl, fun h => by omega, hlead _ (by omega) (by omega)⟩

/-- An ASCII character is told by its first byte. -/
theorem eq_of_lead {d : Char} {bytes : List UInt8} (hd : d.utf8Size = 1)
    (h : (String.utf8EncodeChar c).take 1 <+: String.utf8EncodeChar d ++ bytes) : c = d := by
  obtain ⟨lead, bytes', hc', hlead, hascii⟩ := exists_lead c
  obtain ⟨lead', bytes'', hd', hlead', -⟩ := exists_lead d
  obtain rfl : lead = lead' := by simpa [hc', hd'] using h
  have hcode : d.toNat < 128 := Nat.lt_succ_of_le (Char.utf8Size_eq_one_iff.1 hd)
  have hc : c.utf8Size = 1 := hascii (by rw [hlead' hd]; exact hcode)
  exact Char.ext (UInt32.toNat_inj.1 ((hlead hc).symm.trans (hlead' hd)))

theorem prefix_of_flatMap_utf8EncodeChar
    (h : first.flatMap String.utf8EncodeChar <+: second.flatMap String.utf8EncodeChar) :
    first <+: second := by
  obtain ⟨bytes, h⟩ := h
  refine List.isPrefix_of_utf8Encode_append_eq_utf8Encode bytes.toByteArray ?_
  rw [List.utf8Encode, List.utf8Encode, ← h, List.toByteArray_append]

theorem take_utf8 (h : source.toList = before ++ text) :
    (utf8 source).take (String.ofList before).utf8ByteSize =
      before.flatMap String.utf8EncodeChar := by
  rw [utf8_eq_flatMap, h, List.flatMap_append, ← length_flatMap_utf8EncodeChar, List.take_left]

theorem take_succ_utf8 (h : source.toList = before ++ c :: text) :
    (utf8 source).take ((String.ofList before).utf8ByteSize + 1) =
      before.flatMap String.utf8EncodeChar ++ (String.utf8EncodeChar c).take 1 := by
  obtain ⟨lead, bytes, hc, -⟩ := exists_lead c
  rw [utf8_eq_flatMap, h, List.flatMap_append, ← length_flatMap_utf8EncodeChar,
    List.take_length_add_append, List.flatMap_cons, hc]
  rfl

/-- A text that goes on as another one up to the first byte of a character has a character there too,
and the same one if it is ASCII. -/
theorem exists_of_prefix_utf8
    (h : before.flatMap String.utf8EncodeChar ++ (String.utf8EncodeChar c).take 1 <+: utf8 block) :
    ∃ d rest, block.toList = before ++ d :: rest ∧ (d.utf8Size = 1 → c = d) := by
  rw [utf8_eq_flatMap] at h
  obtain ⟨rest, hblock⟩ := prefix_of_flatMap_utf8EncodeChar ((List.prefix_append _ _).trans h)
  rw [← hblock, List.flatMap_append, List.prefix_append_right_inj] at h
  cases rest with
  | nil =>
    obtain ⟨lead, bytes, hc, -⟩ := exists_lead c
    simp [hc] at h
  | cons d rest =>
    rw [List.flatMap_cons] at h
    exact ⟨d, rest, hblock.symm, fun hd => eq_of_lead hd h⟩

/-- Reading stops at a token that cannot follow what has been read, or at the end. -/
theorem Reader.exists_of_readAll {reader : Reader} {stop stopped : Nat} {expected : Expected}
    (h : readAll stop reader tokens = .error (expected, stopped)) :
    ∃ earlier reached, reader.reads earlier = some reached ∧
      (tokens = earlier ∧ stopped = stop ∨ ∃ token later, tokens = earlier ++ token :: later ∧
        reached.read token = none ∧ stopped = token.span.start) := by
  induction tokens generalizing reader with
  | nil =>
    rw [readAll] at h
    split at h
    · cases h
    · cases h
      exact ⟨[], reader, rfl, .inl ⟨rfl, rfl⟩⟩
  | cons token tokens ih =>
    rw [readAll] at h
    split at h
    · next next hread =>
      obtain ⟨earlier, reached, hreads, hstop⟩ := ih h
      refine ⟨token :: earlier, reached, (reads_of_read hread).trans hreads, ?_⟩
      obtain ⟨rfl, hstop⟩ | ⟨token', later, rfl, hstop⟩ := hstop
      · exact .inl ⟨rfl, hstop⟩
      · exact .inr ⟨token', later, rfl, hstop⟩
    · next hread =>
      cases h
      exact ⟨[], reader, rfl, .inr ⟨token, tokens, rfl, hread, rfl⟩⟩

theorem Spells.append {symbols row : List Symbol} (h : Spells symbols first) (h' : Spells row second) :
    Spells (symbols ++ row) (first ++ second) := by
  induction h with
  | nil white => exact h'.after_blank white
  | word white filled letters _ ih =>
    rw [List.append_assoc, List.append_assoc]
    exact .word white filled letters ih
  | mark white dark sign _ ih =>
    rw [List.append_assoc]
    exact .mark white dark sign ih

/-- A text whose tokens are read is the beginning of a block. -/
theorem exists_accepted {reached : Reader} (h : Reader.initial.reads (scan 0 before) = some reached) :
    ∃ text, Accepted (String.ofList (before ++ text)) := by
  obtain ⟨phrases, hlayout⟩ := (Reader.consumed_initial.reads h).exists_layout
  obtain ⟨text, hspells⟩ := reached.exists_spells_rest
  refine ⟨text, accepted_iff.2 ⟨phrases, _, hlayout, ?_⟩⟩
  rw [String.toList_ofList]
  exact (spells_scan 0 before).append hspells

theorem utf8Size_eq_one_of_isSpace (h : isSpace c = true) : c.utf8Size = 1 := by
  simp only [isSpace, Bool.or_eq_true, beq_iff_eq] at h
  obtain (((rfl | rfl) | rfl) | rfl) | rfl := h <;> rfl

/-- At the place of the character there is a break as well before one that is not ASCII, and this begins
a token too. -/
theorem BeginsAt.of_ascii {d : Char} (h : BeginsAt offset before c token)
    (hd : d.utf8Size = 1 → c = d) (rest : List Char) :
    isSpace d = false ∧ Breaks before (d :: rest) := by
  constructor
  · refine Bool.eq_false_iff.2 fun hspace => ?_
    obtain rfl := hd (utf8Size_eq_one_of_isSpace hspace)
    exact Bool.noConfusion (hspace.symm.trans h.dark)
  · rintro e he hword _ ⟨⟩
    refine Bool.eq_false_iff.2 fun hletter => ?_
    obtain rfl := hd (utf8Size_eq_one_of_isWordChar hletter)
    exact Bool.noConfusion (hletter.symm.trans (h.breaks e he hword c rfl))

/-- No block goes on with a character that begins a token which cannot follow, nor with a character
that is not ASCII. -/
theorem not_accepted {reached : Reader} {d : Char} {rest : List Char}
    (hreads : Reader.initial.reads (scan 0 before) = some reached) (hread : reached.read token = none)
    (hbegins : BeginsAt 0 before c token) (hd : d.utf8Size = 1 → c = d)
    (hblock : block.toList = before ++ d :: rest) : ¬ Accepted block := by
  intro haccepted
  obtain ⟨terms, hterms⟩ := haccepted.exists_terms
  obtain ⟨final, hall, -⟩ := Reader.readAll_eq_ok_iff.1 (readTerms_eq_ok_iff.1 hterms)
  obtain ⟨hspace, hbreaks⟩ := hbegins.of_ascii hd rest
  obtain ⟨other, tokens, hscan, -, hother⟩ :=
    @exists_begins (0 + (String.ofList before).utf8ByteSize) _ hspace rest
  have hnone : reached.read other = none := by
    by_cases hascii : d.utf8Size = 1
    · obtain rfl := hd hascii
      exact Reader.read_eq_none hread hbegins.begins hother
    · exact Reader.read_eq_none_of_utf8Size hascii hother
  rw [hblock, scan_append_of_breaks hbreaks, hscan, Reader.reads_append, hreads, Option.bind_some,
    Reader.reads_cons, hnone] at hall
  cases hall

theorem exists_of_parse {names : NameTable} {failure : ParseFailure}
    (h : (parse source names).1 = .error failure) : ∃ expected stopped,
      failure = ⟨expected.message, .point stopped⟩ ∧ Reader.readAll source.utf8ByteSize .initial
        (scan 0 source.toList) = .error (expected, stopped) := by
  simp only [parse, readTerms] at h
  split at h
  · cases h
  · next expected stopped hread => exact ⟨expected, stopped, (Except.error.inj h).symm, hread⟩

/-- A text that is no block is refused at the first byte that no block goes on with: what stands before
this byte can be completed, and with the byte itself it cannot. -/
theorem refused_at_first_byte {names : NameTable} {failure : ParseFailure}
    (h : (parse source names).1 = .error failure) :
    ∃ p, failure.span = .point p ∧ p ≤ source.utf8ByteSize ∧
      (∃ block, Accepted block ∧ (utf8 source).take p <+: utf8 block) ∧
      (p < source.utf8ByteSize →
        ∀ block, Accepted block → ¬ (utf8 source).take (p + 1) <+: utf8 block) := by
  obtain ⟨expected, stopped, rfl, hread⟩ := exists_of_parse h
  obtain ⟨earlier, reached, hreads, ⟨rfl, rfl⟩ | ⟨token, later, hscan, hnone, rfl⟩⟩ :=
    Reader.exists_of_readAll hread
  · obtain ⟨text, haccepted⟩ := exists_accepted hreads
    refine ⟨_, rfl, Nat.le_refl _, ⟨_, haccepted, ?_⟩, fun hlt => absurd hlt (Nat.lt_irrefl _)⟩
    rw [utf8_eq_flatMap (String.ofList _), String.toList_ofList, List.flatMap_append,
      ← utf8_eq_flatMap]
    exact (List.take_prefix _ _).trans (List.prefix_append _ _)
  · obtain ⟨before, c, after, hsource, rfl, hbegins⟩ := exists_of_scan 0 source.toList earlier hscan
    have hstart : token.span.start = (String.ofList before).utf8ByteSize := by
      rw [hbegins.start, Nat.zero_add]
    refine ⟨_, rfl, ?_, ?_, fun _ block haccepted hbegin => ?_⟩
    · have hmem : token ∈ scan 0 source.toList := by simp [hscan]
      have hlt := (start_of_mem_scan hmem).2
      rw [String.ofList_toList, Nat.zero_add] at hlt
      exact Nat.le_of_lt hlt
    · obtain ⟨text, haccepted⟩ := exists_accepted hreads
      refine ⟨_, haccepted, ?_⟩
      rw [hstart, take_utf8 hsource, utf8_eq_flatMap, String.toList_ofList, List.flatMap_append]
      exact List.prefix_append _ _
    · rw [hstart, take_succ_utf8 hsource] at hbegin
      obtain ⟨d, rest, hblock, hd⟩ := exists_of_prefix_utf8 hbegin
      exact not_accepted hreads hnone hbegins hd hblock haccepted

theorem refused_at_first_byte_sample :
    (parse "or(vm().é" .initial).1 = .error ⟨"expected an identifier", .point 8⟩ ∧
      (∃ block, Accepted block ∧ (utf8 "or(vm().é").take 8 <+: utf8 block) ∧
      ∀ block, Accepted block → ¬ (utf8 "or(vm().é").take 9 <+: utf8 block := by
  have hparse : (parse "or(vm().é" .initial).1 = .error ⟨"expected an identifier", .point 8⟩ := rfl
  obtain ⟨p, hpoint, -, hviable, hrefused⟩ := refused_at_first_byte hparse
  obtain rfl : 8 = p := congrArg Span.start hpoint
  exact ⟨hparse, hviable, hrefused (by decide)⟩

end InputDetail.Document
