import InputDetail.Proofs.Document.Reading
import InputDetail.Proofs.Document.Scan

/-!
# Texts that begin later

A text that begins at a later offset is scanned and read in the same way; all spans are later by the
same number of bytes. Where a text ends with a mark, or with nothing, the text behind it is scanned by
itself.
-/
namespace InputDetail

/-- The span that lies `n` bytes further on. -/
def Span.shift (n : Nat) (span : Span) : Span := ⟨span.start + n, span.stop + n⟩

@[simp] theorem Span.shift_zero (span : Span) : span.shift 0 = span := rfl

namespace Document

def Token.shift (n : Nat) (token : Token) : Token := { token with span := token.span.shift n }

theorem symbols_shift (n : Nat) (tokens : List Token) :
    (tokens.map (Token.shift n)).map (·.symbol) = tokens.map (·.symbol) := by
  rw [List.map_map]
  rfl

variable {n offset : Nat} {first second : List Char} {c : Char} {later more : List Token}

theorem extendWord_shift (later : List Token) :
    extendWord c (offset + n) (later.map (Token.shift n)) =
      (extendWord c offset later).map (Token.shift n) := by
  cases later with
  | nil => simp [extendWord, Token.shift, Span.shift, Nat.add_right_comm]
  | cons token later =>
    obtain ⟨symbol, span⟩ := token
    cases symbol with
    | mark d => simp [extendWord, Token.shift, Span.shift, Nat.add_right_comm]
    | word text =>
      by_cases hstart : span.start = offset + 1
      · have hlater : span.start + n = offset + n + 1 := by omega
        simp [extendWord, Token.shift, Span.shift, hstart, Nat.add_right_comm]
      · have hlater : ¬ span.start + n = offset + n + 1 := by omega
        simp [extendWord, Token.shift, Span.shift, hstart, hlater, Nat.add_right_comm]

/-- A text has the same tokens wherever it begins. -/
theorem scan_shift (n offset : Nat) (text : List Char) :
    scan (offset + n) text = (scan offset text).map (Token.shift n) := by
  induction text generalizing offset with
  | nil => rfl
  | cons d text ih =>
    simp only [scan]
    rw [Nat.add_right_comm, ih]
    split
    · rfl
    · split
      · exact extendWord_shift _
      · simp [Token.shift, Span.shift, Nat.add_right_comm]

theorem extendWord_append (hfilled : later ≠ []) :
    extendWord c offset (later ++ more) = extendWord c offset later ++ more := by
  cases later with
  | nil => exact absurd rfl hfilled
  | cons token later =>
    obtain ⟨symbol, span⟩ := token
    cases symbol with
    | mark d => rfl
    | word text =>
      simp only [List.cons_append, extendWord]
      split <;> rfl

theorem separated_word_iff {text : List Char} {row : List Symbol} :
    Separated (.word text :: row) ↔ ∃ c rest, row = .mark c :: rest ∧ IsMark c ∧ Separated rest := by
  constructor
  · intro h
    cases h with
    | word _ sign rest => exact ⟨_, _, rfl, sign, rest⟩
  · rintro ⟨c, rest, rfl, sign, hrest⟩
    exact .word text sign hrest

/-- If a mark follows the word that a letter belongs to, then the letter is not the last character of
the text, and a mark follows each word behind it. -/
theorem separated_of_extendWord (h : Separated ((extendWord c offset later).map (·.symbol))) :
    later ≠ [] ∧ Separated (later.map (·.symbol)) := by
  cases later with
  | nil => cases h
  | cons token later =>
    refine ⟨List.cons_ne_nil _ _, ?_⟩
    obtain ⟨symbol, span⟩ := token
    cases symbol with
    | mark d =>
      obtain ⟨_, _, heq, sign, hrest⟩ := separated_word_iff.1 h
      cases heq
      exact .mark sign hrest
    | word text =>
      simp only [extendWord] at h
      split at h
      · exact separated_word_iff.2 (separated_word_iff.1 h)
      · obtain ⟨_, _, heq, -⟩ := separated_word_iff.1 h
        cases heq

/-- The text behind a mark is scanned by itself. -/
theorem scan_append (h : Separated ((scan offset first).map (·.symbol))) :
    scan offset (first ++ second) =
      scan offset first ++ scan (offset + (String.ofList first).utf8ByteSize) second := by
  induction first generalizing offset with
  | nil => simp [scan]
  | cons d first ih =>
    rw [utf8ByteSize_ofList_cons, ← Nat.add_assoc]
    simp only [List.cons_append, scan] at h ⊢
    split at h
    · next hspace => rw [if_pos hspace, if_pos hspace, ih h]
    · next hspace =>
      rw [if_neg hspace, if_neg hspace]
      split at h
      · next hletter =>
        obtain ⟨hfilled, hlater⟩ := separated_of_extendWord h
        rw [if_pos hletter, if_pos hletter, ih hlater, extendWord_append hfilled]
      · next hletter =>
        cases h with
        | mark _ rest => rw [if_neg hletter, if_neg hletter, ih rest, List.cons_append]

mutual

/-- The term that stands `n` bytes further on. -/
def Term.shift {α : Type} (n : Nat) : Term α → Term α
  | .call name args span => .call name (Term.shiftAll n args) (span.shift n)
  | .access receiver name args span =>
    .access (Term.shift n receiver) name (Term.shiftAll n args) (span.shift n)
  | .index array field fieldSpan span =>
    .index (Term.shift n array) field (fieldSpan.shift n) (span.shift n)

def Term.shiftAll {α : Type} (n : Nat) : List (Term α) → List (Term α)
  | [] => []
  | term :: terms => Term.shift n term :: Term.shiftAll n terms

end

namespace Term

variable {α β : Type}

@[simp] theorem shiftAll_eq_map (n : Nat) (terms : List (Term α)) :
    shiftAll n terms = terms.map (shift n) := by
  induction terms with
  | nil => rfl
  | cons term terms ih => simp [shiftAll, ih]

@[simp] theorem span_shift (n : Nat) (term : Term α) : (term.shift n).span = term.span.shift n := by
  cases term <;> rfl

mutual

theorem shift_zero : (term : Term α) → term.shift 0 = term
  | call name args span => by rw [shift, shiftAll_zero args, Span.shift_zero]
  | access receiver name args span => by
    rw [shift, shift_zero receiver, shiftAll_zero args, Span.shift_zero]
  | index array field fieldSpan span => by
    rw [shift, shift_zero array, Span.shift_zero, Span.shift_zero]

theorem shiftAll_zero : (terms : List (Term α)) → shiftAll 0 terms = terms
  | [] => rfl
  | term :: terms => by rw [shiftAll, shift_zero term, shiftAll_zero terms]

end

mutual

/-- Replacing identifiers is the same further on. -/
theorem map_shift (f : α → β) (n : Nat) : (term : Term α) → (term.shift n).map f = (term.map f).shift n
  | call name args span => by rw [shift, map, map, shift, mapAll_shiftAll f n args]
  | access receiver name args span => by
    rw [shift, map, map, shift, map_shift f n receiver, mapAll_shiftAll f n args]
  | index array field fieldSpan span => by rw [shift, map, map, shift, map_shift f n array]

theorem mapAll_shiftAll (f : α → β) (n : Nat) :
    (terms : List (Term α)) → mapAll f (shiftAll n terms) = shiftAll n (mapAll f terms)
  | [] => rfl
  | term :: terms => by
    rw [shiftAll, mapAll, mapAll, shiftAll, map_shift f n term, mapAll_shiftAll f n terms]

end

end Term

def CallHead.shift (n : Nat) (head : CallHead) : CallHead :=
  ⟨head.receiver.map (Term.shift n), head.name, head.start + n⟩

def OpenCall.shift (n : Nat) (call : OpenCall) : OpenCall :=
  ⟨call.head.shift n, call.args.map (Term.shift n)⟩

theorem OpenCall.close_shift (n : Nat) (call : OpenCall) (stop : Nat) :
    (call.shift n).close (stop + n) = (call.close stop).shift n := by
  obtain ⟨⟨receiver, name, start⟩, args⟩ := call
  cases receiver <;> simp [close, shift, CallHead.shift, Term.shift, Span.shift]

theorem OpenCall.add_shift (n : Nat) (call : OpenCall) (arg : Term String) :
    (call.shift n).add (arg.shift n) = (call.add arg).shift n := by
  simp [add, shift]

def Place.shift (n : Nat) : Place → Place
  | .between => .between
  | .head opening => .head (opening.shift n)
  | .firstArgument call => .firstArgument (call.shift n)
  | .nextArgument call => .nextArgument (call.shift n)
  | .term target => .term (target.shift n)
  | .receiver target => .receiver (target.shift n)
  | .array target => .array (target.shift n)
  | .field target name span => .field (target.shift n) name (span.shift n)

namespace Reader

/-- The reader of a text that stands `n` bytes further on, behind statements that are done. -/
def behind (done : List (Term String)) (n : Nat) (reader : Reader) : Reader :=
  ⟨done ++ reader.statements.map (Term.shift n), reader.place.shift n,
    reader.calls.map (OpenCall.shift n)⟩

variable {reader final next : Reader} {done terms : List (Term String)} {token : Token}
  {tokens : List Token} {row : List Symbol}

/-- A step can be made behind other statements as it is made by itself. -/
theorem Step.behind (h : Step reader token next) (done : List (Term String)) (n : Nat) :
    Step (reader.behind done n) (token.shift n) (next.behind done n) := by
  cases h with
  | statement before calls text span => exact .statement ..
  | nextStatement before last text span =>
    rw [Reader.behind, Reader.behind, List.map_append, ← List.append_assoc]
    exact .nextStatement ..
  | firstArgument before call calls text span => exact .firstArgument ..
  | nextArgument before call calls text span => exact .nextArgument ..
  | member before target calls text span =>
    have hmember := Step.member (done ++ before.map (Term.shift n)) (target.shift n)
      (calls.map (OpenCall.shift n)) text (span.shift n)
    rwa [Term.span_shift] at hmember
  | field before target calls text span => exact .field ..
  | gap before calls span => exact .gap ..
  | semicolon before last span =>
    rw [Reader.behind, Reader.behind, List.map_append, ← List.append_assoc]
    exact .semicolon ..
  | openCall before opening calls span => exact .openCall ..
  | closeEmpty before call calls span =>
    rw [Reader.behind, Reader.behind, Place.shift, Place.shift, ← OpenCall.close_shift]
    exact .closeEmpty ..
  | comma before arg call calls span =>
    rw [Reader.behind, Reader.behind, Place.shift, Place.shift, ← OpenCall.add_shift]
    exact .comma ..
  | closeCall before arg call calls span =>
    rw [Reader.behind, Reader.behind, Place.shift, Place.shift, ← OpenCall.close_shift,
      ← OpenCall.add_shift]
    exact .closeCall ..
  | point before target calls span => exact .point ..
  | bracket before target calls span => exact .bracket ..
  | closeIndex before target field fieldSpan calls span =>
    have hindex := Step.closeIndex (done ++ before.map (Term.shift n)) (target.shift n) field
      (fieldSpan.shift n) (calls.map (OpenCall.shift n)) (span.shift n)
    rwa [Term.span_shift] at hindex

theorem reads_behind (hreads : reader.reads tokens = some next) (done : List (Term String)) (n : Nat) :
    (reader.behind done n).reads (tokens.map (Token.shift n)) = some (next.behind done n) := by
  induction tokens generalizing reader with
  | nil =>
    obtain rfl := Option.some.inj hreads
    rfl
  | cons token tokens ih =>
    rw [reads_cons] at hreads
    obtain ⟨middle, hread, hrest⟩ := Option.bind_eq_some_iff.1 hreads
    have hstep := (read_eq_some_iff.1 hread).behind done n
    rw [List.map_cons, reads_cons, read_eq_some_iff.2 hstep, Option.bind_some, ih hrest]

theorem finish_behind (done : List (Term String)) (n : Nat) (reader : Reader) :
    (reader.behind done n).finish = reader.finish.map fun terms => done ++ terms.map (Term.shift n) := by
  obtain ⟨statements, place, calls⟩ := reader
  cases place <;> cases calls <;> simp [behind, finish, Place.shift]

/-- Where a block may end, the reader is outside all calls. -/
theorem Consumed.settled (h : reader.Consumed row) (hfinish : reader.finish = some terms) :
    reader.Settled terms := by
  obtain ⟨statements, place, calls⟩ := reader
  unfold finish at hfinish
  split at hfinish
  · next hplace =>
    obtain rfl := Option.some.inj hfinish
    obtain rfl : place = .between := hplace
    obtain rfl : calls = [] := h.outside rfl
    exact .between statements
  · next hplace hcalls =>
    obtain rfl := Option.some.inj hfinish
    obtain rfl : place = _ := hplace
    obtain rfl : calls = [] := hcalls
    exact .term statements _
  · cases hfinish

/-- What can begin a block can follow wherever a block may end. -/
theorem Settled.read_of_initial (h : reader.Settled done) (hread : initial.read token = some next)
    (n : Nat) : reader.read (token.shift n) = some (next.behind done n) := by
  have hstep := read_eq_some_iff.1 hread
  rw [initial] at hstep
  cases hstep with
  | statement _ _ text span =>
    refine (h.opens (String.ofList text) (span.shift n)).trans ?_
    simp [behind, Place.shift, CallHead.shift, Span.shift]
  | gap _ _ span =>
    refine h.readMark.trans ?_
    simp [behind, Place.shift]

/-- Behind a block that may end, the tokens of a block are read as they would be read by themselves. Only
the first of them meets the reader where the block before it ends. -/
theorem Settled.reads_of_initial (h : reader.Settled done) (hreads : initial.reads tokens = some final)
    (hfinish : final.finish = some terms) (n : Nat) :
    ∃ final', reader.reads (tokens.map (Token.shift n)) = some final' ∧
      final'.finish = some (done ++ terms.map (Term.shift n)) := by
  cases tokens with
  | nil =>
    obtain rfl := Option.some.inj hreads
    obtain rfl := Option.some.inj hfinish
    exact ⟨reader, rfl, by simpa [initial] using h.finish⟩
  | cons token tokens =>
    rw [reads_cons] at hreads
    obtain ⟨next, hread, hrest⟩ := Option.bind_eq_some_iff.1 hreads
    refine ⟨final.behind done n, ?_, by rw [finish_behind, hfinish, Option.map_some]⟩
    rw [List.map_cons, reads_cons, h.read_of_initial hread, Option.bind_some, reads_behind hrest]

end Reader

end Document

end InputDetail
