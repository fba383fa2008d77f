import InputDetail.Proofs.Document.Concatenation
import InputDetail.Proofs.Document.Nesting

/-!
# Spans of parsed expressions

The tokens of a text follow each other. What the reader has read lies before the next token, and what
it is reading has begun before: so a term that it closes reaches over its parts. The spans of a parsed
block are nested ranges of its text.
-/
namespace InputDetail.Document

/-- The tokens lie in a stretch of text, and each begins where the one before it ends, or later. -/
def InOrder (start stop : Nat) : List Token → Prop
  | [] => start ≤ stop
  | token :: tokens =>
    start ≤ token.span.start ∧ token.span.start ≤ token.span.stop ∧
      InOrder token.span.stop stop tokens

variable {start stop limit offset : Nat} {tokens later : List Token} {token : Token}

theorem InOrder.of_le {earlier : Nat} (h : InOrder start stop tokens) (hle : earlier ≤ start) :
    InOrder earlier stop tokens := by
  cases tokens with
  | nil => exact Nat.le_trans hle h
  | cons token tokens => exact ⟨Nat.le_trans hle h.1, h.2⟩

theorem inOrder_extendWord (c : Char) (h : InOrder (offset + 1) stop later) :
    InOrder offset stop (extendWord c offset later) := by
  have hown : InOrder offset stop (⟨.word [c], ⟨offset, offset + 1⟩⟩ :: later) :=
    ⟨Nat.le_refl _, Nat.le_succ _, h⟩
  cases later with
  | nil => exact hown
  | cons token later =>
    obtain ⟨symbol, span⟩ := token
    cases symbol with
    | mark d => exact hown
    | word text =>
      rw [extendWord]
      split
      · next hstart =>
        obtain ⟨hle, hspan, hlater⟩ := h
        exact ⟨Nat.le_refl _, by dsimp only at hspan ⊢; omega, hlater⟩
      · exact hown

theorem inOrder_scan (offset : Nat) (text : List Char) :
    InOrder offset (offset + (String.ofList text).utf8ByteSize) (scan offset text) := by
  induction text generalizing offset with
  | nil => exact Nat.le_add_right _ _
  | cons c text ih =>
    rw [utf8ByteSize_ofList_cons, ← Nat.add_assoc]
    have hlater := ih (offset + c.utf8Size)
    rw [scan]
    split
    · exact hlater.of_le (Nat.le_add_right _ _)
    · split
      · next hletter =>
        rw [utf8Size_eq_one_of_isWordChar hletter] at hlater ⊢
        exact inOrder_extendWord c hlater
      · exact ⟨Nat.le_refl _, Nat.le_add_right _ _, hlater⟩

/-- The receiver lies before the offset, and the chain begins with it. -/
def CallHead.Nested (limit : Nat) (head : CallHead) : Prop :=
  head.start ≤ limit ∧
    ∀ receiver ∈ head.receiver, receiver.Nested limit ∧ head.start ≤ receiver.span.start

/-- The arguments lie between the beginning of the call and the offset. -/
def OpenCall.Nested (limit : Nat) (call : OpenCall) : Prop :=
  call.head.Nested limit ∧
    ∀ arg ∈ call.args, arg.Nested limit ∧ call.head.start ≤ arg.span.start

/-- What the place holds lies before the offset. -/
def Place.Nested (limit : Nat) : Place → Prop
  | .between => True
  | .head opening => opening.Nested limit
  | .firstArgument call => call.Nested limit
  | .nextArgument call => call.Nested limit
  | .term target => target.Nested limit
  | .receiver target => target.Nested limit
  | .array target => target.Nested limit
  | .field target _ span =>
    target.Nested limit ∧ span.Within limit ∧ target.span.start ≤ span.start

/-- Where the innermost call or term begins. -/
def Place.begins : Place → Nat
  | .between => 0
  | .head opening => opening.start
  | .firstArgument call => call.head.start
  | .nextArgument call => call.head.start
  | .term target => target.span.start
  | .receiver target => target.span.start
  | .array target => target.span.start
  | .field target _ _ => target.span.start

/-- Each call begins before what stands in it, the innermost before `start`. -/
def OpenCall.Around (limit start : Nat) : List OpenCall → Prop
  | [] => True
  | call :: calls =>
    call.Nested limit ∧ call.head.start ≤ start ∧ OpenCall.Around limit call.head.start calls

/-- All that the reader holds lies before the offset and is nested. -/
structure Reader.Nested (limit : Nat) (reader : Reader) : Prop where
  statements : ∀ term ∈ reader.statements, term.Nested limit
  place : reader.place.Nested limit
  calls : OpenCall.Around limit reader.place.begins reader.calls

section

variable {larger : Nat} (hle : limit ≤ larger)
include hle

theorem CallHead.Nested.mono {head : CallHead} (h : head.Nested limit) : head.Nested larger :=
  ⟨Nat.le_trans h.1 hle, fun receiver hmem =>
    ⟨(h.2 receiver hmem).1.mono hle, (h.2 receiver hmem).2⟩⟩

theorem OpenCall.Nested.mono {call : OpenCall} (h : call.Nested limit) : call.Nested larger :=
  ⟨h.1.mono hle, fun arg hmem => ⟨(h.2 arg hmem).1.mono hle, (h.2 arg hmem).2⟩⟩

theorem Place.Nested.mono {place : Place} (h : place.Nested limit) : place.Nested larger := by
  cases place with
  | between => trivial
  | head opening => exact CallHead.Nested.mono hle h
  | firstArgument call => exact OpenCall.Nested.mono hle h
  | nextArgument call => exact OpenCall.Nested.mono hle h
  | term target => exact Term.Nested.mono hle target h
  | receiver target => exact Term.Nested.mono hle target h
  | array target => exact Term.Nested.mono hle target h
  | field target _ span => exact ⟨h.1.mono hle, h.2.1.mono hle, h.2.2⟩

theorem OpenCall.Around.mono {start : Nat} {calls : List OpenCall}
    (h : OpenCall.Around limit start calls) : OpenCall.Around larger start calls := by
  induction calls generalizing start with
  | nil => trivial
  | cons call calls ih => exact ⟨h.1.mono hle, h.2.1, ih h.2.2⟩

theorem Reader.Nested.mono {reader : Reader} (h : reader.Nested limit) : reader.Nested larger :=
  ⟨fun term hmem => (h.statements term hmem).mono hle, h.place.mono hle, h.calls.mono hle⟩

end

namespace OpenCall

theorem Around.of_le {calls : List OpenCall} (h : Around limit start calls) (hle : start ≤ offset) :
    Around limit offset calls := by
  cases calls with
  | nil => trivial
  | cons call calls => exact ⟨h.1, Nat.le_trans h.2.1 hle, h.2.2⟩

theorem Nested.add {call : OpenCall} {arg : Term String} (h : call.Nested limit)
    (harg : arg.Nested limit) (hstart : call.head.start ≤ arg.span.start) :
    (call.add arg).Nested limit := by
  refine ⟨h.1, List.forall_mem_append.2 ⟨h.2, ?_⟩⟩
  exact List.forall_mem_singleton.2 ⟨harg, hstart⟩

theorem span_close (call : OpenCall) (stop : Nat) :
    (call.close stop).span = ⟨call.head.start, stop⟩ := by
  unfold close
  split <;> rfl

/-- A call that is closed reaches over its receiver and its arguments. -/
theorem Nested.close {call : OpenCall} (h : call.Nested stop) : (call.close stop).Nested stop := by
  obtain ⟨⟨receiver, name, start⟩, args⟩ := call
  obtain ⟨⟨hstart, hreceiver⟩, hargs⟩ := h
  have hspan : Span.Within stop ⟨start, stop⟩ := ⟨hstart, Nat.le_refl _⟩
  have hall : Term.NestedAll stop ⟨start, stop⟩ args :=
    Term.nestedAll_iff.2 fun arg hmem => ⟨⟨(hargs arg hmem).2, (hargs arg hmem).1.within.2⟩,
      (hargs arg hmem).1⟩
  cases receiver with
  | none => exact ⟨hspan, hall⟩
  | some receiver =>
    obtain ⟨hnested, hbegins⟩ := hreceiver receiver rfl
    exact ⟨hspan, ⟨hbegins, hnested.within.2⟩, hnested, hall⟩

end OpenCall

namespace Reader

variable {reader next : Reader}

theorem nested_initial (limit : Nat) : initial.Nested limit := ⟨nofun, trivial, trivial⟩

/-- A token behind all that has been read. -/
theorem Nested.step (h : reader.Nested limit) (hstart : limit ≤ token.span.start)
    (hspan : token.span.start ≤ token.span.stop) (hstep : reader.Step token next) :
    next.Nested token.span.stop := by
  have hopening : ∀ text, CallHead.Nested token.span.stop ⟨none, text, token.span.start⟩ :=
    fun _ => ⟨hspan, nofun⟩
  have hplace' := h.place
  obtain ⟨hstatements, hplace, hcalls⟩ := h.mono (Nat.le_trans hstart hspan)
  cases hstep with
  | statement done calls text span =>
    exact ⟨hstatements, hopening _, hcalls.of_le (Nat.zero_le _)⟩
  | nextStatement done last text span =>
    refine ⟨List.forall_mem_append.2 ⟨hstatements, ?_⟩, hopening _, trivial⟩
    exact List.forall_mem_singleton.2 hplace
  | firstArgument done call calls text span =>
    exact ⟨hstatements, hopening _, hplace, Nat.le_trans hplace'.1.1 hstart, hcalls⟩
  | nextArgument done call calls text span =>
    exact ⟨hstatements, hopening _, hplace, Nat.le_trans hplace'.1.1 hstart, hcalls⟩
  | member done target calls text span =>
    have hwithin := Term.Nested.within hplace
    refine ⟨hstatements, ⟨Nat.le_trans hwithin.1 hwithin.2, ?_⟩, hcalls⟩
    rintro _ ⟨⟩
    exact ⟨hplace, Nat.le_refl _⟩
  | field done target calls text span =>
    have hwithin := Term.Nested.within hplace'
    exact ⟨hstatements, ⟨hplace, ⟨hspan, Nat.le_refl _⟩,
      Nat.le_trans hwithin.1 (Nat.le_trans hwithin.2 hstart)⟩, hcalls⟩
  | gap done calls span => exact ⟨hstatements, hplace, hcalls⟩
  | semicolon done last span =>
    refine ⟨List.forall_mem_append.2 ⟨hstatements, ?_⟩, trivial, trivial⟩
    exact List.forall_mem_singleton.2 hplace
  | openCall done opening calls span => exact ⟨hstatements, ⟨hplace, nofun⟩, hcalls⟩
  | closeEmpty done call calls span =>
    refine ⟨hstatements, OpenCall.Nested.close hplace, ?_⟩
    rwa [Place.begins, OpenCall.span_close]
  | comma done arg call calls span =>
    obtain ⟨hcall, hbegins, hcalls⟩ := hcalls
    exact ⟨hstatements, hcall.add hplace hbegins, hcalls⟩
  | closeCall done arg call calls span =>
    obtain ⟨hcall, hbegins, hcalls⟩ := hcalls
    refine ⟨hstatements, (hcall.add hplace hbegins).close, ?_⟩
    rwa [Place.begins, OpenCall.span_close]
  | point done target calls span => exact ⟨hstatements, hplace, hcalls⟩
  | bracket done target calls span => exact ⟨hstatements, hplace, hcalls⟩
  | closeIndex done target field fieldSpan calls span =>
    obtain ⟨harray, hfield, hbegins⟩ := hplace
    have hwithin := harray.within
    exact ⟨hstatements, ⟨⟨Nat.le_trans hwithin.1 hwithin.2, Nat.le_refl _⟩,
      ⟨Nat.le_refl _, hwithin.2⟩, ⟨hbegins, hfield.2⟩, hfield, harray⟩, hcalls⟩

/-- What is read from tokens that follow each other is nested. -/
theorem Nested.reads (h : reader.Nested start) (horder : InOrder start stop tokens)
    (hreads : reader.reads tokens = some next) : next.Nested stop := by
  induction tokens generalizing reader start with
  | nil =>
    obtain rfl := Option.some.inj hreads
    exact h.mono horder
  | cons token tokens ih =>
    rw [reads_cons] at hreads
    obtain ⟨middle, hread, hrest⟩ := Option.bind_eq_some_iff.1 hreads
    exact ih (h.step horder.1 horder.2.1 (read_eq_some_iff.1 hread)) horder.2.2 hrest

theorem Nested.finish (h : reader.Nested limit) {terms : List (Term String)}
    (hfinish : reader.finish = some terms) : ∀ term ∈ terms, term.Nested limit := by
  unfold Reader.finish at hfinish
  split at hfinish
  · obtain rfl := Option.some.inj hfinish
    exact h.statements
  · next term hplace _ =>
    obtain rfl := Option.some.inj hfinish
    refine List.forall_mem_append.2 ⟨h.statements, List.forall_mem_singleton.2 ?_⟩
    have hterm := h.place
    rwa [hplace] at hterm
  · cases hfinish

end Reader

variable {source : String}

/-- The terms of a block are nested in its text. -/
theorem nested_of_readTerms {terms : List (Term String)} (h : (readTerms source).1 = .ok terms) :
    ∀ term ∈ terms, term.Nested source.utf8ByteSize := by
  obtain ⟨final, hreads, hfinish⟩ := Reader.readAll_eq_ok_iff.1 (readTerms_eq_ok_iff.1 h)
  have horder := inOrder_scan 0 source.toList
  rw [String.ofList_toList, Nat.zero_add] at horder
  exact ((Reader.nested_initial 0).reads horder hreads).finish hfinish

/-- The expressions of a block are nested in its text. -/
theorem nested_of_parse {names : NameTable} {document : Document}
    (h : (parse source names).1 = .ok document) : document.store.Nested source.utf8ByteSize := by
  obtain ⟨terms, hread⟩ : ∃ terms, (readTerms source).1 = .ok terms :=
    Accepted.exists_terms ⟨names, document, h⟩
  have hterms := nested_of_readTerms hread
  rw [parse_of_ok hread] at h
  obtain rfl := Except.ok.inj h
  have hall : Term.NestedAll source.utf8ByteSize ⟨0, source.utf8ByteSize⟩ terms :=
    Term.nestedAll_iff.2 fun term hmem =>
      ⟨⟨Nat.zero_le _, (hterms term hmem).within.2⟩, hterms term hmem⟩
  exact ((hall.mapAll _ terms).storeAll _ .empty (ExprStore.nested_empty _)).1

end InputDetail.Document
