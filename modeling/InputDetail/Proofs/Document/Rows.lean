import InputDetail.Proofs.Document.Spans

/-!
# Statements in a row

Tokens are not empty, and a statement ends with its last token, before the next statement begins. So the
statements of a block are not empty either, and they lie one behind the other in its text.
-/
namespace InputDetail.Document

variable {limit larger floor offset : Nat} {text : List Char} {tokens : List Token} {token : Token}
  {term : Term String} {terms : List (Term String)}

theorem lt_of_mem_extendWord {c : Char} {later : List Token}
    (hlater : ∀ token ∈ later, token.span.start < token.span.stop)
    (h : token ∈ extendWord c offset later) : token.span.start < token.span.stop := by
  unfold extendWord at h
  split at h
  · next word span rest =>
    have hword := hlater _ List.mem_cons_self
    split at h
    · obtain rfl | h := List.mem_cons.1 h
      · dsimp only at hword ⊢
        omega
      · exact hlater _ (List.mem_cons_of_mem _ h)
    · obtain rfl | h := List.mem_cons.1 h
      · exact Nat.lt_succ_self offset
      · exact hlater _ h
  · obtain rfl | h := List.mem_cons.1 h
    · exact Nat.lt_succ_self offset
    · exact hlater _ h

/-- No token is empty. -/
theorem lt_of_mem_scan (h : token ∈ scan offset text) : token.span.start < token.span.stop := by
  induction text generalizing offset token with
  | nil => cases h
  | cons c text ih =>
    simp only [scan] at h
    split at h
    · exact ih h
    · split at h
      · exact lt_of_mem_extendWord (fun _ hmem => ih hmem) h
      · obtain rfl | h := List.mem_cons.1 h
        · exact Nat.lt_add_of_pos_right c.utf8Size_pos
        · exact ih h

/-- The terms are not empty, lie one behind the other, and end before the offset. -/
structure InRow (floor : Nat) (terms : List (Term String)) : Prop where
  row : terms.Pairwise fun term later => term.span.stop ≤ later.span.start
  before : ∀ term ∈ terms, term.span.start < term.span.stop ∧ term.span.stop ≤ floor

theorem inRow_nil (floor : Nat) : InRow floor [] := ⟨.nil, nofun⟩

theorem InRow.concat (h : InRow floor terms) (hstart : floor ≤ term.span.start)
    (hterm : term.span.start < term.span.stop) : InRow term.span.stop (terms ++ [term]) where
  row := List.pairwise_append.2 ⟨h.row, List.pairwise_singleton _ _, fun other hother last hlast => by
    obtain rfl := List.mem_singleton.1 hlast
    exact Nat.le_trans (h.before other hother).2 hstart⟩
  before := by
    refine List.forall_mem_append.2 ⟨fun other hother => ?_, List.forall_mem_singleton.2 ?_⟩
    · obtain ⟨hother, hbefore⟩ := h.before other hother
      exact ⟨hother, by omega⟩
    · exact ⟨hterm, Nat.le_refl _⟩

/-- A call that is open has begun between two offsets. -/
def CallHead.Begun (floor limit : Nat) (head : CallHead) : Prop :=
  floor ≤ head.start ∧ head.start < limit

/-- A term that is read lies between two offsets and is not empty. -/
def Term.Begun (floor limit : Nat) (term : Term String) : Prop :=
  floor ≤ term.span.start ∧ term.span.start < term.span.stop ∧ term.span.stop ≤ limit

/-- What the place holds has begun between two offsets. -/
def Place.Begun (floor limit : Nat) : Place → Prop
  | .between => True
  | .head opening => opening.Begun floor limit
  | .firstArgument call => call.head.Begun floor limit
  | .nextArgument call => call.head.Begun floor limit
  | .term target => target.Begun floor limit
  | .receiver target => target.Begun floor limit
  | .array target => target.Begun floor limit
  | .field target _ _ => target.Begun floor limit

/-- Finished statements lie in a row before the offset `floor`, and the statement that is read has
begun behind it. -/
structure Reader.Begun (floor limit : Nat) (reader : Reader) : Prop where
  floor_le : floor ≤ limit
  statements : InRow floor reader.statements
  place : reader.place.Begun floor limit
  calls : ∀ call ∈ reader.calls, call.head.Begun floor limit

theorem CallHead.Begun.mono {head : CallHead} (h : head.Begun floor limit) (hle : limit ≤ larger) :
    head.Begun floor larger := ⟨h.1, Nat.lt_of_lt_of_le h.2 hle⟩

theorem Term.Begun.mono (h : term.Begun floor limit) (hle : limit ≤ larger) :
    term.Begun floor larger := ⟨h.1, h.2.1, Nat.le_trans h.2.2 hle⟩

theorem Place.Begun.mono {place : Place} (h : place.Begun floor limit) (hle : limit ≤ larger) :
    place.Begun floor larger := by
  cases place with
  | between => trivial
  | head opening => exact CallHead.Begun.mono h hle
  | firstArgument call => exact CallHead.Begun.mono h hle
  | nextArgument call => exact CallHead.Begun.mono h hle
  | term target => exact Term.Begun.mono h hle
  | receiver target => exact Term.Begun.mono h hle
  | array target => exact Term.Begun.mono h hle
  | field target _ _ => exact Term.Begun.mono h hle

theorem Term.Begun.head (h : term.Begun floor limit) (name : String) :
    CallHead.Begun floor limit ⟨some term, name, term.span.start⟩ :=
  ⟨h.1, Nat.lt_of_lt_of_le h.2.1 h.2.2⟩

/-- A call that ends behind its beginning. -/
theorem OpenCall.begun_close {call : OpenCall} (h : call.head.Begun floor limit) :
    (call.close limit).Begun floor limit := by
  rw [Term.Begun, OpenCall.span_close]
  exact ⟨h.1, h.2, Nat.le_refl _⟩

namespace Reader

variable {reader next : Reader}

theorem begun_initial : initial.Begun 0 0 := ⟨Nat.le_refl 0, inRow_nil 0, trivial, nofun⟩

theorem Begun.mono (h : reader.Begun floor limit) (hle : limit ≤ larger) :
    reader.Begun floor larger :=
  ⟨Nat.le_trans h.floor_le hle, h.statements, h.place.mono hle,
    fun call hcall => (h.calls call hcall).mono hle⟩

theorem Begun.step (h : reader.Begun floor limit) (hstart : limit ≤ token.span.start)
    (hspan : token.span.start < token.span.stop) (hstep : reader.Step token next) :
    ∃ floor', next.Begun floor' token.span.stop := by
  have hopening : ∀ text, CallHead.Begun floor token.span.stop ⟨none, text, token.span.start⟩ :=
    fun _ => ⟨Nat.le_trans h.floor_le hstart, hspan⟩
  obtain ⟨hfloor, hstatements, hplace, hcalls⟩ := h.mono (by omega : limit ≤ token.span.stop)
  cases hstep with
  | statement done calls text span => exact ⟨floor, hfloor, hstatements, hopening _, hcalls⟩
  | nextStatement done last text span =>
    have hbehind := Nat.le_trans h.place.2.2 hstart
    exact ⟨last.span.stop, hplace.2.2, hstatements.concat hplace.1 hplace.2.1, ⟨hbehind, hspan⟩,
      nofun⟩
  | firstArgument done call calls text span =>
    exact ⟨floor, hfloor, hstatements, hopening _, List.forall_mem_cons.2 ⟨hplace, hcalls⟩⟩
  | nextArgument done call calls text span =>
    exact ⟨floor, hfloor, hstatements, hopening _, List.forall_mem_cons.2 ⟨hplace, hcalls⟩⟩
  | member done target calls text span =>
    exact ⟨floor, hfloor, hstatements, Term.Begun.head hplace _, hcalls⟩
  | field done target calls text span => exact ⟨floor, hfloor, hstatements, hplace, hcalls⟩
  | gap done calls span => exact ⟨floor, hfloor, hstatements, hplace, hcalls⟩
  | semicolon done last span =>
    exact ⟨last.span.stop, hplace.2.2, hstatements.concat hplace.1 hplace.2.1, trivial, nofun⟩
  | openCall done opening calls span => exact ⟨floor, hfloor, hstatements, hplace, hcalls⟩
  | closeEmpty done call calls span =>
    exact ⟨floor, hfloor, hstatements, OpenCall.begun_close hplace, hcalls⟩
  | comma done arg call calls span =>
    obtain ⟨hcall, hcalls⟩ := List.forall_mem_cons.1 hcalls
    exact ⟨floor, hfloor, hstatements, hcall, hcalls⟩
  | closeCall done arg call calls span =>
    obtain ⟨hcall, hcalls⟩ := List.forall_mem_cons.1 hcalls
    exact ⟨floor, hfloor, hstatements, OpenCall.begun_close hcall, hcalls⟩
  | point done target calls span => exact ⟨floor, hfloor, hstatements, hplace, hcalls⟩
  | bracket done target calls span => exact ⟨floor, hfloor, hstatements, hplace, hcalls⟩
  | closeIndex done target field fieldSpan calls span =>
    have hindex : target.span.start < span.stop := Nat.lt_of_lt_of_le hplace.2.1 hplace.2.2
    exact ⟨floor, hfloor, hstatements, ⟨hplace.1, hindex, Nat.le_refl _⟩, hcalls⟩

theorem Begun.reads {start stop : Nat} (h : reader.Begun floor start)
    (horder : InOrder start stop tokens)
    (hspans : ∀ token ∈ tokens, token.span.start < token.span.stop)
    (hreads : reader.reads tokens = some next) : ∃ floor', next.Begun floor' stop := by
  induction tokens generalizing reader floor start with
  | nil =>
    obtain rfl := Option.some.inj hreads
    exact ⟨floor, h.mono horder⟩
  | cons token tokens ih =>
    rw [reads_cons] at hreads
    obtain ⟨middle, hread, hrest⟩ := Option.bind_eq_some_iff.1 hreads
    obtain ⟨hspan, hspans⟩ := List.forall_mem_cons.1 hspans
    obtain ⟨floor', hmiddle⟩ := h.step horder.1 hspan (read_eq_some_iff.1 hread)
    exact ih hmiddle horder.2.2 hspans hrest

theorem Begun.finish (h : reader.Begun floor limit) (hfinish : reader.finish = some terms) :
    ∃ floor', InRow floor' terms := by
  unfold Reader.finish at hfinish
  split at hfinish
  · obtain rfl := Option.some.inj hfinish
    exact ⟨floor, h.statements⟩
  · next target hplace _ =>
    obtain rfl := Option.some.inj hfinish
    have hterm := h.place
    rw [hplace] at hterm
    exact ⟨target.span.stop, h.statements.concat hterm.1 hterm.2.1⟩
  · cases hfinish

end Reader

/-- The statements of a block lie one behind the other in its text. -/
theorem inRow_of_readTerms {source : String} (h : (readTerms source).1 = .ok terms) :
    ∃ floor, InRow floor terms := by
  obtain ⟨final, hreads, hfinish⟩ := Reader.readAll_eq_ok_iff.1 (readTerms_eq_ok_iff.1 h)
  have horder := inOrder_scan 0 source.toList
  rw [String.ofList_toList, Nat.zero_add] at horder
  obtain ⟨floor, hfinal⟩ :=
    Reader.begun_initial.reads horder (fun _ hmem => lt_of_mem_scan hmem) hreads
  exact hfinal.finish hfinish

end InputDetail.Document
