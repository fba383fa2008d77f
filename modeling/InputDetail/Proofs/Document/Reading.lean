import InputDetail.Proofs.Document.Phrase
import InputDetail.Proofs.Document.Steps

/-!
# Reading

The reader accepts exactly the layouts of statements. That it accepts nothing else is an invariant:
what it has read so far is a layout of its statements, then the calls that are open, from the outside
in, then what its place tells. That it accepts every layout is an induction on phrases: wherever a
call may begin, reading a phrase ends after a term that says it.
-/
namespace InputDetail.Document

variable {statements : List (Term String)} {calls : List OpenCall} {reader next : Reader}
  {row : List Symbol} {tokens : List Token} {token : Token} {c : Char} {span : Span}

namespace Reader

/-- Reads tokens, if each can follow. -/
def reads (reader : Reader) (tokens : List Token) : Option Reader := tokens.foldlM read reader

@[simp] theorem reads_nil (reader : Reader) : reader.reads [] = some reader := rfl

theorem reads_cons (reader : Reader) (token : Token) (tokens : List Token) :
    reader.reads (token :: tokens) = (reader.read token).bind (·.reads tokens) := rfl

theorem reads_append (reader : Reader) (tokens more : List Token) :
    reader.reads (tokens ++ more) = (reader.reads tokens).bind (·.reads more) := by
  rw [reads, List.foldlM_append]
  rfl

theorem reads_of_read (h : reader.read token = some next) :
    reader.reads (token :: tokens) = next.reads tokens := by
  rw [reads_cons, h, Option.bind_some]

theorem read_of_word {text : String} (h : token.symbol = .word text.toList) :
    reader.read token = reader.readWord text token.span := by
  simp only [read, h, String.ofList_toList]

theorem read_of_mark (h : token.symbol = .mark c) :
    reader.read token = reader.readMark c token.span := by
  rw [read, h]

/-- A block is read if all its tokens are, and it may end after them. -/
theorem readAll_eq_ok_iff {stop : Nat} {terms : List (Term String)} :
    readAll stop reader tokens = .ok terms ↔
      ∃ final, reader.reads tokens = some final ∧ final.finish = some terms := by
  induction tokens generalizing reader with
  | nil =>
    rw [readAll]
    cases hfinish : reader.finish <;> simp [hfinish]
  | cons token tokens ih =>
    rw [readAll, reads_cons]
    cases hread : reader.read token with
    | none => simp
    | some next => simpa using ih

end Reader

/-- What stands before the arguments of a call. -/
def CallHead.symbols (head : CallHead) : List Symbol :=
  match head.receiver with
  | none => [.word head.name.toList]
  | some receiver => receiver.phrase.symbols ++ [.mark '.', .word head.name.toList]

/-- What has been read of an open call: a comma follows each argument. -/
def OpenCall.symbols (call : OpenCall) : List Symbol :=
  call.head.symbols ++
    .mark '(' :: call.args.flatMap fun arg => arg.phrase.symbols ++ [.mark ',']

def Place.symbols : Place → List Symbol
  | .between => []
  | .head opening => opening.symbols
  | .firstArgument call => call.symbols
  | .nextArgument call => call.symbols
  | .term target => target.phrase.symbols
  | .receiver target => target.phrase.symbols ++ [.mark '.']
  | .array target => target.phrase.symbols ++ [.mark '[']
  | .field target name _ => target.phrase.symbols ++ [.mark '[', .word name.toList]

/-- The reader has read the row of symbols. -/
structure Reader.Consumed (reader : Reader) (row : List Symbol) : Prop where
  outside : reader.place = .between → reader.calls = []
  /-- Arguments before the place mean that a comma has been read. -/
  first : ∀ call, reader.place = .firstArgument call → call.args = []
  parts : ∃ done, Layout (reader.statements.map Term.phrase) done ∧
    row = done ++ (reader.calls.reverse.flatMap OpenCall.symbols ++ reader.place.symbols)

namespace OpenCall

theorem symbols_add (call : OpenCall) (arg : Term String) :
    (call.add arg).symbols = call.symbols ++ (arg.phrase.symbols ++ [.mark ',']) := by
  simp [symbols, add]

/-- A closed call is its head and its arguments in parentheses. -/
theorem symbols_close_eq (call : OpenCall) (stop : Nat) :
    (call.close stop).phrase.symbols = call.head.symbols ++
      .mark '(' :: (Phrase.argumentSymbols (call.args.map Term.phrase) ++ [.mark ')']) := by
  obtain ⟨⟨receiver, name, start⟩, args⟩ := call
  cases receiver <;> simp [close, Term.phrase, Phrase.symbols, CallHead.symbols]

theorem symbols_close {call : OpenCall} (h : call.args = []) (stop : Nat) :
    (call.close stop).phrase.symbols = call.symbols ++ [.mark ')'] := by
  simp [symbols_close_eq, symbols, h, Phrase.argumentSymbols]

theorem symbols_add_close (call : OpenCall) (arg : Term String) (stop : Nat) :
    ((call.add arg).close stop).phrase.symbols =
      call.symbols ++ (arg.phrase.symbols ++ [.mark ')']) := by
  simp [symbols_close_eq, symbols, add, Phrase.argumentSymbols_concat, List.flatMap_map]

end OpenCall

namespace Reader

theorem consumed_initial : initial.Consumed [] :=
  ⟨fun _ => rfl, nofun, [], .nil, rfl⟩

/-- Where a statement may end, the reader has read a layout of the statements. -/
theorem Consumed.layout (h : reader.Consumed row) {terms : List (Term String)}
    (hfinish : reader.finish = some terms) : Layout (terms.map Term.phrase) row := by
  obtain ⟨done, hdone, rfl⟩ := h.parts
  unfold finish at hfinish
  split at hfinish
  · next hplace =>
    obtain rfl := Option.some.inj hfinish
    simpa [h.outside hplace, hplace, Place.symbols] using hdone
  · next term hplace hcalls =>
    obtain rfl := Option.some.inj hfinish
    simpa [hcalls, hplace, Place.symbols] using hdone.append (.single term.phrase)
  · cases hfinish

/-- A token inside a statement is added to the calls that are open and to the place. -/
theorem Consumed.advance {place place' : Place} {calls' : List OpenCall} {symbol : Symbol}
    (h : Consumed ⟨statements, place, calls⟩ row) (inside : place' ≠ .between)
    (first : ∀ call, place' = .firstArgument call → call.args = [])
    (hrow : calls'.reverse.flatMap OpenCall.symbols ++ place'.symbols =
      calls.reverse.flatMap OpenCall.symbols ++ (place.symbols ++ [symbol])) :
    Consumed ⟨statements, place', calls'⟩ (row ++ [symbol]) := by
  obtain ⟨done, hdone, rfl⟩ := h.parts
  refine ⟨fun hplace => absurd hplace inside, first, done, hdone, ?_⟩
  rw [hrow]
  simp

theorem Consumed.step (h : reader.Consumed row) (hstep : reader.Step token next) :
    next.Consumed (row ++ [token.symbol]) := by
  cases hstep with
  | statement done calls text span =>
    exact h.advance nofun nofun (by simp [Place.symbols, CallHead.symbols])
  | nextStatement done last text span =>
    obtain ⟨before, hbefore, rfl⟩ := h.parts
    refine ⟨nofun, nofun, before ++ last.phrase.symbols,
      by simpa using hbefore.append (.single last.phrase), ?_⟩
    simp [Place.symbols, CallHead.symbols]
  | firstArgument done call calls text span =>
    exact h.advance nofun nofun (by simp [Place.symbols, CallHead.symbols])
  | nextArgument done call calls text span =>
    exact h.advance nofun nofun (by simp [Place.symbols, CallHead.symbols])
  | member done target calls text span =>
    exact h.advance nofun nofun (by simp [Place.symbols, CallHead.symbols])
  | field done target calls text span =>
    exact h.advance nofun nofun (by simp [Place.symbols])
  | gap done calls span =>
    obtain ⟨before, hbefore, rfl⟩ := h.parts
    refine ⟨fun _ => h.outside rfl, nofun, before ++ [.mark ';'],
      by simpa using hbefore.append (.semicolon .nil), ?_⟩
    simp [show calls = [] from h.outside rfl, Place.symbols]
  | semicolon done last span =>
    obtain ⟨before, hbefore, rfl⟩ := h.parts
    refine ⟨fun _ => rfl, nofun, before ++ (last.phrase.symbols ++ [.mark ';']),
      by simpa using hbefore.append (.statement last.phrase (.semicolon .nil)), ?_⟩
    simp [Place.symbols]
  | openCall done opening calls span =>
    exact h.advance nofun (fun _ h => by cases h; rfl) (by simp [Place.symbols, OpenCall.symbols])
  | closeEmpty done call calls span =>
    exact h.advance nofun nofun
      (by simp [Place.symbols, OpenCall.symbols_close (h.first call rfl)])
  | comma done arg call calls span =>
    exact h.advance nofun nofun (by simp [Place.symbols, OpenCall.symbols_add])
  | closeCall done arg call calls span =>
    exact h.advance nofun nofun (by simp [Place.symbols, OpenCall.symbols_add_close])
  | point done target calls span => exact h.advance nofun nofun (by simp [Place.symbols])
  | bracket done target calls span => exact h.advance nofun nofun (by simp [Place.symbols])
  | closeIndex done target field fieldSpan calls span =>
    exact h.advance nofun nofun (by simp [Place.symbols, Term.phrase, Phrase.symbols])

/-- Whatever is read is added to what has been read. -/
theorem Consumed.reads (h : reader.Consumed row) (hreads : reader.reads tokens = some next) :
    next.Consumed (row ++ tokens.map (·.symbol)) := by
  induction tokens generalizing reader row with
  | nil =>
    obtain rfl := Option.some.inj hreads
    simpa using h
  | cons token tokens ih =>
    rw [reads_cons] at hreads
    obtain ⟨middle, hread, hrest⟩ := Option.bind_eq_some_iff.1 hreads
    simpa using ih (h.step (read_eq_some_iff.1 hread)) hrest

/-- A call may begin at the place of the reader. -/
def Opens (reader : Reader) (statements : List (Term String)) (calls : List OpenCall) : Prop :=
  ∀ text span, reader.readWord text span = some ⟨statements, .head ⟨none, text, span.start⟩, calls⟩

theorem opens_firstArgument (statements : List (Term String)) (call : OpenCall)
    (calls : List OpenCall) :
    Opens ⟨statements, .firstArgument call, calls⟩ statements (call :: calls) := fun _ _ => rfl

theorem opens_nextArgument (statements : List (Term String)) (call : OpenCall)
    (calls : List OpenCall) :
    Opens ⟨statements, .nextArgument call, calls⟩ statements (call :: calls) := fun _ _ => rfl

/-- A statement may end at the place of the reader, outside all calls. -/
inductive Settled : Reader → List (Term String) → Prop
  | between (done : List (Term String)) : Settled ⟨done, .between, []⟩ done
  | term (done : List (Term String)) (last : Term String) :
      Settled ⟨done, .term last, []⟩ (done ++ [last])

namespace Settled

theorem opens (h : reader.Settled statements) : reader.Opens statements [] := by
  cases h <;> exact fun _ _ => rfl

theorem finish (h : reader.Settled statements) : reader.finish = some statements := by
  cases h <;> rfl

theorem readMark (h : reader.Settled statements) :
    reader.readMark ';' span = some ⟨statements, .between, []⟩ := by
  cases h <;> rfl

end Settled

theorem exists_word {text : String} (h : tokens.map (·.symbol) = .word text.toList :: row) :
    ∃ span rest, rest.map (·.symbol) = row ∧ ∀ {reader next : Reader},
      reader.readWord text span = some next → reader.reads tokens = next.reads rest := by
  obtain ⟨token, rest, rfl, hsymbol, hrest⟩ := List.map_eq_cons_iff.1 h
  exact ⟨token.span, rest, hrest, fun hread => reads_of_read ((read_of_word hsymbol).trans hread)⟩

theorem exists_mark (h : tokens.map (·.symbol) = .mark c :: row) :
    ∃ span rest, rest.map (·.symbol) = row ∧ ∀ {reader next : Reader},
      reader.readMark c span = some next → reader.reads tokens = next.reads rest := by
  obtain ⟨token, rest, rfl, hsymbol, hrest⟩ := List.map_eq_cons_iff.1 h
  exact ⟨token.span, rest, hrest, fun hread => reads_of_read ((read_of_mark hsymbol).trans hread)⟩

mutual

/-- Reading a phrase where a call may begin leads to a term that says it. -/
theorem reads_phrase : (phrase : Phrase String) → ∀ {reader : Reader} {statements calls tokens row},
    reader.Opens statements calls → tokens.map (·.symbol) = phrase.symbols ++ row →
    ∃ term rest, rest.map (·.symbol) = row ∧ term.phrase = phrase ∧
      reader.reads tokens = Reader.reads ⟨statements, .term term, calls⟩ rest
  | .call name args => by
    intro hopens h
    simp only [Phrase.symbols, List.cons_append, List.append_assoc, List.nil_append] at h
    obtain ⟨span, rest, h, hword⟩ := exists_word h
    obtain ⟨_, rest, h, hmark⟩ := exists_mark h
    obtain ⟨terms, stop, rest, h, hterms, hreads⟩ :=
      reads_arguments args (fun _ => rfl) (opens_firstArgument _ _ _) h
    refine ⟨_, rest, h, ?_, (hword (hopens name span)).trans ((hmark rfl).trans hreads)⟩
    simp [OpenCall.close, Term.phrase, hterms]
  | .access receiver name args => by
    intro hopens h
    simp only [Phrase.symbols, List.cons_append, List.append_assoc, List.nil_append] at h
    obtain ⟨target, rest, h, htarget, hreceiver⟩ := reads_phrase receiver hopens h
    obtain ⟨_, rest, h, hpoint⟩ := exists_mark h
    obtain ⟨_, rest, h, hword⟩ := exists_word h
    obtain ⟨_, rest, h, hmark⟩ := exists_mark h
    obtain ⟨terms, stop, rest, h, hterms, hreads⟩ :=
      reads_arguments args (fun _ => rfl) (opens_firstArgument _ _ _) h
    refine ⟨_, rest, h, ?_,
      hreceiver.trans ((hpoint rfl).trans ((hword rfl).trans ((hmark rfl).trans hreads)))⟩
    simp [OpenCall.close, Term.phrase, htarget, hterms]
  | .index array field => by
    intro hopens h
    simp only [Phrase.symbols, List.cons_append, List.append_assoc, List.nil_append] at h
    obtain ⟨target, rest, h, htarget, harray⟩ := reads_phrase array hopens h
    obtain ⟨_, rest, h, hopening⟩ := exists_mark h
    obtain ⟨_, rest, h, hword⟩ := exists_word h
    obtain ⟨_, rest, h, hclosing⟩ := exists_mark h
    refine ⟨_, rest, h, ?_,
      harray.trans ((hopening rfl).trans ((hword rfl).trans (hclosing rfl)))⟩
    rw [Term.phrase, htarget]

/-- Reading arguments and the parenthesis behind them leads to the closed call. Only between the
parentheses themselves there may be none. -/
theorem reads_arguments : (args : List (Phrase String)) →
    ∀ {reader : Reader} {call : OpenCall} {statements calls tokens row},
    (args = [] → reader = ⟨statements, .firstArgument call, calls⟩) →
    reader.Opens statements (call :: calls) →
    tokens.map (·.symbol) = Phrase.argumentSymbols args ++ .mark ')' :: row →
    ∃ terms stop rest, rest.map (·.symbol) = row ∧ terms.map Term.phrase = args ∧
      reader.reads tokens = Reader.reads
        ⟨statements, .term (OpenCall.close ⟨call.head, call.args ++ terms⟩ stop), calls⟩ rest
  | [] => by
    intro hfirst hopens h
    obtain rfl := hfirst rfl
    obtain ⟨span, rest, h, hclosing⟩ := exists_mark h
    exact ⟨[], span.stop, rest, h, rfl, by rw [hclosing rfl, List.append_nil]⟩
  | [arg] => by
    intro _ hopens h
    obtain ⟨term, rest, h, hterm, harg⟩ := reads_phrase arg hopens h
    obtain ⟨span, rest, h, hclosing⟩ := exists_mark h
    exact ⟨[term], span.stop, rest, h, by rw [List.map_singleton, hterm],
      harg.trans (hclosing rfl)⟩
  | arg :: next :: args => by
    intro _ hopens h
    rw [Phrase.argumentSymbols, List.append_assoc] at h
    obtain ⟨term, rest, h, hterm, harg⟩ := reads_phrase arg hopens h
    obtain ⟨_, rest, h, hcomma⟩ := exists_mark h
    obtain ⟨terms, stop, rest, h, hterms, hreads⟩ :=
      reads_arguments (next :: args) nofun (opens_nextArgument _ _ _) h
    refine ⟨term :: terms, stop, rest, h, by rw [List.map_cons, hterm, hterms],
      harg.trans ((hcomma rfl).trans ?_)⟩
    rw [hreads]
    simp [OpenCall.add]

end

/-- Reading a layout leads to terms that say its statements. -/
theorem reads_layout {phrases : List (Phrase String)} (hlayout : Layout phrases row)
    (hsettled : reader.Settled statements) (h : tokens.map (·.symbol) = row) :
    ∃ final terms, reader.reads tokens = some final ∧ final.Settled (statements ++ terms) ∧
      terms.map Term.phrase = phrases := by
  induction hlayout generalizing reader statements tokens with
  | nil =>
    obtain rfl := List.map_eq_nil_iff.1 h
    exact ⟨reader, [], rfl, by rwa [List.append_nil], rfl⟩
  | semicolon _ ih =>
    obtain ⟨_, rest, h, hmark⟩ := exists_mark h
    obtain ⟨final, terms, hreads, hfinal, hterms⟩ := ih (.between statements) h
    exact ⟨final, terms, (hmark hsettled.readMark).trans hreads, hfinal, hterms⟩
  | statement phrase _ ih =>
    obtain ⟨term, rest, h, hterm, hphrase⟩ := reads_phrase phrase hsettled.opens h
    obtain ⟨final, terms, hreads, hfinal, hterms⟩ := ih (.term statements term) h
    exact ⟨final, term :: terms, hphrase.trans hreads, by simpa using hfinal,
      by rw [List.map_cons, hterm, hterms]⟩

/-- The tokens of a block are read exactly if they are a layout, and then as terms that say its
statements. -/
theorem readAll_initial_iff {stop : Nat} {phrases : List (Phrase String)} :
    (∃ terms, readAll stop .initial tokens = .ok terms ∧ terms.map Term.phrase = phrases) ↔
      Layout phrases (tokens.map (·.symbol)) := by
  constructor
  · rintro ⟨terms, hread, rfl⟩
    obtain ⟨final, hreads, hfinish⟩ := readAll_eq_ok_iff.1 hread
    simpa using (consumed_initial.reads hreads).layout hfinish
  · intro hlayout
    obtain ⟨final, terms, hreads, hfinal, hterms⟩ := reads_layout hlayout (.between []) rfl
    exact ⟨terms, readAll_eq_ok_iff.2 ⟨final, hreads, hfinal.finish⟩, hterms⟩

end Reader

end InputDetail.Document
