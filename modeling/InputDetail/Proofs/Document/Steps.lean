import InputDetail.Document.Reader

/-!
# Steps of the reader

What a token does depends on the place of the reader, and in one place on whether calls are open. Here
every way of going on is a step with a name of its own, and the reader goes on exactly by these steps.
What holds of a reader is kept by each of them.
-/
namespace InputDetail.Document

/-- Where the reader stands, the token that it reads, and where it stands then. -/
inductive Reader.Step : Reader → Token → Reader → Prop
  /-- A word begins a statement. -/
  | statement (done : List (Term String)) (calls : List OpenCall) (text : List Char) (span : Span) :
    Step ⟨done, .between, calls⟩ ⟨.word text, span⟩
      ⟨done, .head ⟨none, String.ofList text, span.start⟩, calls⟩
  /-- A word ends the statement before it, and begins the next one. -/
  | nextStatement (done : List (Term String)) (last : Term String) (text : List Char) (span : Span) :
    Step ⟨done, .term last, []⟩ ⟨.word text, span⟩
      ⟨done ++ [last], .head ⟨none, String.ofList text, span.start⟩, []⟩
  /-- A word begins an argument, after the parenthesis or after a comma. -/
  | firstArgument (done : List (Term String)) (call : OpenCall) (calls : List OpenCall)
      (text : List Char) (span : Span) :
    Step ⟨done, .firstArgument call, calls⟩ ⟨.word text, span⟩
      ⟨done, .head ⟨none, String.ofList text, span.start⟩, call :: calls⟩
  | nextArgument (done : List (Term String)) (call : OpenCall) (calls : List OpenCall)
      (text : List Char) (span : Span) :
    Step ⟨done, .nextArgument call, calls⟩ ⟨.word text, span⟩
      ⟨done, .head ⟨none, String.ofList text, span.start⟩, call :: calls⟩
  /-- A word after a point names a member. -/
  | member (done : List (Term String)) (target : Term String) (calls : List OpenCall)
      (text : List Char) (span : Span) :
    Step ⟨done, .receiver target, calls⟩ ⟨.word text, span⟩
      ⟨done, .head ⟨some target, String.ofList text, target.span.start⟩, calls⟩
  /-- A word in brackets. -/
  | field (done : List (Term String)) (target : Term String) (calls : List OpenCall)
      (text : List Char) (span : Span) :
    Step ⟨done, .array target, calls⟩ ⟨.word text, span⟩
      ⟨done, .field target (String.ofList text) span, calls⟩
  /-- A semicolon between statements. -/
  | gap (done : List (Term String)) (calls : List OpenCall) (span : Span) :
    Step ⟨done, .between, calls⟩ ⟨.mark ';', span⟩ ⟨done, .between, calls⟩
  /-- A semicolon ends the statement before it. -/
  | semicolon (done : List (Term String)) (last : Term String) (span : Span) :
    Step ⟨done, .term last, []⟩ ⟨.mark ';', span⟩ ⟨done ++ [last], .between, []⟩
  | openCall (done : List (Term String)) (opening : CallHead) (calls : List OpenCall) (span : Span) :
    Step ⟨done, .head opening, calls⟩ ⟨.mark '(', span⟩ ⟨done, .firstArgument ⟨opening, []⟩, calls⟩
  /-- A call without arguments is closed. -/
  | closeEmpty (done : List (Term String)) (call : OpenCall) (calls : List OpenCall) (span : Span) :
    Step ⟨done, .firstArgument call, calls⟩ ⟨.mark ')', span⟩
      ⟨done, .term (call.close span.stop), calls⟩
  /-- A comma, or the closing parenthesis, after an argument. -/
  | comma (done : List (Term String)) (arg : Term String) (call : OpenCall) (calls : List OpenCall)
      (span : Span) :
    Step ⟨done, .term arg, call :: calls⟩ ⟨.mark ',', span⟩
      ⟨done, .nextArgument (call.add arg), calls⟩
  | closeCall (done : List (Term String)) (arg : Term String) (call : OpenCall)
      (calls : List OpenCall) (span : Span) :
    Step ⟨done, .term arg, call :: calls⟩ ⟨.mark ')', span⟩
      ⟨done, .term ((call.add arg).close span.stop), calls⟩
  | point (done : List (Term String)) (target : Term String) (calls : List OpenCall) (span : Span) :
    Step ⟨done, .term target, calls⟩ ⟨.mark '.', span⟩ ⟨done, .receiver target, calls⟩
  | bracket (done : List (Term String)) (target : Term String) (calls : List OpenCall) (span : Span) :
    Step ⟨done, .term target, calls⟩ ⟨.mark '[', span⟩ ⟨done, .array target, calls⟩
  /-- An index is closed. -/
  | closeIndex (done : List (Term String)) (target : Term String) (field : String)
      (fieldSpan : Span) (calls : List OpenCall) (span : Span) :
    Step ⟨done, .field target field fieldSpan, calls⟩ ⟨.mark ']', span⟩
      ⟨done, .term (.index target field fieldSpan ⟨target.span.start, span.stop⟩), calls⟩

namespace Reader

variable {reader next : Reader} {token : Token}

theorem step_of_readWord {text : List Char} {span : Span}
    (h : reader.readWord (String.ofList text) span = some next) :
    Step reader ⟨.word text, span⟩ next := by
  obtain ⟨done, place, calls⟩ := reader
  cases place with
  | between =>
    obtain rfl := Option.some.inj h
    exact .statement ..
  | head opening => cases h
  | firstArgument call =>
    obtain rfl := Option.some.inj h
    exact .firstArgument ..
  | nextArgument call =>
    obtain rfl := Option.some.inj h
    exact .nextArgument ..
  | term last =>
    cases calls with
    | nil =>
      obtain rfl := Option.some.inj h
      exact .nextStatement ..
    | cons call calls => cases h
  | receiver target =>
    obtain rfl := Option.some.inj h
    exact .member ..
  | array target =>
    obtain rfl := Option.some.inj h
    exact .field ..
  | field target name fieldSpan => cases h

theorem step_of_readMark {c : Char} {span : Span} (h : reader.readMark c span = some next) :
    Step reader ⟨.mark c, span⟩ next := by
  obtain ⟨done, place, calls⟩ := reader
  cases place with
  | between =>
    obtain rfl : c = ';' := Decidable.byContradiction fun hc => by simp [readMark, hc] at h
    obtain rfl := Option.some.inj h
    exact .gap ..
  | head opening =>
    obtain rfl : c = '(' := Decidable.byContradiction fun hc => by simp [readMark, hc] at h
    obtain rfl := Option.some.inj h
    exact .openCall ..
  | firstArgument call =>
    obtain rfl : c = ')' := Decidable.byContradiction fun hc => by simp [readMark, hc] at h
    obtain rfl := Option.some.inj h
    exact .closeEmpty ..
  | nextArgument call => simp [readMark] at h
  | term last =>
    by_cases hpoint : c = '.'
    · subst hpoint
      obtain rfl := Option.some.inj h
      exact .point ..
    by_cases hbracket : c = '['
    · subst hbracket
      obtain rfl := Option.some.inj h
      exact .bracket ..
    cases calls with
    | nil =>
      obtain rfl : c = ';' := Decidable.byContradiction fun hc => by simp [readMark, hc] at h
      obtain rfl := Option.some.inj h
      exact .semicolon ..
    | cons call calls =>
      by_cases hcomma : c = ','
      · subst hcomma
        obtain rfl := Option.some.inj h
        exact .comma ..
      obtain rfl : c = ')' := Decidable.byContradiction fun hc => by
        simp [readMark, hcomma, hc] at h
      obtain rfl := Option.some.inj h
      exact .closeCall ..
  | receiver target => simp [readMark] at h
  | array target => simp [readMark] at h
  | field target name fieldSpan =>
    obtain rfl : c = ']' := Decidable.byContradiction fun hc => by simp [readMark, hc] at h
    obtain rfl := Option.some.inj h
    exact .closeIndex ..

/-- The reader goes on exactly by the steps. -/
theorem read_eq_some_iff : reader.read token = some next ↔ Step reader token next := by
  constructor
  · intro h
    obtain ⟨symbol, span⟩ := token
    cases symbol with
    | word text => exact step_of_readWord h
    | mark c => exact step_of_readMark h
  · intro h
    cases h <;> rfl

end Reader

end InputDetail.Document
