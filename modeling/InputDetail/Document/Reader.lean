import InputDetail.Document.Term
import InputDetail.Document.Token

/-!
# Reading terms

A documentation block is a list of statements, with semicolons between them where one likes:

    block = { term [";"] }
    term  = call { "." call | "[" word "]" }
    call  = word "(" [ term { "," term } ] ")"

The reader goes through the tokens once. It remembers the finished statements, the calls whose
arguments are not complete, and its place in the innermost one. It stops at the first token that
nothing can follow.
-/
namespace InputDetail.Document

/-- What a reader that stops could have gone on with. -/
inductive Expected where
  | identifier | openingParenthesis | closingParenthesis | closingBracket
deriving DecidableEq

def Expected.message : Expected → String
  | identifier => "expected an identifier"
  | openingParenthesis => "expected `(`"
  | closingParenthesis => "expected `)`"
  | closingBracket => "expected `]`"

/-- The part of a call before its arguments. -/
structure CallHead where
  receiver : Option (Term String)
  name : String
  /-- Where the chain begins. -/
  start : Nat

/-- A call and the arguments that have been read. -/
structure OpenCall where
  head : CallHead
  args : List (Term String)

namespace OpenCall

def add (call : OpenCall) (arg : Term String) : OpenCall :=
  { call with args := call.args ++ [arg] }

/-- The call that ends at `stop`. -/
def close (call : OpenCall) (stop : Nat) : Term String :=
  match call.head.receiver with
  | none => .call call.head.name call.args ⟨call.head.start, stop⟩
  | some receiver => .access receiver call.head.name call.args ⟨call.head.start, stop⟩

end OpenCall

/-- The place of the reader. -/
inductive Place where
  /-- Between statements. -/
  | between
  /-- After the identifier of a call. -/
  | head (head : CallHead)
  /-- After an opening parenthesis. -/
  | firstArgument (call : OpenCall)
  /-- After a comma. -/
  | nextArgument (call : OpenCall)
  /-- After a term that may be complete. -/
  | term (term : Term String)
  /-- After a point. -/
  | receiver (receiver : Term String)
  /-- After an opening bracket. -/
  | array (array : Term String)
  /-- After the identifier in brackets. -/
  | field (array : Term String) (field : String) (span : Span)

structure Reader where
  statements : List (Term String)
  place : Place
  /-- Open calls around the place, the innermost first. -/
  calls : List OpenCall

namespace Reader

def initial : Reader := ⟨[], .between, []⟩

/-- What can follow, if nothing else does. -/
def expected (reader : Reader) : Expected :=
  match reader.place with
  | .head _ => .openingParenthesis
  | .field _ _ _ => .closingBracket
  | .term _ => if reader.calls.isEmpty then .identifier else .closingParenthesis
  | _ => .identifier

/-- A word begins a call, or names a member or an index. -/
def readWord (reader : Reader) (text : String) (span : Span) : Option Reader :=
  let opening : Place := .head ⟨none, text, span.start⟩
  match reader.place with
  | .between => some { reader with place := opening }
  | .firstArgument call => some { reader with place := opening, calls := call :: reader.calls }
  | .nextArgument call => some { reader with place := opening, calls := call :: reader.calls }
  | .receiver receiver =>
    some { reader with place := .head ⟨some receiver, text, receiver.span.start⟩ }
  | .array array => some { reader with place := .field array text span }
  | .term term =>
    if reader.calls.isEmpty then some ⟨reader.statements ++ [term], opening, []⟩ else none
  | _ => none

/-- Any other token. -/
def readMark (reader : Reader) (c : Char) (span : Span) : Option Reader :=
  match reader.place, c with
  | .between, ';' => some reader
  | .head head, '(' => some { reader with place := .firstArgument ⟨head, []⟩ }
  | .firstArgument call, ')' => some { reader with place := .term (call.close span.stop) }
  | .field array field fieldSpan, ']' =>
    some { reader with place := .term (.index array field fieldSpan ⟨array.span.start, span.stop⟩) }
  | .term term, '.' => some { reader with place := .receiver term }
  | .term term, '[' => some { reader with place := .array term }
  | .term term, c => match reader.calls, c with
    | [], ';' => some ⟨reader.statements ++ [term], .between, []⟩
    | call :: calls, ',' => some ⟨reader.statements, .nextArgument (call.add term), calls⟩
    | call :: calls, ')' => some ⟨reader.statements, .term ((call.add term).close span.stop), calls⟩
    | _, _ => none
  | _, _ => none

/-- Reads one token, if it can follow. -/
def read (reader : Reader) (token : Token) : Option Reader :=
  match token.symbol with
  | .word text => reader.readWord (String.ofList text) token.span
  | .mark c => reader.readMark c token.span

/-- The statements, if the block may end here. -/
def finish (reader : Reader) : Option (List (Term String)) :=
  match reader.place, reader.calls with
  | .between, _ => some reader.statements
  | .term term, [] => some (reader.statements ++ [term])
  | _, _ => none

/-- Reads all tokens of a block that ends at offset `stop`. A failure tells what was expected, and
the offset of the token or of the end that stood there instead. -/
def readAll (stop : Nat) : Reader → List Token → Except (Expected × Nat) (List (Term String))
  | reader, [] => match reader.finish with
    | some statements => .ok statements
    | none => .error (reader.expected, stop)
  | reader, token :: tokens => match reader.read token with
    | some next => readAll stop next tokens
    | none => .error (reader.expected, token.span.start)

end Reader

end InputDetail.Document
