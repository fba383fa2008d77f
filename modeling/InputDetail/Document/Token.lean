import InputDetail.Span

/-!
# Tokens of a documentation block

A token is a run of ASCII letters, digits and underscores, or any other character that is not white
space, taken by itself. White space is the ASCII space, tab, line feed, form feed and carriage
return; a vertical tab is not white space here. Offsets count the bytes of UTF-8.
-/
namespace InputDetail.Document

inductive Symbol where
  | word (text : List Char)
  | mark (c : Char)
deriving DecidableEq

structure Token where
  symbol : Symbol
  span : Span
deriving DecidableEq

/-- The text of a word. -/
def Token.word? (token : Token) : Option (List Char) :=
  match token.symbol with
  | .word text => some text
  | .mark _ => none

def isSpace (c : Char) : Bool :=
  c == ' ' || c == '\t' || c == '\n' || c == '\x0c' || c == '\r'

def isWordChar (c : Char) : Bool := c.isAlphanum || c == '_'

/-- Puts a character at `offset` before the tokens behind it: into the word that begins right after
it, or else into a word of its own. -/
def extendWord (c : Char) (offset : Nat) : List Token → List Token
  | ⟨.word text, span⟩ :: rest =>
    if span.start = offset + 1 then ⟨.word (c :: text), ⟨offset, span.stop⟩⟩ :: rest
    else ⟨.word [c], ⟨offset, offset + 1⟩⟩ :: ⟨.word text, span⟩ :: rest
  | rest => ⟨.word [c], ⟨offset, offset + 1⟩⟩ :: rest

/-- The tokens of a text that begins at `offset`. -/
def scan (offset : Nat) : List Char → List Token
  | [] => []
  | c :: rest =>
    let later := scan (offset + c.utf8Size) rest
    if isSpace c then later
    else if isWordChar c then extendWord c offset later
    else ⟨.mark c, ⟨offset, offset + c.utf8Size⟩⟩ :: later

example : (scan 0 "ab( é".toList).map (·.span) = [⟨0, 2⟩, ⟨2, 3⟩, ⟨4, 6⟩] := by decide

end InputDetail.Document
