import InputDetail.Text.Blank
import InputDetail.Text.LetterCase

/-!
# Words of an identifier

An identifier is a sequence of words, however it is spelled: `dataCenter`, `DataCenter` and
`data_center` are the words *data* and *center*. A word ends at a separator, before a capital that
follows a small letter or a digit, and before the last capital of an acronym (`VMPool` is *vm* and
*pool*). The canonical spelling joins the lowercase words by underscores.
-/
namespace InputDetail.Text

def isSeparator (c : Char) : Bool := c == '_' || c == '-' || isBlank c

/-- Whether `c` begins a new word when it stands inside a word, after `before`. -/
def startsWord (before c : Char) (next : Option Char) : Bool :=
  isUppercase c &&
    (isLowercase before || before.isDigit || (isUppercase before && next.any isLowercase))

/-- Puts a word in front of others, unless it is empty. -/
def consWord (word : List Char) (words : List (List Char)) : List (List Char) :=
  if word.isEmpty then words else word :: words

@[simp] theorem consWord_cons (c : Char) (word : List Char) (words : List (List Char)) :
    consWord (c :: word) words = (c :: word) :: words := rfl

/-- Reads on after `before`, the last character of the word that is open (if one is). The result is
the rest of that word and the words behind it. -/
def scanWords : Option Char → List Char → List Char × List (List Char)
  | _, [] => ([], [])
  | before, c :: rest =>
    if isSeparator c then
      let (word, words) := scanWords none rest
      ([], consWord word words)
    else
      let (word, words) := scanWords (some c) rest
      if before.any (startsWord · c rest.head?) then ([], (lower c ++ word) :: words)
      else (lower c ++ word, words)

/-- The lowercase words of a text. -/
def words (text : List Char) : List (List Char) :=
  let (word, others) := scanWords none text
  consWord word others

/-- The canonical spelling: lowercase words joined by underscores. -/
def canonical (text : String) : String :=
  String.ofList (List.intercalate ['_'] (words text.toList))

example : words "VMPool-size 2Big".toList = ["vm".toList, "pool".toList, "size".toList,
    "2".toList, "big".toList] := by decide

end InputDetail.Text
