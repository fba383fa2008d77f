import InputDetail.Span

/-!
# Diagnostics

A diagnostic is a coded message with labelled places, notes and suggestions. The first digit of a
code tells the kind of defect: in the source (0), in the shape of an expression (1), against the
model (2), or inside the analysis (9).
-/
namespace InputDetail

inductive ErrorCode where
  | E0001 | E1001 | E1002 | E1003 | E2001 | E2002 | E2003 | E2004 | E9001
deriving DecidableEq

namespace ErrorCode

def all : List ErrorCode := [E0001, E1001, E1002, E1003, E2001, E2002, E2003, E2004, E9001]

def text : ErrorCode → String
  | E0001 => "E0001"
  | E1001 => "E1001"
  | E1002 => "E1002"
  | E1003 => "E1003"
  | E2001 => "E2001"
  | E2002 => "E2002"
  | E2003 => "E2003"
  | E2004 => "E2004"
  | E9001 => "E9001"

/-- The rule that was broken, in one line. -/
def description : ErrorCode → String
  | E0001 => "the live documentation block could not be parsed"
  | E1001 => "only chains of parameterless calls, `mandatory`, `optional` and `or` are allowed"
  | E1002 => "the only valid index in live documentation is `[COLLECTION]`"
  | E1003 => "`or` takes exactly two `mandatory(...)` or two `optional(...)` member paths"
  | E2001 => "the path starts with a name that is not a parameter of the method"
  | E2002 => "the path names a member the parameter's type does not have"
  | E2003 => "a struct or list parameter must be documented through its members"
  | E2004 => "the same member is declared both mandatory and optional"
  | E9001 => "internal error in the analyzer"

end ErrorCode

/-- A place in the source and what is to be said about it. -/
structure Label where
  span : Span
  message : String
deriving DecidableEq

structure Diagnostic where
  code : ErrorCode
  message : String
  labels : List Label
  notes : List String
  suggestions : List String
deriving DecidableEq

namespace Diagnostic

/-- A diagnostic that says nothing yet. -/
def ofCode (code : ErrorCode) : Diagnostic := ⟨code, "", [], [], []⟩

def withMessage (diagnostic : Diagnostic) (message : String) : Diagnostic :=
  { diagnostic with message }

def addLabel (diagnostic : Diagnostic) (span : Span) (message : String) : Diagnostic :=
  { diagnostic with labels := diagnostic.labels ++ [⟨span, message⟩] }

def addNote (diagnostic : Diagnostic) (note : String) : Diagnostic :=
  { diagnostic with notes := diagnostic.notes ++ [note] }

def addSuggestion (diagnostic : Diagnostic) (suggestion : String) : Diagnostic :=
  { diagnostic with suggestions := diagnostic.suggestions ++ [suggestion] }

/-- The place of the first label. -/
def primarySpan (diagnostic : Diagnostic) : Option Span := diagnostic.labels.head?.map (·.span)

/-- The message, then a line for each label, note and suggestion. -/
def text (diagnostic : Diagnostic) : String :=
  String.intercalate "\n" <|
    [s!"error [{diagnostic.code.text}]: {diagnostic.message}"]
      ++ diagnostic.labels.map (fun label => s!"  --> {label.span}: {label.message}")
      ++ diagnostic.notes.map ("  = note: " ++ ·)
      ++ diagnostic.suggestions.map ("  = help: " ++ ·)

end Diagnostic

end InputDetail
