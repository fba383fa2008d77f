import InputDetail.Expr
import InputDetail.Name.Table

/-!
# Writing expressions by hand

A draft is a store that is being written, together with the names it uses and the span that new
expressions get. Identifiers are interned as they are written.
-/
namespace InputDetail

structure Draft where
  store : ExprStore
  names : NameTable
  span : Span

namespace Draft

/-- A step of writing that gives the expression it wrote. -/
abbrev Write := StateM Draft ExprId

def name (identifier : String) : StateM Draft Name :=
  modifyGet fun draft =>
    let (name, names) := draft.names.internWords identifier
    (name, { draft with names })

def write (kind : ExprKind) : Write :=
  modifyGet fun draft =>
    let (id, store) := draft.store.push ⟨kind, draft.span⟩
    (id, { draft with store })

def writeArgs (ids : List ExprId) : StateM Draft ArgRange :=
  modifyGet fun draft =>
    let (range, store) := draft.store.pushArgs ids
    (range, { draft with store })

/-- Expressions written from now on get this span. -/
def setSpan (span : Span) : StateM Draft Unit := modify ({ · with span })

/-- `identifier()` -/
def call (identifier : String) : Write := do
  write (.call none (← name identifier) .empty)

/-- `receiver.identifier()` -/
def access (receiver : ExprId) (identifier : String) : Write := do
  write (.call (some receiver) (← name identifier) .empty)

/-- The chain of calls that begins with `first`. -/
def path (first : String) (rest : List String) : Write := do
  rest.foldlM access (← call first)

/-- A bare identifier. -/
def field (identifier : String) : Write := do
  write (.field (← name identifier))

/-- `array[index]` -/
def index (array index : ExprId) : Write := write (.index array index)

/-- `array[COLLECTION]` -/
def collection (array : ExprId) : Write := do
  index array (← write (.field .collection))

/-- A call with arguments and no receiver. -/
def apply (name : Name) (args : List ExprId) : Write := do
  write (.call none name (← writeArgs args))

/-- `mandatory(path)` -/
def mandatory (path : ExprId) : Write := apply .mandatory [path]

/-- `optional(path)` -/
def optional (path : ExprId) : Write := apply .optional [path]

/-- `or(first, second)` -/
def or (first second : ExprId) : Write := apply .or [first, second]

end Draft

end InputDetail
