import InputDetail.Expr

/-!
# Terms

The expressions of a documentation block as trees, over identifiers of any kind: texts as they are
read, names once they are interned. All links of a chain begin where the chain begins.
-/
namespace InputDetail.Document

inductive Term (α : Type) where
  /-- `name(args)` -/
  | call (name : α) (args : List (Term α)) (span : Span)
  /-- `receiver.name(args)` -/
  | access (receiver : Term α) (name : α) (args : List (Term α)) (span : Span)
  /-- `array[field]` -/
  | index (array : Term α) (field : α) (fieldSpan span : Span)

namespace Term

variable {α β : Type}

def span : Term α → Span
  | call _ _ span => span
  | access _ _ _ span => span
  | index _ _ _ span => span

mutual

/-- Replaces every identifier. -/
def map (f : α → β) : Term α → Term β
  | call name args span => call (f name) (mapAll f args) span
  | access receiver name args span => access (map f receiver) (f name) (mapAll f args) span
  | index array field fieldSpan span => index (map f array) (f field) fieldSpan span

def mapAll (f : α → β) : List (Term α) → List (Term β)
  | [] => []
  | term :: terms => map f term :: mapAll f terms

end

mutual

/-- Writes a term into a store: first what it is called on, then its arguments and their list, last
the term itself. -/
def store : Term Name → ExprStore → ExprId × ExprStore
  | call name args span, into =>
    let (ids, into) := storeAll args into
    let (range, into) := into.pushArgs ids
    into.push ⟨.call none name range, span⟩
  | access receiver name args span, into =>
    let (target, into) := store receiver into
    let (ids, into) := storeAll args into
    let (range, into) := into.pushArgs ids
    into.push ⟨.call (some target) name range, span⟩
  | index array field fieldSpan span, into =>
    let (target, into) := store array into
    let (position, into) := into.push ⟨.field field, fieldSpan⟩
    into.push ⟨.index target position, span⟩

def storeAll : List (Term Name) → ExprStore → List ExprId × ExprStore
  | [], into => ([], into)
  | term :: terms, into =>
    let (id, into) := store term into
    let (ids, into) := storeAll terms into
    (id :: ids, into)

end

end Term

end InputDetail.Document
