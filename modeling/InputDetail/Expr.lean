import InputDetail.Name
import InputDetail.Span

/-!
# Expressions of the documentation language

The language is tiny: chains of accessor calls, marker calls around a chain, and one index that
stands for every element. Expressions live in a store and refer to each other by number; the
arguments of all calls stand in one list, of which each call knows its range. A store may hold any
number of expressions and of arguments.
-/
namespace InputDetail

structure ExprId where
  index : Nat
deriving DecidableEq

namespace ExprId

instance : ToString ExprId := ⟨fun id => s!"ExprId({id.index})"⟩

end ExprId

/-- A range of the list of arguments. -/
structure ArgRange where
  start : Nat
  length : Nat
deriving DecidableEq

namespace ArgRange

def empty : ArgRange := ⟨0, 0⟩

def isEmpty (range : ArgRange) : Bool := range.length == 0

instance : ToString ArgRange where
  toString range := s!"ExprRange({range.start}..{range.start + range.length})"

end ArgRange

/-- A call (on a receiver unless it begins a chain), an indexing, or a bare identifier. -/
inductive ExprKind where
  | call (receiver : Option ExprId) (name : Name) (args : ArgRange)
  | index (array index : ExprId)
  | field (name : Name)
deriving DecidableEq

structure Expr where
  kind : ExprKind
  span : Span
deriving DecidableEq

/-- Expressions of one documentation block and the argument lists of its calls. -/
structure ExprStore where
  exprs : Array Expr
  args : Array ExprId

namespace ExprStore

def empty : ExprStore := ⟨#[], #[]⟩

def size (store : ExprStore) : Nat := store.exprs.size

def get? (store : ExprStore) (id : ExprId) : Option Expr := store.exprs[id.index]?

theorem lt_size_of_get? {store : ExprStore} {id : ExprId} {expr : Expr}
    (h : store.get? id = some expr) : id.index < store.size := (Array.getElem?_eq_some_iff.1 h).1

/-- The arguments in a range, unless it reaches beyond the end of the list. -/
def args? (store : ExprStore) (range : ArgRange) : Option (List ExprId) :=
  if range.start + range.length ≤ store.args.size then
    some ((store.args.toList.drop range.start).take range.length)
  else none

theorem length_of_args? {store : ExprStore} {range : ArgRange} {ids : List ExprId}
    (h : store.args? range = some ids) : ids.length = range.length := by
  unfold args? at h
  split at h
  · next hle =>
    have hsize : store.args.toList.length = store.args.size := Array.length_toList
    obtain rfl := Option.some.inj h
    rw [List.length_take, List.length_drop]
    omega
  · cases h

def push (store : ExprStore) (expr : Expr) : ExprId × ExprStore :=
  (⟨store.size⟩, { store with exprs := store.exprs.push expr })

@[simp] theorem get?_push_self (store : ExprStore) (expr : Expr) :
    (store.push expr).2.get? (store.push expr).1 = some expr := by
  simp [push, get?, size]

/-- A new expression changes no other. -/
theorem get?_push_of_some {store : ExprStore} {id : ExprId} {known : Expr}
    (h : store.get? id = some known) (expr : Expr) :
    (store.push expr).2.get? id = some known := by
  have hlt : id.index < store.exprs.size := lt_size_of_get? h
  simp only [push, get?, Array.getElem?_push]
  rw [if_neg (Nat.ne_of_lt hlt)]
  exact h

/-- Appends an argument list. An empty list too begins at the current end. -/
def pushArgs (store : ExprStore) (ids : List ExprId) : ArgRange × ExprStore :=
  (⟨store.args.size, ids.length⟩, { store with args := store.args ++ ids.toArray })

@[simp] theorem args?_pushArgs_self (store : ExprStore) (ids : List ExprId) :
    (store.pushArgs ids).2.args? (store.pushArgs ids).1 = some ids := by
  simp [pushArgs, args?]

/-- New arguments change no list that is there. -/
theorem args?_pushArgs_of_some {store : ExprStore} {range : ArgRange} {known : List ExprId}
    (h : store.args? range = some known) (ids : List ExprId) :
    (store.pushArgs ids).2.args? range = some known := by
  unfold args? at h ⊢
  split at h
  · next hle =>
    have hle' : range.start + range.length ≤ (store.args.toList).length := by simpa using hle
    rw [if_pos (by simp only [pushArgs, Array.size_append]; omega), ← h]
    simp only [pushArgs, Array.toList_append, Option.some.injEq]
    rw [List.drop_append_of_le_length (by omega), List.take_append_of_le_length]
    simp only [List.length_drop]
    omega
  · simp at h

end ExprStore

end InputDetail
