import InputDetail.Analysis.Failure

/-!
# Documented paths

A path is written as a chain of calls without arguments, stored outermost call first. It is read from
the outside inwards; the innermost call names the parameter. `[COLLECTION]` may follow any call and
adds nothing to the path.
-/
namespace InputDetail.Analysis

/-- Why an analysis ends before its last statement. -/
inductive Halt where
  | refused (error : AnalysisError)
  /-- The store holds no expression or argument list of some number. -/
  | brokenReference
  /-- A chain of calls leads back into itself. -/
  | endlessChain
deriving DecidableEq

/-- The expression of a number. -/
def exprAt (store : ExprStore) (id : ExprId) : Except Halt Expr :=
  match store.get? id with
  | some expr => .ok expr
  | none => .error .brokenReference

/-- The arguments in a range. -/
def argsAt (store : ExprStore) (range : ArgRange) : Except Halt (List ExprId) :=
  match store.args? range with
  | some ids => .ok ids
  | none => .error .brokenReference

def refuse {α : Type} (error : AnalysisError) : Except Halt α := .error (.refused error)

def unsupported {α : Type} (span : Span) (cause : Unsupported) : Except Halt α :=
  refuse (.unsupportedExpression span cause)

/-- A parameter and the members below it. -/
structure Path where
  parameter : Name
  members : List Name
deriving DecidableEq

namespace Path

/-- The path one member further down. -/
def child (path : Path) (member : Name) : Path := { path with members := path.members ++ [member] }

end Path

/-- Reads a chain of at most `fuel` links. -/
def pathWithin (store : ExprStore) : Nat → ExprId → Except Halt Path
  | 0, _ => .error .endlessChain
  | fuel + 1, id => do
    let expr ← exprAt store id
    match expr.kind with
    | .call receiver name args =>
      if args.isEmpty then
        match receiver with
        | none => return ⟨name, []⟩
        | some receiver => return (← pathWithin store fuel receiver).child name
      else unsupported expr.span .callWithArguments
    | .index array index =>
      let index ← exprAt store index
      if index.kind = .field .collection then
        match (← exprAt store array).kind with
        | .call _ _ _ => pathWithin store fuel array
        | _ => unsupported expr.span .indexedNonCall
      else refuse (.invalidCollectionIndex index.span)
    | .field _ => unsupported expr.span .bareIdentifier

/-- The path that an expression spells. A chain without a loop has no more links than the store has
expressions. -/
def pathAt (store : ExprStore) (id : ExprId) : Except Halt Path :=
  pathWithin store (store.size + 1) id

end InputDetail.Analysis
