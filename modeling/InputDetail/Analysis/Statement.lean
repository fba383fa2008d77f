import InputDetail.Analysis.Path

/-!
# Statements

A statement declares one path mandatory or optional, or names two paths of which exactly one is
supplied. This is its shape; whether the paths fit the model is decided later.
-/
namespace InputDetail.Analysis

inductive Statement where
  | declaration (status : Status) (path : ExprId)
  | alternation (span : Span) (status : Status) (primary secondary : ExprId)
deriving DecidableEq

/-- The status and the path of a marker call, or nothing for any other expression. -/
def markerAt (store : ExprStore) (id : ExprId) : Except Halt (Option (Status × ExprId)) := do
  let expr ← exprAt store id
  match expr.kind with
  | .call receiver name args => match Status.ofMarker? name with
    | none => return none
    | some status =>
      if receiver.isSome then unsupported expr.span .markerOnReceiver
      else match ← argsAt store args with
        | [path] => return some (status, path)
        | _ => unsupported expr.span .markerArity
  | _ => return none

/-- Reads a call of `or`, which must wrap two paths in the same marker. -/
def alternationAt (store : ExprStore) (span : Span) (receiver : Option ExprId) (args : ArgRange) :
    Except Halt Statement := do
  let malformed (defect : AlternationDefect) : Except Halt Statement :=
    refuse (.malformedAlternation span defect)
  if receiver.isSome then malformed .receiver
  else match ← argsAt store args with
    | [first, second] =>
      let first ← markerAt store first
      let second ← markerAt store second
      match first, second with
      | some (status, primary), some (other, secondary) =>
        if status = other then return .alternation span status primary secondary
        else malformed .mixedMarkers
      | _, _ => malformed .missingMarker
    | _ => malformed (.wrongArity args.length)

/-- A path in a marker, or a path alone, which is optional. -/
def declarationAt (store : ExprStore) (id : ExprId) : Except Halt Statement := do
  match ← markerAt store id with
  | some (status, path) => return .declaration status path
  | none => return .declaration .optional id

/-- The statement that an expression makes. -/
def statementAt (store : ExprStore) (id : ExprId) : Except Halt Statement := do
  let expr ← exprAt store id
  match expr.kind with
  | .call receiver name args =>
    if name = .or then alternationAt store expr.span receiver args else declarationAt store id
  | _ => declarationAt store id

end InputDetail.Analysis
