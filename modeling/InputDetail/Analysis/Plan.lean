import InputDetail.Analysis.Statement
import InputDetail.Parameter

/-!
# Planning a statement

A statement is first checked against the parameters and their types. The plan says what is to be
changed; nothing is changed before the whole statement has been found in order.
-/
namespace InputDetail.Analysis

/-- What to do when a member that has one status is declared again with the other. -/
inductive ConflictPolicy where
  | lastWins | reject
deriving DecidableEq

/-- What documentation is checked against, besides the parameters. -/
structure Model where
  types : TypeTable
  policy : ConflictPolicy

/-- A member path of the parameter at position `owner`, with the types of its members, and the
status that its end gets. There is at least one member. -/
structure MemberPlan where
  owner : Nat
  first : Member
  later : List Member
  status : Status
deriving DecidableEq

namespace MemberPlan

/-- The names of the members. -/
def path (plan : MemberPlan) : List Name := plan.first.name :: plan.later.map (·.name)

end MemberPlan

/-- A path that fits the model: a simple parameter, or members of a structured one. -/
inductive Plan where
  | flag (owner : Nat) (status : Status)
  | members (plan : MemberPlan)
deriving DecidableEq

/-- The type of the member `name` of a value of type `current`. A node that has been there before
knows it. -/
def memberType (types : TypeTable) (forest : Forest) (node : Option NodeId) (current : TypeId)
    (name : Name) : Except MemberError TypeId :=
  match (node.bind forest.node?).bind (·.type) with
  | some type => .ok type
  | none => types.resolve current name

/-- Finds the types of all members of a path. `position` is the node reached so far, if the forest
has it, and `some none` above the roots. A failure tells the path up to the member that does not
resolve. -/
def resolveMembers (types : TypeTable) (forest : Forest) :
    Option (Option NodeId) → TypeId → Name → List Name →
      Except (List Name × MemberError) (Member × List Member)
  | position, current, name, rest =>
    let node := position.bind (forest.child? · name)
    match memberType types forest node current name with
    | .error e => .error ([name], e)
    | .ok type => match rest with
      | [] => .ok (⟨name, type⟩, [])
      | next :: rest => match resolveMembers types forest (node.map some) type next rest with
        | .error (path, e) => .error (name :: path, e)
        | .ok (member, members) => .ok (⟨name, type⟩, member :: members)

/-- The status of the node at the end of a path. -/
def statusAt (forest : Forest) (path : List Name) : Option Status :=
  ((forest.find? path).bind forest.node?).bind (·.status)

/-- Checks a path against the parameters and their types. -/
def planPath (model : Model) (store : ExprStore) (parameters : List Parameter) (status : Status)
    (id : ExprId) : Except Halt Plan := do
  let span := (← exprAt store id).span
  let path ← pathAt store id
  let some (owner, parameter) := Parameter.locate? parameters path.parameter
    | refuse (.unknownParameter path.parameter span)
  match path.members with
  | [] =>
    if model.types.isSimple parameter.type then return .flag owner status
    else refuse (.simpleParameterExpected path.parameter span)
  | name :: rest =>
    match resolveMembers model.types parameter.forest (some none) parameter.type name rest with
    | .error (failing, cause) => refuse (.structuralMismatch path.parameter failing cause span)
    | .ok (first, later) =>
      let existing := statusAt parameter.forest path.members
      if model.policy = .reject ∧ existing.any (· ≠ status) then
        refuse (.conflictingStatus path.parameter path.members span)
      else return .members ⟨owner, first, later, status⟩

/-- What a statement changes. -/
inductive Change where
  | flag (owner : Nat) (status : Status)
  | record (plan : MemberPlan)
  /-- Records both paths, detaches the second and links the first to it. -/
  | link (primary secondary : MemberPlan)
  /-- Records the first path and repeats the status of the node it is linked to. -/
  | relink (primary secondary : MemberPlan) (linked : NodeId)
deriving DecidableEq

/-- Whether the node at the end of a planned path has children. -/
def hasChildren (parameters : List Parameter) (plan : MemberPlan) : Bool :=
  parameters[plan.owner]?.any fun parameter =>
    (parameter.forest.find? plan.path).any parameter.forest.hasChildren

/-- The detached node at the end of the secondary path, if the primary is linked to it already. -/
def linked? (parameters : List Parameter) (primary secondary : MemberPlan) : Option NodeId := do
  let source ← parameters[primary.owner]?
  let target ← parameters[secondary.owner]?
  let node ← (source.forest.find? primary.path).bind source.forest.node?
  let link ← node.link
  let linked ← target.forest.node? link.node
  if link.parameter = target.name ∧ linked.attached = false ∧
      target.forest.path? link.node = some secondary.path then some link.node
  else none

/-- Checks that the second side of an alternation can be detached: it is another member than the
first, and has no members of its own before or after both are recorded. -/
def alternationDefect? (parameters : List Parameter) (primary secondary : MemberPlan) :
    Option AlternationDefect :=
  if primary.owner = secondary.owner ∧ primary.path = secondary.path then some .identicalSides
  else if primary.owner = secondary.owner ∧ secondary.path <+: primary.path then
    some .secondaryHasChildren
  else if hasChildren parameters secondary then some .secondaryHasChildren
  else none

/-- Checks an alternation whose sides are two expressions. -/
def planAlternation (model : Model) (store : ExprStore) (parameters : List Parameter) (span : Span)
    (status : Status) (first second : ExprId) : Except Halt Change := do
  let first ← planPath model store parameters status first
  let second ← planPath model store parameters status second
  match first, second with
  | .members primary, .members secondary =>
    match alternationDefect? parameters primary secondary with
    | some defect => refuse (.malformedAlternation span defect)
    | none => match linked? parameters primary secondary with
      | some linked => return .relink primary secondary linked
      | none => return .link primary secondary
  | _, _ => refuse (.malformedAlternation span .simpleParameter)

/-- Checks a statement and says what it changes. -/
def planStatement (model : Model) (store : ExprStore) (parameters : List Parameter) (id : ExprId) :
    Except Halt Change := do
  match ← statementAt store id with
  | .declaration status path =>
    match ← planPath model store parameters status path with
    | .flag owner status => return .flag owner status
    | .members plan => return .record plan
  | .alternation span status primary secondary =>
    planAlternation model store parameters span status primary secondary

end InputDetail.Analysis
