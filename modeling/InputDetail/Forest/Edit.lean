import InputDetail.Forest

/-!
# Changing a forest

Nodes are created where a path needs them, get their type once, and are detached at most once. An
edit that is refused leaves the forest as it was.
-/
namespace InputDetail

inductive ForestError where
  | unknownNode (node : NodeId)
  | typeAlreadyResolved (node : NodeId) (existing requested : TypeId)
  | notAttached (node : NodeId)
deriving DecidableEq

def ForestError.message : ForestError → String
  | unknownNode node => s!"node {node} is not in the forest"
  | typeAlreadyResolved node existing requested =>
    s!"node {node} already has type {existing}, refusing to change it to {requested}"
  | notAttached node => s!"node {node} is already detached"

namespace Forest

/-- A change of a forest that may be refused. -/
abbrev Edit := EStateM ForestError Forest

/-- Replaces one node by what `change` makes of it. -/
def editNode {α : Type} (id : NodeId) (change : Node → Except ForestError (α × Node)) : Edit α :=
  fun forest => match forest.node? id with
  | none => .error (.unknownNode id) forest
  | some node => match change node with
    | .error e => .error e forest
    | .ok (a, node) => .ok a ⟨forest.nodes.setIfInBounds id.index node⟩

/-- What an edit of one node leaves at every number. -/
theorem node?_editNode {α : Type} {id : NodeId}
    {change : Node → Except ForestError (α × Node)} {forest forest' : Forest} {a : α}
    (h : editNode id change forest = .ok a forest') :
    ∃ node node', forest.node? id = some node ∧ change node = .ok (a, node') ∧
      ∀ other, forest'.node? other = if other = id then some node' else forest.node? other := by
  unfold editNode at h
  split at h
  · cases h
  · next node hnode =>
    split at h
    · cases h
    · next a' node' hchange =>
      cases h
      refine ⟨node, node', hnode, hchange, fun other => ?_⟩
      obtain ⟨index⟩ := id
      obtain ⟨other⟩ := other
      simp only [node?, Array.getElem?_setIfInBounds, NodeId.mk.injEq, eq_comm (a := index)]
      split
      · next heq =>
        subst heq
        simpa using (Array.getElem?_eq_some_iff.1 hnode).1
      · rfl

/-- An edit that is refused changes nothing. -/
theorem editNode_eq_of_error {α : Type} {id : NodeId}
    {change : Node → Except ForestError (α × Node)} {forest forest' : Forest} {e : ForestError}
    (h : editNode id change forest = .error e forest') : forest' = forest := by
  unfold editNode at h
  split at h
  · cases h; rfl
  · split at h
    · cases h; rfl
    · cases h

/-- The child of `parent` with some name, created if there is none, and whether it was created. -/
def insert (parent : Option NodeId) (name : Name) : Edit (NodeId × Bool) := fun forest =>
  match parent.filter fun id => (forest.node? id).isNone with
  | some id => .error (.unknownNode id) forest
  | none => match forest.child? parent name with
    | some id => .ok (id, false) forest
    | none => .ok (⟨forest.size⟩, true) ⟨forest.nodes.push (.new name parent)⟩

/-- A new node changes no other. -/
theorem node?_insert_of_some {parent : Option NodeId} {name : Name} {forest forest' : Forest}
    {result : NodeId × Bool} (h : insert parent name forest = .ok result forest') {id : NodeId}
    {known : Node} (hknown : forest.node? id = some known) : forest'.node? id = some known := by
  unfold insert at h
  split at h
  · cases h
  · split at h
    · cases h; exact hknown
    · cases h
      obtain ⟨hlt, -⟩ := Array.getElem?_eq_some_iff.1 hknown
      simp only [node?, Array.getElem?_push]
      rw [if_neg (Nat.ne_of_lt hlt)]
      exact hknown

/-- Records the type of a node. The same type may be recorded again. -/
def setType (id : NodeId) (type : TypeId) : Edit Unit :=
  editNode id fun node => match node.type with
  | none => .ok ((), { node with type := some type })
  | some existing =>
    if existing = type then .ok ((), node) else .error (.typeAlreadyResolved id existing type)

/-- Overwrites the status of a node and gives the one it had. -/
def setStatus (id : NodeId) (status : Status) : Edit (Option Status) :=
  editNode id fun node => .ok (node.status, { node with status := some status })

def setLink (id : NodeId) (link : Link) : Edit Unit :=
  editNode id fun node => .ok ((), { node with link := some link })

/-- Takes a node out of its parent's children, or out of the roots. -/
def detach (id : NodeId) : Edit Unit :=
  editNode id fun node =>
    if node.attached then .ok ((), { node with attached := false }) else .error (.notAttached id)

end Forest

end InputDetail
