import InputDetail.Status
import InputDetail.Types

/-!
# Member forests

A forest records which members of a structured parameter the documentation names. A node is one step
of a member path; it knows its parent, and its children are the attached nodes that name it as their
parent. A detached node keeps its number, its parent and all it holds, but no path leads to it any
more; its place can be taken by a new node of the same name. A forest whose nodes list their children,
`ListedForest`, gives the same answers. There may be any number of nodes.
-/
namespace InputDetail

structure NodeId where
  index : Nat
deriving DecidableEq

instance : ToString NodeId := ⟨fun id => s!"NodeId({id.index})"⟩

/-- A reference to the node that another node excludes. It may live in the forest of another
parameter, so the link names that parameter too. -/
structure Link where
  parameter : Name
  node : NodeId
deriving DecidableEq

/-- One step of a member path. -/
structure Node where
  name : Name
  /-- The node above, or nothing for a root. -/
  parent : Option NodeId
  /-- Type that the path reaches, set once. -/
  type : Option TypeId
  /-- Present where a documented path ends. -/
  status : Option Status
  /-- The node that this one excludes. -/
  link : Option Link
  attached : Bool
deriving DecidableEq

namespace Node

def new (name : Name) (parent : Option NodeId) : Node := ⟨name, parent, none, none, none, true⟩

/-- A documented path ends here. -/
def isLeaf (node : Node) : Bool := node.status.isSome

def isMandatory (node : Node) : Bool := node.status == some .mandatory

end Node

structure Forest where
  nodes : Array Node
deriving DecidableEq

namespace Forest

def empty : Forest := ⟨#[]⟩

/-- Number of nodes, detached ones included. -/
def size (forest : Forest) : Nat := forest.nodes.size

def node? (forest : Forest) (id : NodeId) : Option Node := forest.nodes[id.index]?

/-- All nodes in the order of their numbers. -/
def ids (forest : Forest) : List NodeId := (List.range forest.size).map NodeId.mk

/-- The attached nodes directly below `parent` with their names, oldest first. -/
def entries (forest : Forest) (parent : Option NodeId) : List (Name × NodeId) :=
  forest.ids.filterMap fun id => (forest.node? id).bind fun node =>
    if node.attached && node.parent == parent then some (node.name, id) else none

theorem mem_ids {forest : Forest} {id : NodeId} : id ∈ forest.ids ↔ id.index < forest.size := by
  obtain ⟨index⟩ := id
  simp [ids]

theorem node?_isSome {forest : Forest} {id : NodeId} :
    (forest.node? id).isSome = true ↔ id.index < forest.size := by
  simp [node?, size]

theorem mem_entries {forest : Forest} {parent : Option NodeId} {name : Name} {id : NodeId} :
    (name, id) ∈ forest.entries parent ↔ ∃ node, forest.node? id = some node ∧
      node.name = name ∧ node.attached = true ∧ node.parent = parent := by
  simp only [entries, List.mem_filterMap, Option.bind_eq_some_iff, Option.ite_none_right_eq_some,
    Option.some.injEq, Prod.mk.injEq, Bool.and_eq_true, beq_iff_eq]
  constructor
  · rintro ⟨id', -, node, hnode, ⟨hattached, hparent⟩, hname, rfl⟩
    exact ⟨node, hnode, hname, hattached, hparent⟩
  · rintro ⟨node, hnode, hname, hattached, hparent⟩
    refine ⟨id, mem_ids.2 (node?_isSome.1 (by simp [hnode])), node, hnode, ⟨hattached, hparent⟩, ?_⟩
    exact ⟨hname, rfl⟩

/-- The child of `parent` with some name. -/
def child? (forest : Forest) (parent : Option NodeId) (name : Name) : Option NodeId :=
  ((forest.entries parent).find? (·.1 == name)).map (·.2)

/-- The children of `parent`, ordered by the numbers of their names. -/
def below (forest : Forest) (parent : Option NodeId) : List NodeId :=
  ((forest.entries parent).mergeSort (·.1.index ≤ ·.1.index)).map (·.2)

def roots (forest : Forest) : List NodeId := forest.below none

def hasChildren (forest : Forest) (id : NodeId) : Bool := !(forest.entries (some id)).isEmpty

/-- Follows names downwards, from `at` or from above the roots. -/
def follow (forest : Forest) : Option NodeId → List Name → Option NodeId
  | position, [] => position
  | position, name :: rest => (forest.child? position name).bind fun id =>
    forest.follow (some id) rest

/-- The node that a path leads to. The empty path leads nowhere. -/
def find? (forest : Forest) (path : List Name) : Option NodeId := forest.follow none path

/-- The names from the root down to a node, which is at most `fuel` levels deep. -/
def climb (forest : Forest) : Nat → NodeId → Option (List Name)
  | 0, _ => none
  | fuel + 1, id => (forest.node? id).bind fun node => match node.parent with
    | none => some [node.name]
    | some parent => (forest.climb fuel parent).map (· ++ [node.name])

/-- The names from the root down to a node, attached or not. A parent is older than its children,
so the number of a node bounds its depth. -/
def path? (forest : Forest) (id : NodeId) : Option (List Name) :=
  forest.climb (id.index + 1) id

/-- The nodes below `parent`, at most `fuel` levels of them, each before its children. -/
def walkBelow (forest : Forest) : Nat → Option NodeId → List NodeId
  | 0, _ => []
  | fuel + 1, parent => (forest.below parent).flatMap fun id =>
    id :: forest.walkBelow fuel (some id)

/-- Every node that a path leads to, each before its children, siblings by number of name. -/
def walk (forest : Forest) : List NodeId := forest.walkBelow forest.size none

/-- The nodes of the walk that satisfy `p`. -/
def select (forest : Forest) (p : Node → Bool) : List NodeId :=
  forest.walk.filter fun id => (forest.node? id).any p

/-- The nodes where documented paths end. -/
def leaves (forest : Forest) : List NodeId := forest.select (·.isLeaf)

end Forest

end InputDetail
