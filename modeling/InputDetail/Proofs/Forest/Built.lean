import InputDetail.Proofs.Forest.Edits

/-!
# Forests built by edits

Each edit of an existing node, and each new node below an existing one, keeps a forest well formed.
A forest is built if edits lead to it from the empty forest; how its nodes are typed, linked and
detached on the way does not matter.
-/
namespace InputDetail.Forest

variable {forest forest' : Forest}

/-- The forest with one node replaced. -/
def set (forest : Forest) (id : NodeId) (node : Node) : Forest :=
  ⟨forest.nodes.setIfInBounds id.index node⟩

theorem editNode_of_node? {α : Type} {id : NodeId} {node node' : Node} {a : α}
    {change : Node → Except ForestError (α × Node)} (hnode : forest.node? id = some node)
    (hchange : change node = .ok (a, node')) :
    editNode id change forest = .ok a (forest.set id node') := by
  simp only [editNode, hnode, hchange, set]

theorem node?_set {id : NodeId} {node node' : Node} (hnode : forest.node? id = some node)
    (other : NodeId) :
    (forest.set id node').node? other = if other = id then some node' else forest.node? other := by
  have hedit : editNode id (fun _ => .ok ((), node')) forest = .ok () (forest.set id node') :=
    editNode_of_node? hnode rfl
  obtain ⟨_, _, _, hchange, hafter⟩ := node?_editNode hedit
  cases hchange
  exact hafter other

theorem samePlaces_set {id : NodeId} {node node' : Node} (hnode : forest.node? id = some node)
    (hplace : node'.place = node.place) : forest.SamePlaces (forest.set id node') :=
  samePlaces_of_update hnode (node?_set hnode) hplace

theorem setType_of_node? {id : NodeId} {node : Node} {type : TypeId}
    (hnode : forest.node? id = some node) (htype : ∀ known, node.type = some known → known = type) :
    setType id type forest = .ok () (forest.set id { node with type := some type }) := by
  apply editNode_of_node? hnode
  cases hknown : node.type with
  | none => rfl
  | some known =>
    have hsame := htype known hknown
    subst hsame
    simp only [if_pos, ← hknown]

theorem setStatus_of_node? {id : NodeId} {node : Node} (hnode : forest.node? id = some node)
    (status : Status) : setStatus id status forest =
      .ok node.status (forest.set id { node with status := some status }) :=
  editNode_of_node? hnode rfl

theorem setLink_of_node? {id : NodeId} {node : Node} (hnode : forest.node? id = some node)
    (link : Link) : setLink id link forest = .ok () (forest.set id { node with link := some link }) :=
  editNode_of_node? hnode rfl

theorem detach_of_node? {id : NodeId} {node : Node} (hnode : forest.node? id = some node)
    (hatt : node.attached = true) :
    detach id forest = .ok () (forest.set id { node with attached := false }) :=
  editNode_of_node? hnode (by simp only [hatt, if_true])

/-- A node can be detached only while it is attached. -/
theorem detached_of_detach {id : NodeId} (h : detach id forest = .ok () forest') :
    Detached id forest forest' := by
  obtain ⟨node, node', hnode, hchange, hafter⟩ := node?_editNode h
  cases hatt : node.attached with
  | false => simp [hatt] at hchange
  | true =>
    simp only [hatt, if_true, Except.ok.injEq, Prod.mk.injEq, true_and] at hchange
    exact ⟨node, hnode, hatt, by rw [hchange]; exact hafter⟩

/-- The parent of a new node exists; nothing is above a root. -/
def Holds (forest : Forest) (parent : Option NodeId) : Prop :=
  ∀ id, parent = some id → id.index < forest.size

theorem holds_of_seek {path : List Name} {position : Option NodeId}
    (h : forest.seek path = some position) : forest.Holds position := by
  rintro id rfl
  obtain ⟨node, hnode, -⟩ := node?_of_find? (seek_eq_some_some.1 h)
  exact node?_lt hnode

theorem insert_of_holds {parent : Option NodeId} (h : forest.Holds parent) (name : Name) :
    insert parent name forest = match forest.child? parent name with
      | some id => .ok (id, false) forest
      | none => .ok (⟨forest.size⟩, true) (forest.push (.new name parent)) := by
  have hfilter : parent.filter (fun id => (forest.node? id).isNone) = none := by
    rw [Option.filter_eq_none_iff]
    intro id hid
    simpa [node?, size] using h id hid
  cases hchild : forest.child? parent name <;> simp only [insert, hfilter, hchild, push]

theorem holds_of_insert {parent : Option NodeId} {name : Name} {result : NodeId × Bool}
    (h : insert parent name forest = .ok result forest') : forest.Holds parent := by
  unfold insert at h
  split at h
  · cases h
  · next hfilter =>
    rintro id rfl
    rw [Option.filter_eq_none_iff] at hfilter
    simpa [node?, size] using hfilter id rfl

theorem WellFormed.insert (hf : forest.WellFormed) {parent : Option NodeId} {name : Name}
    {result : NodeId × Bool} (h : Forest.insert parent name forest = .ok result forest') :
    forest'.WellFormed := by
  have hold := holds_of_insert h
  rw [insert_of_holds hold] at h
  cases hchild : forest.child? parent name with
  | some id =>
    rw [hchild] at h
    cases h
    exact hf
  | none =>
    rw [hchild] at h
    cases h
    exact hf.push hold hchild

/-- An edit of one node keeps the forest well formed if it leaves the node where it stands. -/
theorem WellFormed.editNode {α : Type} (hf : forest.WellFormed) {id : NodeId}
    {change : Node → Except ForestError (α × Node)} {a : α}
    (hchange : ∀ node node', change node = .ok (a, node') → node'.place = node.place)
    (h : Forest.editNode id change forest = .ok a forest') : forest'.WellFormed := by
  obtain ⟨node, node', hnode, hnode', hafter⟩ := node?_editNode h
  exact (samePlaces_of_update hnode hafter (hchange node node' hnode')).wellFormed hf

theorem WellFormed.setType (hf : forest.WellFormed) {id : NodeId} {type : TypeId}
    (h : Forest.setType id type forest = .ok () forest') : forest'.WellFormed := by
  refine hf.editNode (fun node node' hchange => ?_) h
  split at hchange
  · cases hchange
    rfl
  · split at hchange
    · cases hchange
      rfl
    · cases hchange

theorem WellFormed.setStatus (hf : forest.WellFormed) {id : NodeId} {status : Status}
    {previous : Option Status} (h : Forest.setStatus id status forest = .ok previous forest') :
    forest'.WellFormed := by
  refine hf.editNode (fun node node' hchange => ?_) h
  cases hchange
  rfl

theorem WellFormed.setLink (hf : forest.WellFormed) {id : NodeId} {link : Link}
    (h : Forest.setLink id link forest = .ok () forest') : forest'.WellFormed := by
  refine hf.editNode (fun node node' hchange => ?_) h
  cases hchange
  rfl

/-- The forests that edits make of the empty forest. Edits that are refused change nothing. -/
inductive Built : Forest → Prop
  | empty : Built .empty
  | insert {forest forest' : Forest} {parent : Option NodeId} {name : Name} {result : NodeId × Bool}
      (built : Built forest) (edit : Forest.insert parent name forest = .ok result forest') :
      Built forest'
  | setType {forest forest' : Forest} {id : NodeId} {type : TypeId} (built : Built forest)
      (edit : Forest.setType id type forest = .ok () forest') : Built forest'
  | setStatus {forest forest' : Forest} {id : NodeId} {status : Status} {previous : Option Status}
      (built : Built forest) (edit : Forest.setStatus id status forest = .ok previous forest') :
      Built forest'
  | setLink {forest forest' : Forest} {id : NodeId} {link : Link} (built : Built forest)
      (edit : Forest.setLink id link forest = .ok () forest') : Built forest'
  | detach {forest forest' : Forest} {id : NodeId} (built : Built forest)
      (edit : Forest.detach id forest = .ok () forest') : Built forest'

theorem Built.wellFormed (h : forest.Built) : forest.WellFormed := by
  induction h with
  | empty => exact wellFormed_empty
  | insert _ edit ih => exact ih.insert edit
  | setType _ edit ih => exact ih.setType edit
  | setStatus _ edit ih => exact ih.setStatus edit
  | setLink _ edit ih => exact ih.setLink edit
  | detach _ edit ih => exact (detached_of_detach edit).wellFormed ih

end InputDetail.Forest
