import InputDetail.Proofs.Forest.Built

/-!
# Forests that list their children

A forest finds the children of a node by looking through all nodes. Here every node lists its children by
name, and the forest lists its roots. So the same fact is kept three times: in the lists, as the parent
of a node, and as the mark that it is attached. An edit changes all of them, a detached node is taken
from the list by its name alone, and its name can be taken again. Still both forests answer every row of
edits alike, and a list has exactly the attached nodes that belong there.
-/
namespace InputDetail

/-- A node and its children by name. -/
structure ListedNode extends Node where
  children : Std.HashMap Name NodeId

/-- A forest with its roots by name. -/
structure ListedForest where
  nodes : Array ListedNode
  roots : Std.HashMap Name NodeId

namespace ListedForest

def empty : ListedForest := ⟨#[], ∅⟩

def listed? (listed : ListedForest) (id : NodeId) : Option ListedNode := listed.nodes[id.index]?

def node? (listed : ListedForest) (id : NodeId) : Option Node :=
  (listed.listed? id).map (·.toNode)

/-- The list of the children of a node, or of the roots. -/
def listing? (listed : ListedForest) : Option NodeId → Option (Std.HashMap Name NodeId)
  | none => some listed.roots
  | some parent => (listed.listed? parent).map (·.children)

/-- The node that is listed under a name. -/
def child? (listed : ListedForest) (position : Option NodeId) (name : Name) : Option NodeId :=
  (listed.listing? position).bind (·[name]?)

abbrev Edit := EStateM ForestError ListedForest

def modify (listed : ListedForest) (id : NodeId) (change : ListedNode → ListedNode) : ListedForest :=
  { listed with nodes := listed.nodes.modify id.index change }

/-- Changes the list of the children of a node, or of the roots. -/
def relist (listed : ListedForest)
    (change : Std.HashMap Name NodeId → Std.HashMap Name NodeId) : Option NodeId → ListedForest
  | none => { listed with roots := change listed.roots }
  | some parent => listed.modify parent fun node => { node with children := change node.children }

/-- The forest with one more node, which lists nothing and is not listed. -/
def push (listed : ListedForest) (node : Node) : ListedForest :=
  { listed with nodes := listed.nodes.push { node with children := ∅ } }

/-- The entry of a name, created if there is none, and whether it was created. -/
def insert (parent : Option NodeId) (name : Name) : Edit (NodeId × Bool) := fun listed =>
  match parent.filter fun id => (listed.listed? id).isNone with
  | some id => .error (.unknownNode id) listed
  | none => match listed.child? parent name with
    | some id => .ok (id, false) listed
    | none =>
      let id : NodeId := ⟨listed.nodes.size⟩
      .ok (id, true) ((listed.push (.new name parent)).relist (·.insert name id) parent)

/-- The forest with one node replaced. The node keeps its list. -/
def set (listed : ListedForest) (id : NodeId) (node : Node) : ListedForest :=
  listed.modify id fun old => { old with toNode := node }

/-- Replaces one node by what `change` makes of it. -/
def editNode {α : Type} (id : NodeId) (change : Node → Except ForestError (α × Node)) : Edit α :=
  fun listed => match listed.node? id with
  | none => .error (.unknownNode id) listed
  | some node => match change node with
    | .error e => .error e listed
    | .ok (a, node) => .ok a (listed.set id node)

def setType (id : NodeId) (type : TypeId) : Edit Unit :=
  editNode id fun node => match node.type with
  | none => .ok ((), { node with type := some type })
  | some existing =>
    if existing = type then .ok ((), node) else .error (.typeAlreadyResolved id existing type)

def setStatus (id : NodeId) (status : Status) : Edit (Option Status) :=
  editNode id fun node => .ok (node.status, { node with status := some status })

def setLink (id : NodeId) (link : Link) : Edit Unit :=
  editNode id fun node => .ok ((), { node with link := some link })

/-- Takes the name of a node out of its parent's list, or out of the roots. -/
def detach (id : NodeId) : Edit Unit := fun listed => match listed.node? id with
  | none => .error (.unknownNode id) listed
  | some node =>
    if node.attached then
      .ok () ((listed.relist (·.erase node.name) node.parent).set id { node with attached := false })
    else .error (.notAttached id) listed

end ListedForest

namespace Forest

/-- An edit of a forest. -/
inductive Call where
  | insert (parent : Option NodeId) (name : Name)
  | setType (id : NodeId) (type : TypeId)
  | setStatus (id : NodeId) (status : Status)
  | setLink (id : NodeId) (link : Link)
  | detach (id : NodeId)

/-- What an edit gives. -/
inductive Answer where
  | done
  | inserted (id : NodeId) (created : Bool)
  | replaced (previous : Option Status)
deriving DecidableEq

/-- One edit after the other, each where the one before ended; one that is refused is passed over. -/
def runCalls {σ : Type} (perform : Call → EStateM ForestError σ Answer) :
    List Call → σ → List (Except ForestError Answer) × σ
  | [], state => ([], state)
  | call :: calls, state => match perform call state with
    | .ok answer state' =>
      ((runCalls perform calls state').map (.ok answer :: ·) id)
    | .error e state' => ((runCalls perform calls state').map (.error e :: ·) id)

def perform : Call → Edit Answer
  | .insert parent name => (fun result => .inserted result.1 result.2) <$> insert parent name
  | .setType id type => (fun () => .done) <$> setType id type
  | .setStatus id status => .replaced <$> setStatus id status
  | .setLink id link => (fun () => .done) <$> setLink id link
  | .detach id => (fun () => .done) <$> detach id

end Forest

namespace ListedForest

open Forest (Call Answer runCalls)

def perform : Call → Edit Answer
  | .insert parent name => (fun result => .inserted result.1 result.2) <$> insert parent name
  | .setType id type => (fun () => .done) <$> setType id type
  | .setStatus id status => .replaced <$> setStatus id status
  | .setLink id link => (fun () => .done) <$> setLink id link
  | .detach id => (fun () => .done) <$> detach id

variable {listed : ListedForest} {forest : Forest} {position : Option NodeId} {name : Name}

/-- Both forests have the same nodes, and a name is listed for the child that it leads to. -/
structure Represents (listed : ListedForest) (forest : Forest) : Prop where
  wellFormed : forest.WellFormed
  node? : ∀ id, listed.node? id = forest.node? id
  child? : ∀ position name, listed.child? position name = forest.child? position name

theorem represents_empty : empty.Represents .empty where
  wellFormed := Forest.wellFormed_empty
  node? id := by simp [node?, listed?, empty, Forest.node?, Forest.empty]
  child? position name := by
    have hnone : Forest.child? .empty position name = none := by
      rw [Forest.child?_eq_none_iff]
      rintro id ⟨node, hnode, -⟩
      simp [Forest.node?, Forest.empty] at hnode
    rw [hnone]
    cases position <;> simp [ListedForest.child?, listing?, listed?, empty]

theorem Represents.size_eq (h : listed.Represents forest) : listed.nodes.size = forest.size := by
  have hlt : ∀ index : Nat, index < listed.nodes.size ↔ index < forest.size := by
    intro index
    have hheld : (forest.node? ⟨index⟩).isSome ↔ index < forest.size := Forest.node?_isSome
    rw [← hheld, ← h.node?]
    simp [ListedForest.node?, listed?]
  have hle := hlt forest.size
  have hge := hlt listed.nodes.size
  omega

theorem listed?_modify (listed : ListedForest) (id : NodeId) (change : ListedNode → ListedNode)
    (other : NodeId) : (listed.modify id change).listed? other =
      if other = id then (listed.listed? other).map change else listed.listed? other := by
  obtain ⟨index⟩ := id
  obtain ⟨other⟩ := other
  simp only [listed?, modify, Array.getElem?_modify, NodeId.mk.injEq, eq_comm (a := index)]

theorem node?_relist (listed : ListedForest)
    (change : Std.HashMap Name NodeId → Std.HashMap Name NodeId) (position : Option NodeId)
    (id : NodeId) : (listed.relist change position).node? id = listed.node? id := by
  cases position with
  | none => rfl
  | some parent =>
    rw [relist, node?, node?, listed?_modify]
    split
    · rw [Option.map_map]
      rfl
    · rfl

theorem listing?_relist (listed : ListedForest)
    (change : Std.HashMap Name NodeId → Std.HashMap Name NodeId) (position other : Option NodeId) :
    (listed.relist change position).listing? other =
      if other = position then (listed.listing? other).map change else listed.listing? other := by
  cases position with
  | none => cases other <;> rfl
  | some parent =>
    cases other with
    | none => rfl
    | some other =>
      simp only [relist, listing?, listed?_modify, Option.some.injEq]
      split
      · rw [Option.map_map, Option.map_map]
        rfl
      · rfl

theorem node?_set (listed : ListedForest) (id : NodeId) (node : Node) (other : NodeId) :
    (listed.set id node).node? other =
      if other = id then (listed.node? other).map fun _ => node else listed.node? other := by
  rw [set, node?, node?, listed?_modify]
  split
  · rw [Option.map_map, Option.map_map]
    rfl
  · rfl

theorem child?_set (listed : ListedForest) (id : NodeId) (node : Node) (position : Option NodeId)
    (name : Name) : (listed.set id node).child? position name = listed.child? position name := by
  cases position with
  | none => rfl
  | some parent =>
    rw [child?, child?, set, listing?, listing?, listed?_modify]
    split
    · rw [Option.map_map]
      rfl
    · rfl

theorem child?_relist_insert {id : NodeId} (h : (listed.listing? position).isSome)
    (other : Option NodeId) (known : Name) :
    (listed.relist (·.insert name id) position).child? other known =
      if other = position ∧ known = name then some id else listed.child? other known := by
  rw [child?, listing?_relist, child?]
  by_cases hother : other = position
  · obtain ⟨listing, hlisting⟩ := Option.isSome_iff_exists.1 h
    rw [if_pos hother, hother, hlisting]
    simp only [Option.map_some, Option.bind_some, Std.HashMap.getElem?_insert, beq_iff_eq, true_and,
      eq_comm (a := name)]
  · rw [if_neg hother, if_neg fun h => hother h.1]

theorem child?_relist_erase (listed : ListedForest) (name : Name) (position other : Option NodeId)
    (known : Name) : (listed.relist (·.erase name) position).child? other known =
      if other = position ∧ known = name then none else listed.child? other known := by
  rw [child?, listing?_relist, child?]
  by_cases hother : other = position
  · rw [if_pos hother, hother]
    cases listed.listing? position with
    | none => exact (ite_self none).symm
    | some listing =>
      simp only [Option.map_some, Option.bind_some, Std.HashMap.getElem?_erase, beq_iff_eq, true_and,
        eq_comm (a := name)]
  · rw [if_neg hother, if_neg fun h => hother h.1]

theorem listed?_push (listed : ListedForest) (node : Node) (id : NodeId) :
    (listed.push node).listed? id =
      if id = ⟨listed.nodes.size⟩ then some { node with children := ∅ } else listed.listed? id := by
  obtain ⟨index⟩ := id
  simp only [listed?, push, Array.getElem?_push, NodeId.mk.injEq]

theorem node?_push (listed : ListedForest) (node : Node) (id : NodeId) :
    (listed.push node).node? id =
      if id = ⟨listed.nodes.size⟩ then some node else listed.node? id := by
  rw [node?, listed?_push, node?]
  split <;> rfl

theorem child?_push (listed : ListedForest) (node : Node) (position : Option NodeId) (name : Name) :
    (listed.push node).child? position name = listed.child? position name := by
  cases position with
  | none => rfl
  | some parent =>
    rw [child?, child?, listing?, listing?, listed?_push]
    split_ifs with hparent
    · have hnone : listed.listed? parent = none := by simp [hparent, listed?]
      simp [hnone]
    · rfl

/-- Both edits are refused alike, or give the same and end in forests that are the same. -/
inductive SameResult {α : Type} : EStateM.Result ForestError ListedForest α →
    EStateM.Result ForestError Forest α → Prop
  | ok {listed : ListedForest} {forest : Forest} (a : α) (same : listed.Represents forest) :
      SameResult (.ok a listed) (.ok a forest)
  | error {listed : ListedForest} {forest : Forest} (e : ForestError)
      (same : listed.Represents forest) : SameResult (.error e listed) (.error e forest)

theorem SameResult.map {α β : Type} {edit : Edit α} {edit' : Forest.Edit α}
    (h : SameResult (edit listed) (edit' forest)) (f : α → β) :
    SameResult ((f <$> edit) listed) ((f <$> edit') forest) := by
  show SameResult (EStateM.map f edit listed) (EStateM.map f edit' forest)
  unfold EStateM.map
  generalize edit listed = result at h
  generalize edit' forest = result' at h
  cases h with
  | ok a same => exact .ok (f a) same
  | error e same => exact .error e same

/-- A new node is listed by its parent, whose list had no such name. -/
theorem Represents.push (h : listed.Represents forest) (hold : forest.Holds position)
    (hfree : forest.child? position name = none) :
    ((listed.push (.new name position)).relist (·.insert name ⟨listed.nodes.size⟩)
      position).Represents (forest.push (.new name position)) where
  wellFormed := h.wellFormed.push hold hfree
  node? id := by rw [node?_relist, node?_push, Forest.node?_push, h.node?, h.size_eq]
  child? other known := by
    have hlisting : ((listed.push (.new name position)).listing? position).isSome := by
      cases position with
      | none => rfl
      | some parent =>
        have hparent := Forest.node?_isSome.2 (hold parent rfl)
        rw [← h.node?, ListedForest.node?, Option.isSome_map] at hparent
        rw [listing?, Option.isSome_map, listed?_push]
        split_ifs
        · rfl
        · exact hparent
    have hpush : (forest.push (.new name position)).WellFormed := h.wellFormed.push hold hfree
    rw [child?_relist_insert hlisting, child?_push, h.child?, h.size_eq,
      h.wellFormed.child?_push rfl hpush]
    rfl

theorem Represents.insert (h : listed.Represents forest) (parent : Option NodeId) (name : Name) :
    SameResult (ListedForest.insert parent name listed) (Forest.insert parent name forest) := by
  have hknown : ∀ id, (listed.listed? id).isNone = (forest.node? id).isNone := by
    intro id
    rw [← h.node?, ListedForest.node?, Option.isNone_map]
  cases hfilter : parent.filter fun id => (forest.node? id).isNone with
  | some id =>
    simp only [ListedForest.insert, Forest.insert, hknown, hfilter]
    exact .error _ h
  | none =>
    have hold : forest.Holds parent := by
      rintro id rfl
      rw [Option.filter_eq_none_iff] at hfilter
      simpa [Forest.node?, Forest.size] using hfilter id rfl
    rw [Forest.insert_of_holds hold]
    simp only [ListedForest.insert, hknown, hfilter, h.child?]
    cases hfree : forest.child? parent name with
    | some id => exact .ok _ h
    | none =>
      simp only [h.size_eq]
      exact .ok _ (h.size_eq ▸ h.push hold hfree)

theorem Represents.set (h : listed.Represents forest) {id : NodeId} {node node' : Node}
    (hnode : forest.node? id = some node) (hplace : node'.place = node.place) :
    (listed.set id node').Represents (forest.set id node') where
  wellFormed := (Forest.samePlaces_set hnode hplace).wellFormed h.wellFormed
  node? other := by
    rw [node?_set, Forest.node?_set hnode, h.node?]
    split_ifs with hid
    · rw [hid, hnode]
      rfl
    · rfl
  child? position name := by
    rw [child?_set, h.child?, (Forest.samePlaces_set hnode hplace).child?_eq]

theorem Represents.editNode {α : Type} (h : listed.Represents forest) (id : NodeId)
    {change : Node → Except ForestError (α × Node)}
    (hplace : ∀ node a node', change node = .ok (a, node') → node'.place = node.place) :
    SameResult (ListedForest.editNode id change listed) (Forest.editNode id change forest) := by
  unfold ListedForest.editNode Forest.editNode
  rw [h.node?]
  cases hnode : forest.node? id with
  | none => exact .error _ h
  | some node =>
    cases hchange : change node with
    | error e => simpa only [hchange] using .error e h
    | ok result =>
      simp only [hchange]
      exact .ok _ (h.set hnode (hplace node result.1 result.2 hchange))

/-- A node that is attached is the one that its parent lists under its name, so taking the name out of
the list takes out the node. -/
theorem Represents.detach (h : listed.Represents forest) (id : NodeId) :
    SameResult (ListedForest.detach id listed) (Forest.detach id forest) := by
  unfold ListedForest.detach
  rw [h.node?]
  cases hnode : forest.node? id with
  | none =>
    simp only [Forest.detach, Forest.editNode, hnode]
    exact .error _ h
  | some node =>
    cases hatt : node.attached with
    | false =>
      simp only [Forest.detach, Forest.editNode, hnode, hatt, Bool.false_eq_true, if_false]
      exact .error _ h
    | true =>
      have hdetach := Forest.detach_of_node? hnode hatt
      have hdetached := Forest.detached_of_detach hdetach
      rw [hdetach]
      simp only [hatt, if_true]
      refine .ok _ ⟨hdetached.wellFormed h.wellFormed, fun other => ?_, fun position name => ?_⟩
      · rw [node?_set, node?_relist, Forest.node?_set hnode, h.node?]
        split_ifs with hid
        · rw [hid, hnode]
          rfl
        · rfl
      · have hentry : forest.child? position name = some id ↔
            position = node.parent ∧ name = node.name := by
          rw [h.wellFormed.child?_eq_some_iff, Forest.IsChild]
          constructor
          · rintro ⟨node', hnode', hname, -, hparent⟩
            rw [hnode] at hnode'
            cases hnode'
            exact ⟨hparent.symm, hname.symm⟩
          · rintro ⟨rfl, rfl⟩
            exact ⟨node, hnode, rfl, hatt, rfl⟩
        rw [child?_set, child?_relist_erase, hdetached.child?_eq h.wellFormed, h.child?]
        simp only [hentry]

theorem Represents.perform (h : listed.Represents forest) (call : Call) :
    SameResult (ListedForest.perform call listed) (Forest.perform call forest) := by
  cases call with
  | insert parent name => exact (h.insert parent name).map _
  | setType id type =>
    refine (h.editNode id fun node _ node' hchange => ?_).map _
    split at hchange
    · cases hchange
      rfl
    · split at hchange
      · cases hchange
        rfl
      · cases hchange
  | setStatus id status =>
    refine (h.editNode id fun node _ node' hchange => ?_).map _
    cases hchange
    rfl
  | setLink id link =>
    refine (h.editNode id fun node _ node' hchange => ?_).map _
    cases hchange
    rfl
  | detach id => exact (h.detach id).map _

theorem Represents.runCalls (h : listed.Represents forest) (calls : List Call) :
    (Forest.runCalls ListedForest.perform calls listed).1 =
        (Forest.runCalls Forest.perform calls forest).1 ∧
      (Forest.runCalls ListedForest.perform calls listed).2.Represents
        (Forest.runCalls Forest.perform calls forest).2 := by
  induction calls generalizing listed forest with
  | nil => exact ⟨rfl, h⟩
  | cons call calls ih =>
    have hstep := h.perform call
    rw [Forest.runCalls, Forest.runCalls]
    generalize ListedForest.perform call listed = result at hstep
    generalize Forest.perform call forest = result' at hstep
    cases hstep with
    | ok answer same => exact ⟨congrArg _ (ih same).1, (ih same).2⟩
    | error e same => exact ⟨congrArg _ (ih same).1, (ih same).2⟩

/-- Whatever edits are made of the empty forest, in any order, a forest that lists its children gives
the same answers and has the same nodes. Parents are older than their children, and the node that is
listed under a name, by a parent or among the roots, is the one attached node of this name and this
parent; so no attached node is missing from its list, and no list has another node. It is the child
that is found by looking through all nodes. -/
theorem listing_of_calls (calls : List Call) :
    let listed := (Forest.runCalls perform calls empty).2
    let forest := (Forest.runCalls Forest.perform calls .empty).2
    (Forest.runCalls perform calls empty).1 = (Forest.runCalls Forest.perform calls .empty).1 ∧
      (∀ id, listed.node? id = forest.node? id) ∧
      (∀ (id parent : NodeId) (node : Node), listed.node? id = some node →
        node.parent = some parent → parent.index < id.index) ∧
      (∀ position name id, listed.child? position name = some id ↔ ∃ node,
        listed.node? id = some node ∧ node.name = name ∧ node.attached = true ∧
          node.parent = position) ∧
      ∀ position name, forest.child? position name = listed.child? position name := by
  intro listed forest
  obtain ⟨hanswers, hsame⟩ := represents_empty.runCalls calls
  refine ⟨hanswers, hsame.node?, ?_, ?_, fun position name => (hsame.child? position name).symm⟩
  · intro id parent node hnode hparent
    rw [hsame.node?] at hnode
    exact hsame.wellFormed.parent_older hnode hparent
  · intro position name id
    rw [hsame.child?]
    simp only [listed, hsame.node?]
    exact hsame.wellFormed.child?_eq_some_iff

end ListedForest

end InputDetail
