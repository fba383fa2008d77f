import InputDetail.Forest.Edit
import Mathlib.Data.List.Induction

/-!
# The shape of a forest

Nodes refer to each other by number, and children are found by looking through all nodes. A forest is
well formed if parents are older than their children and if no two attached siblings share a name.
Then a node has at most one path that leads to it, and following a path and reading the names from
the root down to its end are inverse to each other.
-/
namespace InputDetail.Forest

/-- Parents are older than their children, and attached siblings differ in their names. -/
structure WellFormed (forest : Forest) : Prop where
  parent_older : ∀ {id parent : NodeId} {node : Node}, forest.node? id = some node →
    node.parent = some parent → parent.index < id.index
  sibling_unique : ∀ {a b : NodeId} {nodeA nodeB : Node}, forest.node? a = some nodeA →
    forest.node? b = some nodeB → nodeA.attached = true → nodeB.attached = true →
    nodeA.parent = nodeB.parent → nodeA.name = nodeB.name → a = b

theorem wellFormed_empty : empty.WellFormed where
  parent_older h := by simp [node?, empty] at h
  sibling_unique h := by simp [node?, empty] at h

theorem node?_lt {forest : Forest} {id : NodeId} {node : Node} (h : forest.node? id = some node) :
    id.index < forest.size := node?_isSome.1 (by simp [h])

/-- A parent exists, because it is older than its child. -/
theorem WellFormed.parent_exists {forest : Forest} (hf : forest.WellFormed) {id parent : NodeId}
    {node : Node} (h : forest.node? id = some node) (hp : node.parent = some parent) :
    (forest.node? parent).isSome := by
  have hlt := hf.parent_older h hp
  have hid := node?_lt h
  exact node?_isSome.2 (by omega)

/-- Attached nodes of one parent and one name. -/
def IsChild (forest : Forest) (parent : Option NodeId) (name : Name) (id : NodeId) : Prop :=
  ∃ node, forest.node? id = some node ∧ node.name = name ∧ node.attached = true ∧
    node.parent = parent

theorem isChild_of_child? {forest : Forest} {parent : Option NodeId} {name : Name} {id : NodeId}
    (h : forest.child? parent name = some id) : forest.IsChild parent name id := by
  obtain ⟨⟨found, id'⟩, hfind, rfl⟩ := Option.map_eq_some_iff.1 h
  have hmem := List.mem_of_find?_eq_some hfind
  have hname : found = name := by simpa using List.find?_some hfind
  subst hname
  exact mem_entries.1 hmem

theorem child?_eq_none_iff {forest : Forest} {parent : Option NodeId} {name : Name} :
    forest.child? parent name = none ↔ ∀ id, ¬ forest.IsChild parent name id := by
  simp only [child?, Option.map_eq_none_iff, List.find?_eq_none, beq_iff_eq, Prod.forall]
  constructor
  · intro h id hid
    exact h name id (mem_entries.2 hid) rfl
  · rintro h found id hmem rfl
    exact h id (mem_entries.1 hmem)

/-- In a well-formed forest a child is determined by its parent and its name. -/
theorem WellFormed.child?_eq_some_iff {forest : Forest} (hf : forest.WellFormed)
    {parent : Option NodeId} {name : Name} {id : NodeId} :
    forest.child? parent name = some id ↔ forest.IsChild parent name id := by
  refine ⟨isChild_of_child?, fun h => ?_⟩
  cases hc : forest.child? parent name with
  | none => exact absurd h (child?_eq_none_iff.1 hc id)
  | some other =>
    obtain ⟨node, hnode, hname, hatt, hpar⟩ := h
    obtain ⟨node', hnode', hname', hatt', hpar'⟩ := isChild_of_child? hc
    rw [hf.sibling_unique hnode' hnode hatt' hatt (by rw [hpar', hpar]) (by rw [hname', hname])]

/-- Forests with the same attached nodes have the same children. -/
theorem WellFormed.child?_congr {forest forest' : Forest} (hf : forest.WellFormed)
    (hf' : forest'.WellFormed) {parent parent' : Option NodeId} {name name' : Name}
    (h : ∀ id, forest'.IsChild parent' name' id ↔ forest.IsChild parent name id) :
    forest'.child? parent' name' = forest.child? parent name := by
  apply Option.ext
  intro id
  rw [hf'.child?_eq_some_iff, hf.child?_eq_some_iff, h id]

/-- A node that does not exist has no children. -/
theorem WellFormed.child?_of_not_lt {forest : Forest} (hf : forest.WellFormed) {id : NodeId}
    (h : forest.size ≤ id.index) (name : Name) : forest.child? (some id) name = none := by
  rw [child?_eq_none_iff]
  rintro child ⟨node, hnode, -, -, hpar⟩
  have hlt := node?_isSome.1 (hf.parent_exists hnode hpar)
  omega

theorem hasChildren_eq_false_iff {forest : Forest} {id : NodeId} :
    forest.hasChildren id = false ↔ ∀ name, forest.child? (some id) name = none := by
  simp only [hasChildren, Bool.not_eq_false', List.isEmpty_iff, child?, Option.map_eq_none_iff,
    List.find?_eq_none, beq_iff_eq, Prod.forall, List.eq_nil_iff_forall_not_mem]
  constructor
  · intro h name found child hmem _
    exact h found child hmem
  · intro h found child hmem
    exact h found found child hmem rfl

/-- Where a path leads: above the roots for the empty path, or to a node if it exists. -/
def seek (forest : Forest) : List Name → Option (Option NodeId)
  | [] => some none
  | name :: rest => (forest.find? (name :: rest)).map some

@[simp] theorem seek_nil (forest : Forest) : forest.seek [] = some none := rfl

theorem seek_of_ne_nil (forest : Forest) {path : List Name} (h : path ≠ []) :
    forest.seek path = (forest.find? path).map some := by
  cases path with
  | nil => contradiction
  | cons name rest => rfl

@[simp] theorem find?_nil (forest : Forest) : forest.find? [] = none := rfl

theorem ne_nil_of_find? {forest : Forest} {path : List Name} {id : NodeId}
    (h : forest.find? path = some id) : path ≠ [] := by
  rintro rfl
  simp at h

theorem seek_eq_some_some {forest : Forest} {path : List Name} {id : NodeId} :
    forest.seek path = some (some id) ↔ forest.find? path = some id := by
  cases path <;> simp [seek]

theorem seek_eq_some_none {forest : Forest} {path : List Name} :
    forest.seek path = some none ↔ path = [] := by
  cases path <;> simp [seek]

theorem follow_append (forest : Forest) (position : Option NodeId) (path : List Name) (name : Name) :
    forest.follow position (path ++ [name]) =
      ((if path = [] then some position else (forest.follow position path).map some).bind
        (forest.child? · name)) := by
  induction path generalizing position with
  | nil => simp [follow]
  | cons first rest ih =>
    simp only [List.cons_append, follow, reduceCtorEq, if_false]
    cases forest.child? position first with
    | none => rfl
    | some id =>
      simp only [Option.bind_some, ih]
      by_cases hrest : rest = []
      · simp [hrest, follow]
      · simp [hrest]

/-- One step further down. -/
theorem find?_concat (forest : Forest) (path : List Name) (name : Name) :
    forest.find? (path ++ [name]) = (forest.seek path).bind (forest.child? · name) := by
  rw [find?, follow_append]
  cases path <;> rfl

theorem seek_concat (forest : Forest) (path : List Name) (name : Name) :
    forest.seek (path ++ [name]) = ((forest.seek path).bind (forest.child? · name)).map some := by
  rw [seek_of_ne_nil _ (by simp), find?_concat]

theorem find?_concat_eq_some {forest : Forest} {path : List Name} {name : Name} {id : NodeId} :
    forest.find? (path ++ [name]) = some id ↔
      ∃ position, forest.seek path = some position ∧ forest.child? position name = some id := by
  rw [find?_concat, Option.bind_eq_some_iff]

/-- Whoever finds a path finds every shorter one. -/
theorem find?_isSome_of_prefix {forest : Forest} {short long : List Name} (hne : short ≠ [])
    (hpre : short <+: long) (h : (forest.find? long).isSome) : (forest.find? short).isSome := by
  obtain ⟨rest, rfl⟩ := hpre
  induction rest using List.reverseRecOn with
  | nil => simpa using h
  | append_singleton rest name ih =>
    apply ih
    rw [← List.append_assoc, find?_concat] at h
    rw [seek_of_ne_nil _ (by simp [hne])] at h
    cases hfind : forest.find? (short ++ rest) with
    | none => simp [hfind] at h
    | some id => rfl

/-- The node at the end of a path exists, is attached and has the last name of the path. -/
theorem node?_of_find?_concat {forest : Forest} {path : List Name} {name : Name} {id : NodeId}
    (h : forest.find? (path ++ [name]) = some id) :
    ∃ node, forest.node? id = some node ∧ node.name = name ∧ node.attached = true ∧
      forest.seek path = some node.parent := by
  obtain ⟨position, hseek, hchild⟩ := find?_concat_eq_some.1 h
  obtain ⟨node, hnode, hname, hatt, hpar⟩ := isChild_of_child? hchild
  exact ⟨node, hnode, hname, hatt, by rw [hpar, hseek]⟩

theorem node?_of_find? {forest : Forest} {path : List Name} {id : NodeId}
    (h : forest.find? path = some id) :
    ∃ node, forest.node? id = some node ∧ node.attached = true := by
  obtain ⟨init, name, rfl⟩ := List.eq_nil_or_concat path |>.resolve_left (ne_nil_of_find? h)
  rw [List.concat_eq_append] at h
  obtain ⟨node, hnode, -, hatt, -⟩ := node?_of_find?_concat h
  exact ⟨node, hnode, hatt⟩

/-- More fuel than the number of a node makes no difference. -/
theorem WellFormed.climb_eq {forest : Forest} (hf : forest.WellFormed) {fuel : Nat} {id : NodeId}
    (h : id.index < fuel) : forest.climb fuel id = forest.path? id := by
  induction fuel using Nat.strongRecOn generalizing id with
  | ind fuel ih =>
    cases fuel with
    | zero => omega
    | succ fuel =>
      rw [path?, climb, climb]
      cases hnode : forest.node? id with
      | none => rfl
      | some node =>
        cases hpar : node.parent with
        | none => simp only [Option.bind_some, hpar]
        | some parent =>
          have hlt := hf.parent_older hnode hpar
          have hleft : forest.climb fuel parent = forest.path? parent :=
            ih fuel (Nat.lt_succ_self fuel) (by omega)
          have hright : forest.climb id.index parent = forest.path? parent := ih id.index h hlt
          simp only [Option.bind_some, hpar, hleft, hright]

/-- The names of a path are names of nodes. -/
theorem exists_node_of_climb {forest : Forest} {fuel : Nat} {id : NodeId} {path : List Name}
    (h : forest.climb fuel id = some path) :
    ∀ name ∈ path, ∃ other node, forest.node? other = some node ∧ node.name = name := by
  induction fuel generalizing id path with
  | zero => cases h
  | succ fuel ih =>
    obtain ⟨node, hnode, hrest⟩ := Option.bind_eq_some_iff.1 h
    cases hpar : node.parent with
    | none =>
      simp only [hpar, Option.some.injEq] at hrest
      subst hrest
      exact List.forall_mem_singleton.2 ⟨id, node, hnode, rfl⟩
    | some parent =>
      simp only [hpar] at hrest
      obtain ⟨above, habove, rfl⟩ := Option.map_eq_some_iff.1 hrest
      exact List.forall_mem_append.2
        ⟨ih habove, List.forall_mem_singleton.2 ⟨id, node, hnode, rfl⟩⟩

/-- The path of a node extends the path of its parent. -/
theorem WellFormed.path?_eq {forest : Forest} (hf : forest.WellFormed) {id : NodeId} {node : Node}
    (h : forest.node? id = some node) :
    forest.path? id = match node.parent with
      | none => some [node.name]
      | some parent => (forest.path? parent).map (· ++ [node.name]) := by
  rw [path?, climb, h, Option.bind_some]
  cases hpar : node.parent with
  | none => rfl
  | some parent => simp only [hf.climb_eq (hf.parent_older h hpar)]

/-- Every node has a path, attached or not. -/
theorem WellFormed.path?_isSome {forest : Forest} (hf : forest.WellFormed) {id : NodeId}
    (h : (forest.node? id).isSome) : (forest.path? id).isSome := by
  obtain ⟨index⟩ := id
  induction index using Nat.strongRecOn with
  | ind index ih =>
    obtain ⟨node, hnode⟩ := Option.isSome_iff_exists.1 h
    rw [hf.path?_eq hnode]
    cases hpar : node.parent with
    | none => rfl
    | some parent =>
      rw [Option.isSome_map]
      exact ih parent.index (hf.parent_older hnode hpar) (hf.parent_exists hnode hpar)

/-- The path that leads to a node is the path that is read from it. -/
theorem WellFormed.path?_of_find? {forest : Forest} (hf : forest.WellFormed) {path : List Name}
    {id : NodeId} (h : forest.find? path = some id) : forest.path? id = some path := by
  induction path using List.reverseRecOn generalizing id with
  | nil => simp at h
  | append_singleton path name ih =>
    obtain ⟨node, hnode, hname, -, hseek⟩ := node?_of_find?_concat h
    rw [hf.path?_eq hnode]
    cases hpar : node.parent with
    | none =>
      rw [hpar] at hseek
      rw [seek_eq_some_none.1 hseek, hname]
      rfl
    | some parent =>
      rw [hpar] at hseek
      simp only [ih (seek_eq_some_some.1 hseek), hname, Option.map_some]

/-- Different paths lead to different nodes. -/
theorem WellFormed.find?_injective {forest : Forest} (hf : forest.WellFormed) {path path' : List Name}
    {id : NodeId} (h : forest.find? path = some id) (h' : forest.find? path' = some id) :
    path = path' :=
  Option.some.inj ((hf.path?_of_find? h).symm.trans (hf.path?_of_find? h'))

theorem WellFormed.seek_injective {forest : Forest} (hf : forest.WellFormed) {path path' : List Name}
    {position : Option NodeId} (h : forest.seek path = some position)
    (h' : forest.seek path' = some position) : path = path' := by
  cases position with
  | none => rw [seek_eq_some_none.1 h, seek_eq_some_none.1 h']
  | some id => exact hf.find?_injective (seek_eq_some_some.1 h) (seek_eq_some_some.1 h')

/-- Every node of `forest` is a node of `forest'`, with the same name and the same parent. -/
def Keeps (forest forest' : Forest) : Prop :=
  ∀ ⦃id : NodeId⦄ ⦃node : Node⦄, forest.node? id = some node →
    ∃ node', forest'.node? id = some node' ∧ node'.name = node.name ∧ node'.parent = node.parent

theorem Keeps.refl (forest : Forest) : forest.Keeps forest :=
  fun _ node hnode => ⟨node, hnode, rfl, rfl⟩

theorem Keeps.trans {forest forest' forest'' : Forest} (h : forest.Keeps forest')
    (h' : forest'.Keeps forest'') : forest.Keeps forest'' := by
  intro id node hnode
  obtain ⟨node', hnode', hname, hpar⟩ := h hnode
  obtain ⟨node'', hnode'', hname', hpar'⟩ := h' hnode'
  exact ⟨node'', hnode'', hname'.trans hname, hpar'.trans hpar⟩

/-- Kept nodes keep their paths. -/
theorem Keeps.path?_eq {forest forest' : Forest} (h : forest.Keeps forest') (hf : forest.WellFormed)
    (hf' : forest'.WellFormed) {id : NodeId} (hid : (forest.node? id).isSome) :
    forest'.path? id = forest.path? id := by
  obtain ⟨index⟩ := id
  induction index using Nat.strongRecOn with
  | ind index ih =>
    obtain ⟨node, hnode⟩ := Option.isSome_iff_exists.1 hid
    obtain ⟨node', hnode', hname, hpar⟩ := h hnode
    rw [hf.path?_eq hnode, hf'.path?_eq hnode', hname, hpar]
    cases hparent : node.parent with
    | none => rfl
    | some parent =>
      have hlt := hf.parent_older hnode hparent
      simp only [ih parent.index hlt (hf.parent_exists hnode hparent)]

end InputDetail.Forest
