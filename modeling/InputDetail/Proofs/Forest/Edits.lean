import InputDetail.Proofs.Forest.Shape
import Mathlib.Data.List.Basic

/-!
# What an edit does to the paths

Changing what a node holds moves no path. A new node adds exactly one path, because nothing hangs
below it yet. Detaching a node takes away its own path and the paths through it. All edits keep a
forest well formed, so every forest that is built by edits from the empty one is.
-/
namespace InputDetail

/-- Where a node stands: its name, its parent, and whether its parent lists it. -/
def Node.place (node : Node) : Name × Option NodeId × Bool := (node.name, node.parent, node.attached)

namespace Forest

variable {forest forest' : Forest}

/-- Both forests have the same nodes at the same places; what the nodes hold may differ. -/
def SamePlaces (forest forest' : Forest) : Prop :=
  ∀ id, (forest'.node? id).map Node.place = (forest.node? id).map Node.place

theorem SamePlaces.symm (h : forest.SamePlaces forest') : forest'.SamePlaces forest :=
  fun id => (h id).symm

theorem SamePlaces.node? (h : forest.SamePlaces forest') {id : NodeId} {node : Node}
    (hnode : forest.node? id = some node) :
    ∃ node', forest'.node? id = some node' ∧ node'.place = node.place := by
  have hplace := h id
  rw [hnode, Option.map_some] at hplace
  obtain ⟨node', hnode', hsame⟩ := Option.map_eq_some_iff.1 hplace
  exact ⟨node', hnode', hsame⟩

theorem SamePlaces.size_eq (h : forest.SamePlaces forest') : forest'.size = forest.size := by
  have hlt : ∀ index : Nat, index < forest'.size ↔ index < forest.size := by
    intro index
    have hsome := congrArg Option.isSome (h ⟨index⟩)
    simp only [Option.isSome_map] at hsome
    have hheld : (forest'.node? ⟨index⟩).isSome ↔ index < forest'.size := node?_isSome
    rw [← hheld, hsome, node?_isSome]
  have hle := hlt forest.size
  have hge := hlt forest'.size
  omega

theorem SamePlaces.wellFormed (h : forest.SamePlaces forest') (hf : forest.WellFormed) :
    forest'.WellFormed where
  parent_older hnode hpar := by
    obtain ⟨node, hnode', hplace⟩ := h.symm.node? hnode
    simp only [Node.place, Prod.mk.injEq] at hplace
    exact hf.parent_older hnode' (by rw [hplace.2.1, hpar])
  sibling_unique ha hb hatta hattb hpar hname := by
    obtain ⟨nodeA, hnodeA, hplaceA⟩ := h.symm.node? ha
    obtain ⟨nodeB, hnodeB, hplaceB⟩ := h.symm.node? hb
    simp only [Node.place, Prod.mk.injEq] at hplaceA hplaceB
    exact hf.sibling_unique hnodeA hnodeB (by rw [hplaceA.2.2, hatta]) (by rw [hplaceB.2.2, hattb])
      (by rw [hplaceA.2.1, hplaceB.2.1, hpar]) (by rw [hplaceA.1, hplaceB.1, hname])

theorem SamePlaces.entries_eq (h : forest.SamePlaces forest') (parent : Option NodeId) :
    forest'.entries parent = forest.entries parent := by
  have hids : forest'.ids = forest.ids := by rw [ids, ids, h.size_eq]
  rw [entries, entries, hids]
  apply List.filterMap_congr
  intro id _
  have hplace := h id
  cases hnode : forest.node? id with
  | none =>
    rw [hnode] at hplace
    simp [Option.map_eq_none_iff.1 hplace]
  | some node =>
    obtain ⟨node', hnode', hsame⟩ := h.node? hnode
    simp only [Node.place, Prod.mk.injEq] at hsame
    simp only [hnode', Option.bind_some, hsame]

theorem SamePlaces.child?_eq (h : forest.SamePlaces forest') (parent : Option NodeId) (name : Name) :
    forest'.child? parent name = forest.child? parent name := by
  rw [child?, child?, h.entries_eq]

theorem SamePlaces.find?_eq (h : forest.SamePlaces forest') (path : List Name) :
    forest'.find? path = forest.find? path := by
  suffices hfollow : ∀ position, forest'.follow position path = forest.follow position path from
    hfollow none
  induction path with
  | nil => intro position; rfl
  | cons name rest ih =>
    intro position
    simp only [follow, h.child?_eq, ih]

theorem SamePlaces.keeps (h : forest.SamePlaces forest') : forest.Keeps forest' := by
  intro id node hnode
  obtain ⟨node', hnode', hplace⟩ := h.node? hnode
  simp only [Node.place, Prod.mk.injEq] at hplace
  exact ⟨node', hnode', hplace.1, hplace.2.1⟩

/-- An edit of one node that leaves the node where it stands moves nothing. -/
theorem samePlaces_of_update {id : NodeId} {node node' : Node} (hnode : forest.node? id = some node)
    (hafter : ∀ other, forest'.node? other = if other = id then some node' else forest.node? other)
    (hplace : node'.place = node.place) : forest.SamePlaces forest' := by
  intro other
  rw [hafter other]
  by_cases hid : other = id
  · rw [if_pos hid, hid, hnode, Option.map_some, Option.map_some, hplace]
  · rw [if_neg hid]

/-- The forest with one more node, which gets the next number. -/
def push (forest : Forest) (node : Node) : Forest := ⟨forest.nodes.push node⟩

@[simp] theorem node?_push (forest : Forest) (node : Node) (id : NodeId) :
    (forest.push node).node? id = if id = ⟨forest.size⟩ then some node else forest.node? id := by
  obtain ⟨index⟩ := id
  simp only [node?, push, size, Array.getElem?_push, NodeId.mk.injEq]

theorem node?_size (forest : Forest) : forest.node? ⟨forest.size⟩ = none := by
  simp [node?, size]

/-- The new node adds itself to the children of its parent, and no other child anywhere. -/
theorem isChild_push {node : Node} (hatt : node.attached = true) {parent : Option NodeId} {name : Name}
    {id : NodeId} : (forest.push node).IsChild parent name id ↔
      (id = ⟨forest.size⟩ ∧ node.name = name ∧ node.parent = parent) ∨
        forest.IsChild parent name id := by
  simp only [IsChild, node?_push]
  by_cases hid : id = ⟨forest.size⟩
  · subst hid
    simp [node?_size, hatt]
  · simp [hid]

theorem WellFormed.push (hf : forest.WellFormed) {node : Node}
    (hold : ∀ parent, node.parent = some parent → parent.index < forest.size)
    (hfree : forest.child? node.parent node.name = none) : (forest.push node).WellFormed := by
  have hnew : ∀ {id : NodeId} {other : Node}, forest.node? id = some other →
      other.attached = true → other.parent = node.parent → other.name ≠ node.name := by
    intro id other hother hatt hpar hname
    exact child?_eq_none_iff.1 hfree id ⟨other, hother, hname, hatt, hpar⟩
  constructor
  · intro id parent other hother hpar
    rw [node?_push] at hother
    split_ifs at hother with hid
    · cases hother
      rw [hid]
      exact hold parent hpar
    · exact hf.parent_older hother hpar
  · intro a b nodeA nodeB ha hb hatta hattb hpar hname
    rw [node?_push] at ha hb
    split_ifs at ha hb with hida hidb hidb
    · rw [hida, hidb]
    · cases ha
      exact absurd hname.symm (hnew hb hattb hpar.symm)
    · cases hb
      exact absurd hname (hnew ha hatta hpar)
    · exact hf.sibling_unique ha hb hatta hattb hpar hname

theorem WellFormed.child?_push (hf : forest.WellFormed) {node : Node} (hatt : node.attached = true)
    (hf' : (forest.push node).WellFormed) (parent : Option NodeId) (name : Name) :
    (forest.push node).child? parent name =
      if parent = node.parent ∧ name = node.name then some ⟨forest.size⟩
      else forest.child? parent name := by
  split_ifs with h
  · rw [hf'.child?_eq_some_iff, isChild_push hatt]
    exact Or.inl ⟨rfl, h.2.symm, h.1.symm⟩
  · apply hf.child?_congr hf'
    intro id
    rw [isChild_push hatt]
    constructor
    · rintro (⟨-, hname, hpar⟩ | hid)
      · exact absurd ⟨hpar.symm, hname.symm⟩ h
      · exact hid
    · exact Or.inr

/-- A new node below the end of a path adds the path one step longer, and no other. -/
theorem WellFormed.find?_push (hf : forest.WellFormed) {node : Node} (hatt : node.attached = true)
    (hf' : (forest.push node).WellFormed) (hfree : forest.child? node.parent node.name = none)
    {path : List Name} (hseek : forest.seek path = some node.parent) (other : List Name) :
    (forest.push node).find? other =
      if other = path ++ [node.name] then some ⟨forest.size⟩ else forest.find? other := by
  induction other using List.reverseRecOn with
  | nil => simp
  | append_singleton init name ih =>
    have hnone : forest.find? (path ++ [node.name]) = none := by
      rw [find?_concat, hseek, Option.bind_some, hfree]
    have hseek' : (forest.push node).seek init =
        if init = path ++ [node.name] then some (some ⟨forest.size⟩) else forest.seek init := by
      by_cases hinit : init = []
      · subst hinit
        simp
      · rw [seek_of_ne_nil _ hinit, seek_of_ne_nil _ hinit, ih]
        split_ifs <;> rfl
    rw [find?_concat, find?_concat, hseek']
    by_cases hinit : init = path ++ [node.name]
    · have hlen : init ++ [name] ≠ path ++ [node.name] := by
        intro heq
        have := congrArg List.length heq
        simp [hinit] at this
      have hchild : (forest.push node).child? (some ⟨forest.size⟩) name = none := by
        rw [hf.child?_push hatt hf', if_neg]
        · exact hf.child?_of_not_lt (Nat.le_refl forest.size) name
        · rintro ⟨hpar, -⟩
          have hself : (forest.push node).node? ⟨forest.size⟩ = some node := by
            rw [node?_push, if_pos rfl]
          exact Nat.lt_irrefl _ (hf'.parent_older hself hpar.symm)
      rw [if_pos hinit, if_neg hlen, hinit, seek_of_ne_nil _ (by simp), hnone]
      simpa using hchild
    · rw [if_neg hinit]
      cases hpos : forest.seek init with
      | none =>
        have hne : init ++ [name] ≠ path ++ [node.name] := by
          intro heq
          rw [(List.append_inj' heq rfl).1, hseek] at hpos
          cases hpos
        rw [if_neg hne]
        rfl
      | some position =>
        simp only [Option.bind_some]
        rw [hf.child?_push hatt hf']
        by_cases hname : name = node.name
        · by_cases hpar : position = node.parent
          · rw [if_pos ⟨hpar, hname⟩, if_pos]
            rw [hf.seek_injective hpos (hpar ▸ hseek), hname]
          · rw [if_neg (fun h => hpar h.1), if_neg]
            intro heq
            rw [(List.append_inj' heq rfl).1, hseek] at hpos
            exact hpar (Option.some.inj hpos).symm
        · rw [if_neg (fun h => hname h.2), if_neg]
          intro heq
          exact hname (List.singleton_inj.1 (List.append_inj' heq rfl).2)

/-- The nodes of `forest'` are those of `forest`, except that `id` is no longer attached. -/
def Detached (id : NodeId) (forest forest' : Forest) : Prop :=
  ∃ node, forest.node? id = some node ∧ node.attached = true ∧ ∀ other, forest'.node? other =
    if other = id then some { node with attached := false } else forest.node? other

theorem Detached.keeps {id : NodeId} (h : Detached id forest forest') : forest.Keeps forest' := by
  obtain ⟨node, hnode, -, hafter⟩ := h
  intro other known hknown
  rw [hafter]
  split_ifs with hid
  · rw [hid, hnode] at hknown
    cases hknown
    exact ⟨_, rfl, rfl, rfl⟩
  · exact ⟨known, hknown, rfl, rfl⟩

theorem Detached.isChild {id : NodeId} (h : Detached id forest forest') {parent : Option NodeId}
    {name : Name} {other : NodeId} :
    forest'.IsChild parent name other ↔ forest.IsChild parent name other ∧ other ≠ id := by
  obtain ⟨node, hnode, -, hafter⟩ := h
  simp only [IsChild, hafter]
  by_cases hid : other = id
  · subst hid
    simp
  · simp [hid]

theorem Detached.wellFormed {id : NodeId} (h : Detached id forest forest') (hf : forest.WellFormed) :
    forest'.WellFormed := by
  obtain ⟨node, hnode, -, hafter⟩ := h
  constructor
  · intro other parent node' hother hpar
    rw [hafter] at hother
    split_ifs at hother with hid
    · subst hid
      cases hother
      exact hf.parent_older hnode hpar
    · exact hf.parent_older hother hpar
  · intro a b nodeA nodeB ha hb hatta hattb hpar hname
    rw [hafter] at ha hb
    split_ifs at ha hb
    · cases ha
      cases hatta
    · cases ha
      cases hatta
    · cases hb
      cases hattb
    · exact hf.sibling_unique ha hb hatta hattb hpar hname

theorem Detached.child?_eq {id : NodeId} (h : Detached id forest forest') (hf : forest.WellFormed)
    (parent : Option NodeId) (name : Name) : forest'.child? parent name =
      if forest.child? parent name = some id then none else forest.child? parent name := by
  have hf' := h.wellFormed hf
  split_ifs with hchild
  · rw [child?_eq_none_iff]
    intro other hother
    obtain ⟨hother, hne⟩ := h.isChild.1 hother
    rw [← hf.child?_eq_some_iff, hchild] at hother
    exact hne (Option.some.inj hother).symm
  · apply hf.child?_congr hf'
    intro other
    rw [h.isChild, ← hf.child?_eq_some_iff]
    constructor
    · exact And.left
    · intro hother
      exact ⟨hother, fun hid => hchild (hid ▸ hother)⟩

/-- Detaching the node at the end of a path takes away that path and all paths through it. -/
theorem Detached.find?_eq {id : NodeId} (h : Detached id forest forest') (hf : forest.WellFormed)
    {path : List Name} (hpath : forest.find? path = some id) (other : List Name) :
    forest'.find? other = if path <+: other then none else forest.find? other := by
  have hne := ne_nil_of_find? hpath
  induction other using List.reverseRecOn with
  | nil => simp
  | append_singleton init name ih =>
    have hseek' : forest'.seek init = if path <+: init then none else forest.seek init := by
      by_cases hinit : init = []
      · subst hinit
        simp [List.prefix_nil, hne]
      · rw [seek_of_ne_nil _ hinit, seek_of_ne_nil _ hinit, ih]
        split_ifs <;> rfl
    rw [find?_concat, hseek', find?_concat]
    by_cases hinit : path <+: init
    · rw [if_pos hinit, if_pos (hinit.trans (List.prefix_append _ _))]
      rfl
    · rw [if_neg hinit]
      cases hpos : forest.seek init with
      | none => split_ifs <;> rfl
      | some position =>
        simp only [Option.bind_some]
        rw [h.child?_eq hf]
        have hiff : forest.child? position name = some id ↔ path <+: init ++ [name] := by
          rw [List.prefix_concat_iff]
          constructor
          · intro hchild
            have hfind := find?_concat_eq_some.2 ⟨position, hpos, hchild⟩
            exact Or.inl (hf.find?_injective hpath hfind)
          · rintro (heq | hpre)
            · rw [heq, find?_concat, hpos] at hpath
              exact hpath
            · exact absurd hpre hinit
        simp only [hiff]

end Forest

end InputDetail
