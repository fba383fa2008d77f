import InputDetail.Proofs.Forest.Listing
import InputDetail.Proofs.Forest.Walk

/-!
# Traversal with a stack

The walk goes down the levels of a forest. A program keeps a stack instead: it takes the node on top,
and puts the children of the node in its place. The children come from lists that are in no order, so
they are sorted first, and they are pushed in reverse, so that the first one is on top. This gives the
nodes of the walk one by one, in the order of their paths, and it ends because no node comes twice.
-/
namespace InputDetail

namespace Forest

variable {forest : Forest} {position : Option NodeId} {path : List Name}

/-- A path by the numbers of its names. Such lists are compared as in a dictionary. -/
def numbers (path : List Name) : List Nat := path.map (·.index)

theorem numbers_append (path rest : List Name) : numbers (path ++ rest) = numbers path ++ numbers rest :=
  List.map_append

/-- Entries that differ in their names are sorted by number without ties. -/
theorem lt_mergeSort {entries : List (Name × NodeId)} (h : (entries.map (·.1)).Nodup) :
    (entries.mergeSort (·.1.index ≤ ·.1.index)).Pairwise fun a b => a.1.index < b.1.index := by
  have hle := @List.pairwise_mergeSort (Name × NodeId) (fun a b => a.1.index ≤ b.1.index)
    (by simp only [decide_eq_true_eq]; omega) (by simp only [Bool.or_eq_true, decide_eq_true_eq]; omega)
    entries
  have hne : (entries.mergeSort (·.1.index ≤ ·.1.index)).Pairwise fun a b => a.1 ≠ b.1 := by
    rw [← ((List.mergeSort_perm entries _).map (·.1)).nodup_iff] at h
    exact List.pairwise_map.1 h
  refine (hle.and hne).imp fun {a b} ⟨hle, hne⟩ => ?_
  have hnumber : a.1.index ≠ b.1.index := by
    intro heq
    apply hne
    rw [← Name.mk.injEq] at heq
    exact heq
  simp only [decide_eq_true_eq] at hle
  omega

/-- Siblings stand in the order of the numbers of their names. -/
theorem WellFormed.lt_below (hf : forest.WellFormed) (position : Option NodeId) :
    (forest.below position).Pairwise fun a b => ∃ name later, forest.child? position name = some a ∧
      forest.child? position later = some b ∧ name.index < later.index := by
  rw [below, List.pairwise_map]
  refine (lt_mergeSort (hf.nodup_childNames position)).imp_of_mem fun {a b} ha hb hlt => ?_
  rw [List.mem_mergeSort] at ha hb
  exact ⟨a.1, b.1, hf.child?_of_mem_entries ha, hf.child?_of_mem_entries hb, hlt⟩

/-- Some path to `a` comes before some path to `b`. -/
def Before (forest : Forest) (a b : NodeId) : Prop :=
  ∃ path later, forest.find? path = some a ∧ forest.find? later = some b ∧
    numbers path < numbers later

/-- The walk is in the order of a dictionary. -/
theorem WellFormed.before_walkBelow (hf : forest.WellFormed) {fuel : Nat}
    (hpos : forest.seek path = some position) :
    (forest.walkBelow fuel position).Pairwise forest.Before := by
  induction fuel generalizing path position with
  | zero => exact .nil
  | succ fuel ih =>
    rw [walkBelow_succ, List.pairwise_flatMap]
    constructor
    · intro child hmem
      obtain ⟨name, hname⟩ := hf.mem_below.1 hmem
      have hfirst := find?_of_child? hpos hname
      have hseek := seek_eq_some_some.2 hfirst
      refine List.pairwise_cons.2 ⟨fun later hlater => ?_, ih hseek⟩
      obtain ⟨rest, hne, -, hfind⟩ := (hf.mem_walkBelow hseek).1 hlater
      refine ⟨_, _, hfirst, hfind, ?_⟩
      obtain ⟨next, rest, rfl⟩ := List.exists_cons_of_ne_nil hne
      have hlt : numbers (path ++ [name]) ++ [] < numbers (path ++ [name]) ++ numbers (next :: rest) :=
        List.append_left_lt (List.nil_lt_cons _ _)
      rwa [List.append_nil, ← numbers_append] at hlt
    · refine (hf.lt_below position).imp fun {a b} ⟨name, later, ha, hb, hlt⟩ id hid id' hid' => ?_
      obtain ⟨rest, hfind⟩ := hf.find?_of_mem_block hpos ha hid
      obtain ⟨rest', hfind'⟩ := hf.find?_of_mem_block hpos hb hid'
      refine ⟨_, _, hfind, hfind', ?_⟩
      rw [numbers_append, numbers_append]
      exact List.append_left_lt (List.cons_lt_cons_iff.2 (Or.inl hlt))

/-- Reached from the roots by going from a node to a child of it. -/
inductive Reached (forest : Forest) : NodeId → Prop
  | root {id : NodeId} {name : Name} (child : forest.child? none name = some id) : Reached forest id
  | child {parent id : NodeId} {name : Name} (above : Reached forest parent)
      (child : forest.child? (some parent) name = some id) : Reached forest id

/-- The reached nodes are those that paths lead to. -/
theorem reached_iff {id : NodeId} : forest.Reached id ↔ ∃ path, forest.find? path = some id := by
  constructor
  · intro h
    induction h with
    | root child => exact ⟨[_], find?_concat_eq_some.2 ⟨none, seek_nil forest, child⟩⟩
    | child _ child ih =>
      obtain ⟨path, hfind⟩ := ih
      exact ⟨path ++ [_], find?_concat_eq_some.2 ⟨_, seek_eq_some_some.2 hfind, child⟩⟩
  · rintro ⟨path, hfind⟩
    induction path using List.reverseRecOn generalizing id with
    | nil => simp at hfind
    | append_singleton path name ih =>
      obtain ⟨position, hseek, hchild⟩ := find?_concat_eq_some.1 hfind
      cases position with
      | none => exact .root hchild
      | some parent => exact .child (ih (seek_eq_some_some.1 hseek)) hchild

/-- Children are younger than their parent, so at most as many levels hang below a node as there are
nodes younger than it. -/
theorem WellFormed.walkBelow_eq (hf : forest.WellFormed) {fuel : Nat} {id : NodeId}
    (h : forest.size ≤ fuel + id.index + 1) :
    forest.walkBelow (fuel + 1) (some id) = forest.walkBelow fuel (some id) := by
  have hyounger : ∀ {id child}, child ∈ forest.below (some id) →
      id.index < child.index ∧ child.index < forest.size := by
    intro id child hmem
    obtain ⟨name, hname⟩ := hf.mem_below.1 hmem
    obtain ⟨node, hnode, -, -, hparent⟩ := isChild_of_child? hname
    exact ⟨hf.parent_older hnode hparent, node?_lt hnode⟩
  induction fuel generalizing id with
  | zero =>
    rw [walkBelow_succ, walkBelow, List.flatMap_eq_nil_iff]
    intro child hmem
    have hlt := hyounger hmem
    omega
  | succ fuel ih =>
    rw [walkBelow_succ, walkBelow_succ forest fuel]
    refine List.flatMap_congr fun child hmem => ?_
    have hlt := hyounger hmem
    rw [ih (by omega)]

/-- A node and all below it, in the order of the walk. -/
def block (forest : Forest) (id : NodeId) : List NodeId := id :: forest.walkBelow forest.size (some id)

theorem WellFormed.walkBelow_size (hf : forest.WellFormed) (position : Option NodeId) :
    forest.walkBelow forest.size position = (forest.below position).flatMap forest.block := by
  cases hsize : forest.size with
  | zero =>
    have hempty : forest.below position = [] := by
      rw [List.eq_nil_iff_forall_not_mem]
      intro child hmem
      obtain ⟨name, hname⟩ := hf.mem_below.1 hmem
      obtain ⟨node, hnode, -⟩ := isChild_of_child? hname
      have hlt := node?_lt hnode
      omega
    rw [hempty]
    rfl
  | succ size =>
    rw [walkBelow_succ]
    refine List.flatMap_congr fun child _ => ?_
    rw [block, hsize, hf.walkBelow_eq (by omega)]

/-- No node is listed twice, so the walk is not longer than there are nodes. -/
theorem WellFormed.length_walk_le (hf : forest.WellFormed) : forest.walk.length ≤ forest.size := by
  have hsub : forest.walk ⊆ forest.ids := by
    intro id hid
    obtain ⟨path, hfind⟩ := hf.mem_walk.1 hid
    obtain ⟨node, hnode, -⟩ := node?_of_find? hfind
    exact mem_ids.2 (node?_lt hnode)
  have hlength := (List.subperm_of_subset hf.nodup_walk hsub).length_le
  simpa [ids] using hlength

end Forest

namespace ListedForest

variable {listed : ListedForest} {forest : Forest}

/-- The nodes of a list in the order of the numbers of their names. -/
def inOrder (listing : Std.HashMap Name NodeId) : List NodeId :=
  (listing.toList.mergeSort (·.1.index ≤ ·.1.index)).map (·.2)

/-- The children of a node, or the roots. -/
def below (listed : ListedForest) (position : Option NodeId) : List NodeId :=
  (listed.listing? position).elim [] inOrder

/-- Lists the node on top of the stack and puts its children in its place, the first one on top, until
the stack is empty. There is no result if this takes more rounds than there is fuel. -/
def traverse (listed : ListedForest) : Nat → Array NodeId → Array NodeId → Option (Array NodeId)
  | 0, out, stack => if stack.isEmpty then some out else none
  | fuel + 1, out, stack => match stack.back? with
    | none => some out
    | some id => listed.traverse fuel (out.push id) (stack.pop ++ (listed.below (some id)).reverse)

/-- The traversal from the roots, with one round for every node. -/
def walk? (listed : ListedForest) : Option (Array NodeId) :=
  listed.traverse listed.nodes.size #[] (listed.below none).reverse.toArray

/-- Sorted, the lists give the children in the order of the walk. -/
theorem Represents.below_eq (h : listed.Represents forest) (position : Option NodeId) :
    listed.below position = forest.below position := by
  have hchild := h.child? position
  cases hlisting : listed.listing? position with
  | none =>
    have hempty : forest.below position = [] := by
      rw [List.eq_nil_iff_forall_not_mem]
      intro child hmem
      obtain ⟨name, hname⟩ := h.wellFormed.mem_below.1 hmem
      rw [← hchild, ListedForest.child?, hlisting] at hname
      cases hname
    rw [below, hlisting, hempty]
    rfl
  | some listing =>
    have hdistinct : (listing.toList.map (·.1)).Nodup := by
      rw [List.Nodup, List.pairwise_map]
      exact Std.HashMap.distinct_keys_toList.imp fun hne heq => by simp [heq] at hne
    have hmem : ∀ entry, entry ∈ listing.toList ↔ entry ∈ forest.entries position := by
      rintro ⟨name, id⟩
      rw [Std.HashMap.mem_toList_iff_getElem?_eq_some, Forest.mem_entries]
      have hlisted : listing[name]? = forest.child? position name := by
        rw [← hchild, ListedForest.child?, hlisting, Option.bind_some]
      rw [hlisted, h.wellFormed.child?_eq_some_iff, Forest.IsChild]
    have hperm : listing.toList.Perm (forest.entries position) :=
      (List.perm_ext_iff_of_nodup hdistinct.of_map
        (h.wellFormed.nodup_childNames position).of_map).2 hmem
    have hsorted := List.Perm.eq_of_pairwise
      (fun a b _ _ hab hba => absurd hab (Nat.lt_asymm hba)) (Forest.lt_mergeSort hdistinct)
      (Forest.lt_mergeSort (h.wellFormed.nodup_childNames position))
      ((List.mergeSort_perm _ _).trans (hperm.trans (List.mergeSort_perm _ _).symm))
    rw [below, hlisting, Option.elim_some, inOrder, hsorted, Forest.below]

/-- What is on the stack, from its top down, is listed block by block. -/
theorem Represents.traverse_eq (h : listed.Represents forest) {fuel : Nat} {pending : List NodeId}
    (hfuel : (pending.flatMap forest.block).length ≤ fuel) (out : Array NodeId) :
    listed.traverse fuel out pending.reverse.toArray = some (out ++ pending.flatMap forest.block) := by
  induction fuel generalizing pending out with
  | zero =>
    cases pending with
    | nil => simp [traverse]
    | cons id rest => simp [Forest.block] at hfuel
  | succ fuel ih =>
    cases pending with
    | nil => simp [traverse]
    | cons id rest =>
      have hblocks : (id :: rest).flatMap forest.block =
          id :: (forest.below (some id) ++ rest).flatMap forest.block := by
        rw [List.flatMap_cons, Forest.block, h.wellFormed.walkBelow_size, List.flatMap_append,
          List.cons_append]
      have hstack : (id :: rest).reverse.toArray.pop ++ (listed.below (some id)).reverse =
          (forest.below (some id) ++ rest).reverse.toArray := by
        simp [h.below_eq]
      have hrest : ((forest.below (some id) ++ rest).flatMap forest.block).length ≤ fuel := by
        rw [hblocks, List.length_cons] at hfuel
        omega
      have htop : (id :: rest).reverse.toArray.back? = some id := by simp
      rw [traverse, htop]
      simp only [hstack, ih hrest, hblocks]
      simp

/-- With one round for every node, the traversal ends and lists the walk. -/
theorem Represents.walk?_eq (h : listed.Represents forest) : listed.walk? = some forest.walk.toArray := by
  have hwalk : forest.walk = (forest.roots).flatMap forest.block := h.wellFormed.walkBelow_size none
  have hfuel := h.wellFormed.length_walk_le
  rw [hwalk, ← h.size_eq] at hfuel
  rw [walk?, h.below_eq, ← Forest.roots, h.traverse_eq hfuel, hwalk]
  simp

/-- Whatever edits are made of the empty forest, the traversal with a stack ends within as many rounds
as there are nodes. It lists the nodes that are reached from the roots, each once, with their paths
in strictly increasing order. To find a node and to read its path are inverse to each other on these
nodes; and every node has a path, attached or not, one name longer than the path of its parent. -/
theorem walk_of_calls (calls : List Forest.Call) :
    let listed := (Forest.runCalls perform calls empty).2
    let forest := (Forest.runCalls Forest.perform calls .empty).2
    listed.walk? = some forest.walk.toArray ∧ forest.walk.Nodup ∧
      (∀ id, id ∈ forest.walk ↔ forest.Reached id) ∧
      (forest.walk.Pairwise fun a b => ∃ path later, forest.path? a = some path ∧
        forest.path? b = some later ∧ Forest.numbers path < Forest.numbers later) ∧
      (∀ id ∈ forest.walk, ∃ path, forest.path? id = some path ∧ forest.find? path = some id) ∧
      (∀ path id, forest.find? path = some id → forest.path? id = some path ∧ id ∈ forest.walk) ∧
      ∀ id node, forest.node? id = some node → ∃ above,
        forest.path? id = some (above ++ [node.name]) ∧
          ((node.parent = none ∧ above = []) ∨
            ∃ parent, node.parent = some parent ∧ forest.path? parent = some above) := by
  intro listed forest
  have hsame : listed.Represents forest := (represents_empty.runCalls calls).2
  have hf := hsame.wellFormed
  refine ⟨hsame.walk?_eq, hf.nodup_walk, fun id => ?_, ?_, fun id hid => ?_, ?_, ?_⟩
  · rw [hf.mem_walk, Forest.reached_iff]
  · refine (hf.before_walkBelow (Forest.seek_nil forest)).imp ?_
    rintro a b ⟨path, later, ha, hb, hlt⟩
    exact ⟨path, later, hf.path?_of_find? ha, hf.path?_of_find? hb, hlt⟩
  · obtain ⟨path, hfind⟩ := hf.mem_walk.1 hid
    exact ⟨path, hf.path?_of_find? hfind, hfind⟩
  · intro path id hfind
    exact ⟨hf.path?_of_find? hfind, hf.mem_walk.2 ⟨path, hfind⟩⟩
  · intro id node hnode
    have hpath := hf.path?_eq hnode
    cases hparent : node.parent with
    | none =>
      simp only [hparent] at hpath
      exact ⟨[], hpath, Or.inl ⟨rfl, rfl⟩⟩
    | some parent =>
      obtain ⟨above, habove⟩ :=
        Option.isSome_iff_exists.1 (hf.path?_isSome (hf.parent_exists hnode hparent))
      simp only [hparent, habove, Option.map_some] at hpath
      exact ⟨above, hpath, Or.inr ⟨parent, rfl, habove⟩⟩

end ListedForest

end InputDetail
