import InputDetail.Proofs.Forest.Edits
import Mathlib.Data.List.Nodup
import Mathlib.Data.List.Perm.Subperm
import Mathlib.Tactic.SplitIfs

/-!
# The walk through a forest

The walk lists the nodes that paths lead to, each once. A level is walked through by following one
more name, and parents are older than their children, so there are enough levels.
-/
namespace InputDetail.Forest

variable {forest : Forest} {position : Option NodeId}

theorem nodup_ids (forest : Forest) : forest.ids.Nodup := by
  rw [ids, List.Nodup, List.pairwise_map]
  exact List.Pairwise.imp (fun hne h => hne (NodeId.mk.inj h)) List.nodup_range

/-- The attached children of a node differ in their names. -/
theorem WellFormed.nodup_childNames (hf : forest.WellFormed) (position : Option NodeId) :
    ((forest.entries position).map (·.1)).Nodup := by
  rw [List.Nodup, List.pairwise_map, entries, List.pairwise_filterMap]
  refine (nodup_ids forest).imp fun {a b} hne => ?_
  intro entry hentry entry' hentry' hname
  obtain ⟨nodeA, hnodeA, hentry⟩ := Option.bind_eq_some_iff.1 hentry
  obtain ⟨nodeB, hnodeB, hentry'⟩ := Option.bind_eq_some_iff.1 hentry'
  rw [Option.ite_none_right_eq_some] at hentry hentry'
  simp only [Bool.and_eq_true, beq_iff_eq, Option.some.injEq] at hentry hentry'
  obtain ⟨⟨hattA, hparA⟩, rfl⟩ := hentry
  obtain ⟨⟨hattB, hparB⟩, rfl⟩ := hentry'
  exact hne (hf.sibling_unique hnodeA hnodeB hattA hattB (hparA.trans hparB.symm) hname)

/-- No child is listed twice. -/
theorem nodup_children (forest : Forest) (position : Option NodeId) :
    ((forest.entries position).map (·.2)).Nodup := by
  rw [List.Nodup, List.pairwise_map, entries, List.pairwise_filterMap]
  refine (nodup_ids forest).imp fun {a b} hne => ?_
  intro entry hentry entry' hentry' hid
  obtain ⟨nodeA, -, hentry⟩ := Option.bind_eq_some_iff.1 hentry
  obtain ⟨nodeB, -, hentry'⟩ := Option.bind_eq_some_iff.1 hentry'
  rw [Option.ite_none_right_eq_some] at hentry hentry'
  obtain ⟨-, heq⟩ := hentry
  obtain ⟨-, heq'⟩ := hentry'
  cases heq
  cases heq'
  exact hne hid

theorem WellFormed.child?_of_mem_entries (hf : forest.WellFormed) {entry : Name × NodeId}
    (h : entry ∈ forest.entries position) : forest.child? position entry.1 = some entry.2 := by
  rw [hf.child?_eq_some_iff]
  exact mem_entries.1 h

theorem mem_entries_of_child? {name : Name} {id : NodeId} (h : forest.child? position name = some id) :
    (name, id) ∈ forest.entries position := mem_entries.2 (isChild_of_child? h)

theorem WellFormed.mem_childNames (hf : forest.WellFormed) {name : Name} :
    name ∈ (forest.entries position).map (·.1) ↔ (forest.child? position name).isSome := by
  rw [List.mem_map, Option.isSome_iff_exists]
  constructor
  · rintro ⟨entry, hentry, rfl⟩
    exact ⟨entry.2, hf.child?_of_mem_entries hentry⟩
  · rintro ⟨id, hid⟩
    exact ⟨(name, id), mem_entries_of_child? hid, rfl⟩

theorem below_perm (forest : Forest) (position : Option NodeId) :
    (forest.below position).Perm ((forest.entries position).map (·.2)) :=
  (List.mergeSort_perm _ _).map _

theorem nodup_below (forest : Forest) (position : Option NodeId) : (forest.below position).Nodup :=
  (below_perm forest position).nodup_iff.2 (nodup_children forest position)

theorem WellFormed.mem_below (hf : forest.WellFormed) {id : NodeId} :
    id ∈ forest.below position ↔ ∃ name, forest.child? position name = some id := by
  rw [(below_perm forest position).mem_iff, List.mem_map]
  constructor
  · rintro ⟨entry, hentry, rfl⟩
    exact ⟨entry.1, hf.child?_of_mem_entries hentry⟩
  · rintro ⟨name, hchild⟩
    exact ⟨(name, id), mem_entries_of_child? hchild, rfl⟩

/-- A path is not longer than the number of nodes up to its end. -/
theorem WellFormed.length_le_of_find? (hf : forest.WellFormed) {path : List Name} {id : NodeId}
    (h : forest.find? path = some id) : path.length ≤ id.index + 1 := by
  induction path using List.reverseRecOn generalizing id with
  | nil => simp at h
  | append_singleton path name ih =>
    obtain ⟨node, hnode, -, -, hseek⟩ := node?_of_find?_concat h
    rw [List.length_append, List.length_singleton]
    cases hpar : node.parent with
    | none =>
      rw [hpar] at hseek
      rw [seek_eq_some_none.1 hseek, List.length_nil]
      omega
    | some parent =>
      rw [hpar] at hseek
      have hlt := hf.parent_older hnode hpar
      have hle := ih (seek_eq_some_some.1 hseek)
      omega

theorem walkBelow_succ (forest : Forest) (fuel : Nat) (position : Option NodeId) :
    forest.walkBelow (fuel + 1) position = (forest.below position).flatMap fun id =>
      id :: forest.walkBelow fuel (some id) := rfl

theorem find?_of_child? {path : List Name} (hpos : forest.seek path = some position) {name : Name}
    {child : NodeId} (h : forest.child? position name = some child) :
    forest.find? (path ++ [name]) = some child := find?_concat_eq_some.2 ⟨position, hpos, h⟩

/-- As many levels are walked through as there is fuel. -/
theorem WellFormed.mem_walkBelow (hf : forest.WellFormed) {fuel : Nat} {path : List Name}
    (hpos : forest.seek path = some position) {id : NodeId} :
    id ∈ forest.walkBelow fuel position ↔
      ∃ rest, rest ≠ [] ∧ rest.length ≤ fuel ∧ forest.find? (path ++ rest) = some id := by
  induction fuel generalizing path position with
  | zero =>
    simp only [walkBelow, List.not_mem_nil, Nat.le_zero_eq, List.length_eq_zero_iff, false_iff]
    rintro ⟨rest, hne, hnil, -⟩
    exact hne hnil
  | succ fuel ih =>
    have hchild : ∀ {name child}, forest.child? position name = some child →
        forest.find? (path ++ [name]) = some child := find?_of_child? hpos
    simp only [walkBelow_succ, List.mem_flatMap, hf.mem_below, List.mem_cons]
    constructor
    · rintro ⟨child, ⟨name, hname⟩, rfl | hdeeper⟩
      · exact ⟨[name], List.cons_ne_nil _ _, by simp, hchild hname⟩
      · obtain ⟨rest, -, hlen, hfind⟩ := (ih (seek_eq_some_some.2 (hchild hname))).1 hdeeper
        exact ⟨name :: rest, List.cons_ne_nil _ _, by simpa using hlen, by simpa using hfind⟩
    · rintro ⟨_ | ⟨name, rest⟩, hne, hlen, hfind⟩
      · exact absurd rfl hne
      · have hlong : (forest.find? (path ++ name :: rest)).isSome := by rw [hfind]; rfl
        have hfirst : (forest.find? (path ++ [name])).isSome :=
          find?_isSome_of_prefix (by simp) ⟨rest, by simp⟩ hlong
        rw [find?_concat, hpos, Option.bind_some] at hfirst
        obtain ⟨child, hname⟩ := Option.isSome_iff_exists.1 hfirst
        refine ⟨child, ⟨name, hname⟩, ?_⟩
        cases rest with
        | nil =>
          rw [hchild hname] at hfind
          exact Or.inl (Option.some.inj hfind).symm
        | cons next rest =>
          right
          rw [ih (seek_eq_some_some.2 (hchild hname))]
          exact ⟨next :: rest, List.cons_ne_nil _ _, by simpa using hlen, by simpa using hfind⟩

/-- The nodes of the block of a child have paths through the child. -/
theorem WellFormed.find?_of_mem_block (hf : forest.WellFormed) {fuel : Nat} {path : List Name}
    (hpos : forest.seek path = some position) {name : Name} {child id : NodeId}
    (hchild : forest.child? position name = some child)
    (h : id ∈ child :: forest.walkBelow fuel (some child)) :
    ∃ rest, forest.find? (path ++ name :: rest) = some id := by
  have hfirst := find?_of_child? hpos hchild
  obtain rfl | hbelow := List.mem_cons.1 h
  · exact ⟨[], hfirst⟩
  · obtain ⟨rest, -, -, hfind⟩ := (hf.mem_walkBelow (seek_eq_some_some.2 hfirst)).1 hbelow
    exact ⟨rest, by simpa using hfind⟩

theorem WellFormed.nodup_walkBelow (hf : forest.WellFormed) {fuel : Nat} {path : List Name}
    (hpos : forest.seek path = some position) : (forest.walkBelow fuel position).Nodup := by
  induction fuel generalizing path position with
  | zero => exact List.nodup_nil
  | succ fuel ih =>
    rw [walkBelow_succ, List.nodup_flatMap]
    constructor
    · intro child hmem
      obtain ⟨name, hname⟩ := hf.mem_below.1 hmem
      have hfirst := find?_of_child? hpos hname
      have hseek := seek_eq_some_some.2 hfirst
      refine List.nodup_cons.2 ⟨fun hself => ?_, ih hseek⟩
      obtain ⟨rest, hne, -, hfind⟩ := (hf.mem_walkBelow hseek).1 hself
      have hsame := hf.find?_injective hfirst hfind
      exact hne (List.self_eq_append_right.1 hsame)
    · refine (nodup_below forest position).pairwise_of_forall_ne fun a ha b hb hne id hid hid' => hne ?_
      obtain ⟨name, hname⟩ := hf.mem_below.1 ha
      obtain ⟨name', hname'⟩ := hf.mem_below.1 hb
      obtain ⟨rest, hfind⟩ := hf.find?_of_mem_block hpos hname hid
      obtain ⟨rest', hfind'⟩ := hf.find?_of_mem_block hpos hname' hid'
      have hsame := List.append_cancel_left (hf.find?_injective hfind hfind')
      rw [(List.cons.inj hsame).1, hname'] at hname
      exact (Option.some.inj hname).symm

/-- The walk lists exactly the nodes that paths lead to. -/
theorem WellFormed.mem_walk (hf : forest.WellFormed) {id : NodeId} :
    id ∈ forest.walk ↔ ∃ path, forest.find? path = some id := by
  rw [walk, hf.mem_walkBelow (seek_nil forest)]
  constructor
  · rintro ⟨path, -, -, hfind⟩
    exact ⟨path, hfind⟩
  · rintro ⟨path, hfind⟩
    obtain ⟨node, hnode, -⟩ := node?_of_find? hfind
    have hlt := node?_lt hnode
    have hle := hf.length_le_of_find? hfind
    exact ⟨path, ne_nil_of_find? hfind, by omega, hfind⟩

/-- The walk lists no node twice. -/
theorem WellFormed.nodup_walk (hf : forest.WellFormed) : forest.walk.Nodup :=
  hf.nodup_walkBelow (seek_nil forest)

/-- If a forest has no paths that another has not, then its walk is not longer. -/
theorem WellFormed.walk_subperm {forest' : Forest} (hf' : forest'.WellFormed) (hf : forest.WellFormed)
    (h : ∀ {path id}, forest'.find? path = some id → forest.find? path = some id) :
    forest'.walk.Subperm forest.walk := by
  refine List.subperm_of_subset hf'.nodup_walk fun id hid => ?_
  obtain ⟨path, hfind⟩ := hf'.mem_walk.1 hid
  exact hf.mem_walk.2 ⟨path, h hfind⟩

/-- If its walk is as long, then it has all the paths of the other. -/
theorem WellFormed.find?_of_length_walk {forest' : Forest} (hf' : forest'.WellFormed)
    (hf : forest.WellFormed)
    (h : ∀ {path id}, forest'.find? path = some id → forest.find? path = some id)
    (hlength : forest.walk.length ≤ forest'.walk.length) {path : List Name} {id : NodeId}
    (hfind : forest.find? path = some id) : forest'.find? path = some id := by
  have hperm := (hf'.walk_subperm hf h).perm_of_length_le hlength
  obtain ⟨path', hfind'⟩ := hf'.mem_walk.1 (hperm.mem_iff.2 (hf.mem_walk.2 ⟨path, hfind⟩))
  rwa [hf.find?_injective hfind (h hfind')]

/-- If paths lead to all nodes, there are as many nodes as paths that lead somewhere. -/
theorem WellFormed.size_eq_length (hf : forest.WellFormed) {paths : List (List Name)}
    (hnodup : paths.Nodup) (hpaths : ∀ path, path ∈ paths ↔ (forest.find? path).isSome)
    (hall : ∀ id ∈ forest.ids, ∃ path, forest.find? path = some id) :
    forest.size = paths.length := by
  have hnodes : (paths.map forest.find?).Nodup := by
    refine hnodup.map_on fun path hpath other _ hsame => ?_
    obtain ⟨id, hfind⟩ := Option.isSome_iff_exists.1 ((hpaths path).1 hpath)
    exact hf.find?_injective hfind (hsame ▸ hfind)
  have hids : (forest.ids.map some).Nodup := (nodup_ids forest).map fun _ _ => Option.some.inj
  have hperm : (forest.ids.map some).Perm (paths.map forest.find?) := by
    refine (List.perm_ext_iff_of_nodup hids hnodes).2 fun found => ?_
    simp only [List.mem_map]
    constructor
    · rintro ⟨id, hid, rfl⟩
      obtain ⟨path, hfind⟩ := hall id hid
      exact ⟨path, (hpaths path).2 (by rw [hfind]; rfl), hfind⟩
    · rintro ⟨path, hpath, rfl⟩
      obtain ⟨id, hfind⟩ := Option.isSome_iff_exists.1 ((hpaths path).1 hpath)
      obtain ⟨node, hnode, -⟩ := node?_of_find? hfind
      exact ⟨id, mem_ids.2 (node?_lt hnode), hfind.symm⟩
  simpa [ids] using hperm.length_eq

/-- The walk depends on the places of the nodes only. -/
theorem SamePlaces.walk_eq {forest' : Forest} (h : forest.SamePlaces forest') :
    forest'.walk = forest.walk := by
  have hwalk : ∀ fuel position, forest'.walkBelow fuel position = forest.walkBelow fuel position := by
    intro fuel
    induction fuel with
    | zero => exact fun _ => rfl
    | succ fuel ih =>
      intro position
      simp only [walkBelow_succ, below, h.entries_eq, ih]
  rw [walk, walk, h.size_eq, hwalk]

end InputDetail.Forest
