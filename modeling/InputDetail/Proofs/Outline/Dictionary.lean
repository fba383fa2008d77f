import InputDetail.Proofs.Outline.Lines
import Mathlib.Data.List.Flatten

/-!
# Outlines and dictionaries

An outline lists siblings in the order of their texts, and below each what goes on from it. So the paths
of an outline, spelled out, are in the order of a dictionary; each path that leads to a node is listed,
and none twice.
-/
namespace InputDetail.Outline

variable {names : NameTable} {forest : Forest} {position : Option NodeId} {path : List Name}

/-- The paths that go on from `path` with the nodes that they lead to, in the order of the outline. -/
def listing (names : NameTable) (forest : Forest) :
    Nat → List Name → Option NodeId → List (List Name × NodeId)
  | 0, _, _ => []
  | fuel + 1, path, position => (sortedEntries names forest position).flatMap fun entry =>
    (path ++ [entry.1], entry.2) :: listing names forest fuel (path ++ [entry.1]) (some entry.2)

theorem listing_succ (names : NameTable) (forest : Forest) (fuel : Nat) (path : List Name)
    (position : Option NodeId) : listing names forest (fuel + 1) path position =
      (sortedEntries names forest position).flatMap fun entry =>
        (path ++ [entry.1], entry.2) ::
          listing names forest fuel (path ++ [entry.1]) (some entry.2) := rfl

theorem find?_of_mem_sortedEntries (hf : forest.WellFormed) (hpos : forest.seek path = some position)
    {entry : Name × NodeId} (h : entry ∈ sortedEntries names forest position) :
    forest.find? (path ++ [entry.1]) = some entry.2 := by
  rw [Forest.find?_concat, hpos, Option.bind_some, child?_of_mem_sortedEntries hf h]

theorem find?_of_mem_listing (hf : forest.WellFormed) {fuel : Nat}
    (hpos : forest.seek path = some position) {entry : List Name × NodeId}
    (h : entry ∈ listing names forest fuel path position) :
    forest.find? entry.1 = some entry.2 ∧ ∃ name rest, entry.1 = path ++ name :: rest := by
  induction fuel generalizing path position with
  | zero => cases h
  | succ fuel ih =>
    obtain ⟨child, hchild, hmem⟩ := List.mem_flatMap.1 h
    have hfind := find?_of_mem_sortedEntries hf hpos hchild
    obtain rfl | hmem := List.mem_cons.1 hmem
    · exact ⟨hfind, child.1, [], rfl⟩
    · obtain ⟨hfound, name, rest, heq⟩ := ih (Forest.seek_eq_some_some.2 hfind) hmem
      exact ⟨hfound, child.1, name :: rest, by rw [heq, List.append_assoc]; rfl⟩

/-- The nodes are those of the walk. -/
theorem listing_perm (names : NameTable) (forest : Forest) (fuel : Nat) (path : List Name)
    (position : Option NodeId) :
    ((listing names forest fuel path position).map (·.2)).Perm (forest.walkBelow fuel position) := by
  induction fuel generalizing path position with
  | zero => exact .nil
  | succ fuel ih =>
    rw [listing_succ, List.map_flatMap, Forest.walkBelow_succ]
    have hchildren : ((sortedEntries names forest position).map (·.2)).Perm (forest.below position) :=
      ((List.mergeSort_perm _ _).map _).trans (Forest.below_perm forest position).symm
    refine List.Perm.trans ?_ (hchildren.flatMap_right _)
    rw [List.flatMap_map]
    exact List.Perm.flatMap_left _ fun entry _ => (ih _ _).cons _

/-- The paths of the whole listing are all that lead somewhere. -/
theorem mem_listing (hf : forest.WellFormed) {id : NodeId} :
    (path, id) ∈ listing names forest forest.size [] none ↔ forest.find? path = some id := by
  refine ⟨fun h => (find?_of_mem_listing hf (Forest.seek_nil forest) h).1, fun hfind => ?_⟩
  have hwalk : id ∈ forest.walk := hf.mem_walk.2 ⟨path, hfind⟩
  obtain ⟨entry, hentry, rfl⟩ :=
    List.mem_map.1 ((listing_perm names forest forest.size [] none).mem_iff.2 hwalk)
  have hfound := (find?_of_mem_listing hf (Forest.seek_nil forest) hentry).1
  rw [hf.find?_injective hfind hfound]
  exact hentry

/-- A path by the texts of its names. -/
def texts (names : NameTable) (path : List Name) : List String := path.map (textOf names)

theorem texts_append (names : NameTable) (path rest : List Name) :
    texts names (path ++ rest) = texts names path ++ texts names rest := List.map_append

section Order

variable (hd : names.Distinct) (hf : forest.WellFormed)
  (hmember : ∀ id node, forest.node? id = some node → (names.text? node.name).isSome)
include hd hf hmember

omit hd in
theorem text?_isSome_of_find? {id : NodeId} (hfind : forest.find? path = some id) :
    ∀ name ∈ path, (names.text? name).isSome := by
  intro name hname
  obtain ⟨other, node, hnode, rfl⟩ :=
    Forest.exists_node_of_climb (hf.path?_of_find? hfind) name hname
  exact hmember other node hnode

omit hd in
theorem mapM_text?_of_find? {id : NodeId} (hfind : forest.find? path = some id) :
    path.mapM names.text? = some (texts names path) := by
  refine mapM_eq_some_map fun name hname => ?_
  obtain ⟨text, htext⟩ :=
    Option.isSome_iff_exists.1 (text?_isSome_of_find? hf hmember hfind name hname)
  rw [textOf, htext, Option.getD_some]

theorem lt_sortedEntries (hpos : forest.seek path = some position) :
    (sortedEntries names forest position).Pairwise fun entry later =>
      textOf names entry.1 < textOf names later.1 := by
  have hle := pairwise_mergeSort_text (fun entry => textOf names entry.1) (forest.entries position)
  have hne : (sortedEntries names forest position).Pairwise fun entry later => entry.1 ≠ later.1 := by
    have hnodup := hf.nodup_childNames position
    rw [← ((List.mergeSort_perm (forest.entries position) _).map (·.1)).nodup_iff] at hnodup
    exact List.pairwise_map.1 hnodup
  refine (hle.and hne).imp_of_mem fun {entry later} hentry hlater ⟨hle, hne⟩ => ?_
  have hsome : ∀ {entry}, entry ∈ sortedEntries names forest position →
      (names.text? entry.1).isSome := fun {entry} h =>
    text?_isSome_of_find? hf hmember (find?_of_mem_sortedEntries hf hpos h) entry.1 (by simp)
  obtain ⟨text, htext⟩ := Option.isSome_iff_exists.1 (hsome hentry)
  obtain ⟨text', htext'⟩ := Option.isSome_iff_exists.1 (hsome hlater)
  simp only [textOf, htext, htext', Option.getD_some] at hle ⊢
  rw [← String.not_le]
  intro hge
  exact hne ((hd.eq_iff htext htext').2 (String.le_antisymm hle hge))

omit hd hmember in
/-- The block of a child lists paths through the child. -/
theorem mem_block {fuel : Nat} (hpos : forest.seek path = some position) {child : Name × NodeId}
    (hchild : child ∈ sortedEntries names forest position) {entry : List Name × NodeId}
    (h : entry ∈ (path ++ [child.1], child.2) ::
      listing names forest fuel (path ++ [child.1]) (some child.2)) :
    ∃ rest, entry.1 = path ++ child.1 :: rest := by
  have hseek := Forest.seek_eq_some_some.2 (find?_of_mem_sortedEntries hf hpos hchild)
  obtain rfl | h := List.mem_cons.1 h
  · exact ⟨[], rfl⟩
  · obtain ⟨-, name, rest, heq⟩ := find?_of_mem_listing hf hseek h
    exact ⟨name :: rest, by rw [heq, List.append_assoc]; rfl⟩

/-- The listing is in the order of a dictionary. -/
theorem lt_listing {fuel : Nat} (hpos : forest.seek path = some position) :
    (listing names forest fuel path position).Pairwise fun entry later =>
      texts names entry.1 < texts names later.1 := by
  induction fuel generalizing path position with
  | zero => exact .nil
  | succ fuel ih =>
    rw [listing_succ, List.pairwise_flatMap]
    constructor
    · intro child hchild
      have hseek := Forest.seek_eq_some_some.2 (find?_of_mem_sortedEntries hf hpos hchild)
      refine List.pairwise_cons.2 ⟨fun later hlater => ?_, ih hseek⟩
      obtain ⟨-, name, rest, heq⟩ := find?_of_mem_listing hf hseek hlater
      have hlt : texts names (path ++ [child.1]) ++ [] <
          texts names (path ++ [child.1]) ++ texts names (name :: rest) :=
        List.append_left_lt (List.nil_lt_cons _ _)
      rwa [List.append_nil, ← texts_append, ← heq] at hlt
    · refine (lt_sortedEntries hd hf hmember hpos).imp_of_mem
        fun {child later} hchild hlater hlt entry hentry entry' hentry' => ?_
      obtain ⟨rest, heq⟩ := mem_block hf hpos hchild hentry
      obtain ⟨rest', heq'⟩ := mem_block hf hpos hlater hentry'
      rw [heq, heq', texts_append, texts_append]
      exact List.append_left_lt (List.cons_lt_cons_iff.2 (Or.inl hlt))

omit hd in
/-- An outline writes the lines of the listing. -/
theorem linesBelow_eq {outline : Outline} (hnames : outline.names = names) {owner : Name}
    (hline : ∀ path id, forest.find? path = some id →
      ((forest.node? id).bind (outline.line owner)).isSome) {fuel : Nat}
    (hpos : forest.seek path = some position) :
    outline.linesBelow owner forest fuel (path.length + 1) position =
      some ((listing names forest fuel path position).map fun entry =>
        indent entry.1.length ++ outline.lineAt owner forest entry.2) := by
  induction fuel generalizing path position with
  | zero => rfl
  | succ fuel ih =>
    have hsiblings : outline.siblings forest position =
        some ((sortedEntries names forest position).map (·.2)) := by
      rw [← hnames]
      refine siblings_eq (fun name hname => ?_) hf
      rw [hnames]
      obtain ⟨id, hchild⟩ := Option.isSome_iff_exists.1 hname
      have hfind : forest.find? (path ++ [name]) = some id := by
        rw [Forest.find?_concat, hpos, Option.bind_some, hchild]
      exact text?_isSome_of_find? hf hmember hfind name (by simp)
    have hblock : ∀ child ∈ sortedEntries names forest position,
        outline.block owner forest fuel (path.length + 1) child.2 =
          some (((path ++ [child.1], child.2) ::
            listing names forest fuel (path ++ [child.1]) (some child.2)).map fun entry =>
              indent entry.1.length ++ outline.lineAt owner forest entry.2) := by
      intro child hchild
      have hfind := find?_of_mem_sortedEntries hf hpos hchild
      obtain ⟨line, hwritten⟩ := Option.isSome_iff_exists.1 (hline _ _ hfind)
      obtain ⟨node, hnode, hnodeLine⟩ := Option.bind_eq_some_iff.1 hwritten
      have hbelow := ih (Forest.seek_eq_some_some.2 hfind)
      rw [List.length_append, List.length_singleton] at hbelow
      rw [block, hnode, Option.bind_some, hnodeLine, Option.bind_some, hbelow, Option.bind_some,
        List.map_cons, lineAt, hwritten, Option.getD_some, List.length_append, List.length_singleton]
    rw [linesBelow_succ, hsiblings, Option.bind_some, List.mapM_map, Function.comp_def,
      mapM_eq_some_map hblock, listing_succ, List.map_flatMap, List.flatMap_def]
    rfl

end Order

end InputDetail.Outline
