import InputDetail.Proofs.Forest.Built

/-!
# Going down a path

Recording a member path goes down from the roots, creates the nodes that are missing and gives each
node of the path its type. The result is described path by path: every node on the way is visited,
every other node is as it was, and every path off the way leads where it led before.
-/
namespace InputDetail

/-- What a visit leaves of a node: its type is known, and its status if the path ends there. -/
def Node.visited (node : Node) (type : Option TypeId) (status : Option Status) : Node :=
  { node with type, status := status.or node.status }

namespace Forest

/-- The paths on the way down `path`, its end included. -/
def OnWay (path other : List Name) : Prop := other ≠ [] ∧ other <+: path

theorem onWay_self {path : List Name} (h : path ≠ []) : OnWay path path := ⟨h, List.prefix_refl path⟩

theorem onWay_concat {path other : List Name} {name : Name} :
    OnWay (path ++ [name]) other ↔ other = path ++ [name] ∨ OnWay path other := by
  simp only [OnWay, List.prefix_concat_iff]
  constructor
  · rintro ⟨hne, heq | hpre⟩
    · exact Or.inl heq
    · exact Or.inr ⟨hne, hpre⟩
  · rintro (rfl | ⟨hne, hpre⟩)
    · exact ⟨by simp, Or.inl rfl⟩
    · exact ⟨hne, Or.inr hpre⟩

theorem not_onWay_concat_self (path : List Name) (name : Name) : ¬ OnWay path (path ++ [name]) := by
  rintro ⟨-, hpre⟩
  have hlen := hpre.length_le
  simp only [List.length_append, List.length_singleton] at hlen
  omega

/-- `forest'` is `forest` after going down `path`, where `type` tells the type of every node on the
way and `status` is what the end gets, if anything. -/
structure Grown (type : List Name → Option TypeId) (status : Option Status) (path : List Name)
    (forest forest' : Forest) : Prop where
  wellFormed : forest'.WellFormed
  /-- Off the way every path leads where it led before. -/
  find?_off : ∀ other, ¬ OnWay path other → forest'.find? other = forest.find? other
  /-- On the way there is a visited node, either the old one or a new one. -/
  find?_on : ∀ other, OnWay path other → ∃ id base, forest'.find? other = some id ∧
    forest'.node? id = some (base.visited (type other) (if other = path then status else none)) ∧
    (forest.find? other = some id ∧ forest.node? id = some base ∨
      forest.find? other = none ∧ forest.node? id = none ∧ ∃ name parent, base = .new name parent)
  /-- Nodes that are not on the way are as they were, and no other node is new. -/
  node?_off : ∀ id, (∀ other, OnWay path other → forest'.find? other ≠ some id) →
    forest'.node? id = forest.node? id

variable {forest forest' : Forest} {type : List Name → Option TypeId}

theorem Grown.refl (type : List Name → Option TypeId) (hf : forest.WellFormed) :
    Grown type none [] forest forest where
  wellFormed := hf
  find?_off _ _ := rfl
  find?_on _ h := absurd (List.prefix_nil.1 h.2) h.1
  node?_off _ _ := rfl

/-- What becomes of an old node: it is visited if it is on the way, and else it is as it was. -/
theorem Grown.node?_of_some {status : Option Status} {path : List Name} {id : NodeId} {node : Node}
    (h : Grown type status path forest forest') (hnode : forest.node? id = some node) :
    (∃ other, OnWay path other ∧ forest.find? other = some id ∧ forest'.find? other = some id ∧
        forest'.node? id =
          some (node.visited (type other) (if other = path then status else none))) ∨
      (∀ other, OnWay path other → forest'.find? other ≠ some id) ∧
        forest'.node? id = some node := by
  by_cases hway : ∃ other, OnWay path other ∧ forest'.find? other = some id
  · obtain ⟨other, hother, hfind⟩ := hway
    left
    obtain ⟨id', base, hfind', hnode', hbase⟩ := h.find?_on other hother
    obtain rfl : id = id' := Option.some.inj (hfind.symm.trans hfind')
    obtain ⟨hold, hbase⟩ | ⟨-, hnone, -⟩ := hbase
    · rw [hnode] at hbase
      cases hbase
      exact ⟨other, hother, hold, hfind, hnode'⟩
    · rw [hnode] at hnone
      cases hnone
  · right
    have hoff : ∀ other, OnWay path other → forest'.find? other ≠ some id :=
      fun other hother hfind => hway ⟨other, hother, hfind⟩
    exact ⟨hoff, by rw [h.node?_off id hoff, hnode]⟩

/-- Old nodes stay where they stand. -/
theorem Grown.place {status : Option Status} {path : List Name} {id : NodeId} {node : Node}
    (h : Grown type status path forest forest') (hnode : forest.node? id = some node) :
    ∃ node', forest'.node? id = some node' ∧ node'.place = node.place ∧ node'.link = node.link := by
  obtain ⟨other, -, -, -, hnode'⟩ | ⟨-, hnode'⟩ := h.node?_of_some hnode
  · exact ⟨_, hnode', rfl, rfl⟩
  · exact ⟨node, hnode', rfl, rfl⟩

theorem Grown.keeps {status : Option Status} {path : List Name}
    (h : Grown type status path forest forest') : forest.Keeps forest' := by
  intro id node hnode
  obtain ⟨node', hnode', hplace, -⟩ := h.place hnode
  simp only [Node.place, Prod.mk.injEq] at hplace
  exact ⟨node', hnode', hplace.1, hplace.2.1⟩

/-- The type of every node that a path leads to agrees with `type`, as far as both are known. -/
def Fits (type : List Name → Option TypeId) (forest : Forest) : Prop :=
  ∀ ⦃path : List Name⦄ ⦃id : NodeId⦄ ⦃node : Node⦄ ⦃known expected : TypeId⦄,
    forest.find? path = some id → forest.node? id = some node → node.type = some known →
    type path = some expected → known = expected

/-- Goes down one step and records the type of the node that is reached. -/
def visit (parent : Option NodeId) (member : Member) : Edit NodeId := do
  let (id, _) ← insert parent member.name
  setType id member.type
  return id

/-- Inserting below the end of a path makes the path one step longer lead somewhere, by a new node
if need be, and changes nothing else. -/
theorem WellFormed.insert_spec (hf : forest.WellFormed) {path : List Name} {position : Option NodeId}
    (hseek : forest.seek path = some position) (name : Name) :
    ∃ id created after base, Forest.insert position name forest = .ok (id, created) after ∧
      after.WellFormed ∧ after.find? (path ++ [name]) = some id ∧
      (∀ other, other ≠ path ++ [name] → after.find? other = forest.find? other) ∧
      after.node? id = some base ∧ (∀ other, other ≠ id → after.node? other = forest.node? other) ∧
      (forest.find? (path ++ [name]) = some id ∧ forest.node? id = some base ∨
        forest.find? (path ++ [name]) = none ∧ forest.node? id = none ∧
          base = .new name position) := by
  have hold := holds_of_seek hseek
  have hfind : forest.find? (path ++ [name]) = forest.child? position name := by
    rw [find?_concat, hseek, Option.bind_some]
  rw [insert_of_holds hold]
  cases hchild : forest.child? position name with
  | some id =>
    rw [hchild] at hfind
    obtain ⟨node, hnode, -⟩ := node?_of_find? hfind
    exact ⟨id, false, forest, node, rfl, hf, hfind, fun _ _ => rfl, hnode, fun _ _ => rfl,
      Or.inl ⟨hfind, hnode⟩⟩
  | none =>
    rw [hchild] at hfind
    have hf' : (forest.push (.new name position)).WellFormed := hf.push hold hchild
    have hfind' := hf.find?_push rfl hf' hchild hseek
    refine ⟨⟨forest.size⟩, true, forest.push (.new name position), .new name position, rfl, hf',
      ?_, ?_, ?_, ?_, Or.inr ⟨hfind, node?_size forest, rfl⟩⟩
    · rw [hfind', Node.new, if_pos rfl]
    · intro other hother
      rw [hfind', Node.new, if_neg hother]
    · rw [node?_push, if_pos rfl]
    · intro other hother
      rw [node?_push, if_neg hother]

/-- A visit below the end of the way makes the way one step longer. -/
theorem Grown.visit {path : List Name} {name : Name} {expected : TypeId} {position : Option NodeId}
    (h : Grown type none path forest forest') (hseek : forest'.seek path = some position)
    (hfits : forest.Fits type) (htype : type (path ++ [name]) = some expected) :
    ∃ id after, Forest.visit position ⟨name, expected⟩ forest' = .ok id after ∧
      Grown type none (path ++ [name]) forest after ∧ after.find? (path ++ [name]) = some id := by
  obtain ⟨id, created, inserted, base, hinsert, hf, hend, hfind, hbase, hnode, hcase⟩ :=
    h.wellFormed.insert_spec hseek name
  have hoff := h.find?_off _ (not_onWay_concat_self path name)
  have haway : ∀ other, OnWay path other → forest'.find? other ≠ some id := by
    intro other hother hfound
    have hne : other ≠ path ++ [name] := fun heq => not_onWay_concat_self path name (heq ▸ hother)
    exact hne (hf.find?_injective (by rw [hfind other hne, hfound]) hend)
  have horigin : forest.find? (path ++ [name]) = some id ∧ forest.node? id = some base ∨
      forest.find? (path ++ [name]) = none ∧ forest.node? id = none ∧
        ∃ name parent, base = .new name parent := by
    rw [← hoff, ← h.node?_off id haway]
    obtain hold | ⟨hnone, hnew, hbase⟩ := hcase
    · exact Or.inl hold
    · exact Or.inr ⟨hnone, hnew, name, position, hbase⟩
  have hknown : ∀ known, base.type = some known → known = expected := by
    intro known hknown
    obtain ⟨hold, hnode⟩ | ⟨-, -, _, _, hnew⟩ := horigin
    · exact hfits hold hnode hknown htype
    · rw [hnew] at hknown
      cases hknown
  have hsame : inserted.SamePlaces (inserted.set id { base with type := some expected }) :=
    samePlaces_set hbase rfl
  refine ⟨id, inserted.set id { base with type := some expected }, ?_, ?_, ?_⟩
  · show EStateM.bind _ _ _ = _
    simp only [EStateM.bind, hinsert]
    show EStateM.bind _ _ _ = _
    simp only [EStateM.bind, setType_of_node? hbase hknown]
    rfl
  · constructor
    · exact hsame.wellFormed hf
    · intro other hother
      rw [onWay_concat, not_or] at hother
      rw [hsame.find?_eq, hfind other hother.1, h.find?_off other hother.2]
    · intro other hother
      by_cases heq : other = path ++ [name]
      · subst heq
        refine ⟨id, base, by rw [hsame.find?_eq, hend], ?_, horigin⟩
        rw [node?_set hbase, if_pos rfl, if_pos rfl, htype]
        rfl
      · have hway := (onWay_concat.1 hother).resolve_left heq
        obtain ⟨id', base', hfind', hnode', hbase'⟩ := h.find?_on other hway
        have hid : id' ≠ id := fun hid => haway other hway (hid ▸ hfind')
        refine ⟨id', base', by rw [hsame.find?_eq, hfind other heq, hfind'], ?_, hbase'⟩
        rw [node?_set hbase, if_neg hid, hnode id' hid, hnode', if_neg heq]
        simp
    · intro other hother
      have hid : other ≠ id := by
        rintro rfl
        exact hother _ (onWay_self (by simp)) (by rw [hsame.find?_eq, hend])
      rw [node?_set hbase, if_neg hid, hnode other hid]
      apply h.node?_off
      intro path' hpath' hfound
      have hne : path' ≠ path ++ [name] := fun heq => not_onWay_concat_self path name (heq ▸ hpath')
      refine hother path' (onWay_concat.2 (Or.inr hpath')) ?_
      rw [hsame.find?_eq, hfind path' hne, hfound]
  · rw [hsame.find?_eq, hend]

/-- The types of `members`, which follow `path`, are those that `type` tells. -/
def Along (type : List Name → Option TypeId) : List Name → List Member → Prop
  | _, [] => True
  | path, member :: rest =>
    type (path ++ [member.name]) = some member.type ∧ Along type (path ++ [member.name]) rest

/-- All paths from `path` down to the last member have a type. -/
theorem Along.isSome {path : List Name} {members : List Member} (h : Along type path members)
    {other : List Name} (hbelow : path <+: other) (hne : other ≠ path)
    (hpre : other <+: path ++ members.map (·.name)) : (type other).isSome := by
  induction members generalizing path with
  | nil =>
    rw [List.map_nil, List.append_nil] at hpre
    exact absurd (hpre.eq_of_length_le hbelow.length_le) hne
  | cons member members ih =>
    have hlong : path.length < other.length := by
      rcases Nat.lt_or_ge path.length other.length with hlt | hge
      · exact hlt
      · exact absurd (hbelow.eq_of_length_le hge).symm hne
    have hstep : path ++ [member.name] <+: path ++ (member :: members).map (·.name) := by simp
    have hnext : path ++ [member.name] <+: other :=
      List.prefix_of_prefix_length_le hstep hpre (by simp; omega)
    by_cases heq : other = path ++ [member.name]
    · rw [heq, h.1]
      rfl
    · exact ih h.2 hnext heq (by simpa using hpre)

/-- Goes down several steps from a node. -/
def descend (start : NodeId) (members : List Member) : Edit NodeId :=
  members.foldlM (fun parent member => visit (some parent) member) start

theorem Grown.descend {path : List Name} {start : NodeId} {members : List Member}
    (h : Grown type none path forest forest') (hstart : forest'.find? path = some start)
    (hfits : forest.Fits type) (halong : Along type path members) :
    ∃ leaf after, Forest.descend start members forest' = .ok leaf after ∧
      Grown type none (path ++ members.map (·.name)) forest after ∧
      after.find? (path ++ members.map (·.name)) = some leaf := by
  induction members generalizing path start forest' with
  | nil => exact ⟨start, forest', rfl, by simpa using h, by simpa using hstart⟩
  | cons member members ih =>
    obtain ⟨id, visited, hvisit, hgrown, hend⟩ :=
      h.visit (seek_eq_some_some.2 hstart) hfits halong.1
    obtain ⟨leaf, after, hdescend, hgrown', hleaf⟩ := ih hgrown hend halong.2
    simp only [List.append_assoc, List.singleton_append] at hgrown' hleaf
    refine ⟨leaf, after, ?_, hgrown', hleaf⟩
    show EStateM.bind _ _ _ = _
    simp only [EStateM.bind, hvisit]
    exact hdescend

/-- The end of the way gets its status last. -/
theorem Grown.setStatus {path : List Name} {leaf : NodeId} (hne : path ≠ [])
    (h : Grown type none path forest forest') (hleaf : forest'.find? path = some leaf)
    (status : Status) :
    ∃ previous after, Forest.setStatus leaf status forest' = .ok previous after ∧
      Grown type (some status) path forest after ∧ after.find? path = some leaf := by
  obtain ⟨id, base, hfind, hnode, hbase⟩ := h.find?_on path (onWay_self hne)
  obtain rfl : leaf = id := Option.some.inj (hleaf.symm.trans hfind)
  rw [if_pos rfl] at hnode
  have hsame : forest'.SamePlaces
      (forest'.set leaf { base.visited (type path) none with status := some status }) :=
    samePlaces_set hnode rfl
  refine ⟨_, _, setStatus_of_node? hnode status, ?_, by rw [hsame.find?_eq, hleaf]⟩
  constructor
  · exact hsame.wellFormed h.wellFormed
  · intro other hother
    rw [hsame.find?_eq, h.find?_off other hother]
  · intro other hother
    by_cases heq : other = path
    · subst heq
      refine ⟨leaf, base, by rw [hsame.find?_eq, hleaf], ?_, hbase⟩
      rw [node?_set hnode, if_pos rfl, if_pos rfl]
      rfl
    · obtain ⟨id', base', hfind', hnode', hbase'⟩ := h.find?_on other hother
      have hid : id' ≠ leaf := by
        rintro rfl
        exact heq (h.wellFormed.find?_injective hfind' hleaf)
      refine ⟨id', base', by rw [hsame.find?_eq, hfind'], ?_, hbase'⟩
      rw [node?_set hnode, if_neg hid, hnode', if_neg heq, if_neg heq]
  · intro other hother
    have hid : other ≠ leaf := by
      rintro rfl
      exact hother path (onWay_self hne) (by rw [hsame.find?_eq, hleaf])
    rw [node?_set hnode, if_neg hid]
    apply h.node?_off
    intro path' hpath' hfound
    exact hother path' hpath' (by rw [hsame.find?_eq, hfound])

/-- Goes down a path from above the roots, and sets the status of its end. -/
def enter (first : Member) (later : List Member) (status : Status) : Edit NodeId := do
  let root ← visit none first
  let leaf ← descend root later
  let _ ← setStatus leaf status
  return leaf

/-- A path whose types fit the forest can always be recorded. -/
theorem WellFormed.enter_spec (hf : forest.WellFormed) (hfits : forest.Fits type) {first : Member}
    {later : List Member} (halong : Along type [] (first :: later)) (status : Status) :
    ∃ leaf after, Forest.enter first later status forest = .ok leaf after ∧
      Grown type (some status) (first.name :: later.map (·.name)) forest after ∧
      after.find? (first.name :: later.map (·.name)) = some leaf := by
  obtain ⟨root, visited, hvisit, hgrown, hroot⟩ :=
    (Grown.refl type hf).visit (seek_nil forest) hfits halong.1
  obtain ⟨leaf, descended, hdescend, hgrown', hleaf⟩ := hgrown.descend hroot hfits halong.2
  simp only [List.nil_append, List.singleton_append] at hgrown' hleaf
  obtain ⟨previous, after, hstatus, hgrown'', hleaf'⟩ :=
    hgrown'.setStatus (by simp) hleaf status
  refine ⟨leaf, after, ?_, hgrown'', hleaf'⟩
  show EStateM.bind _ _ _ = _
  simp only [EStateM.bind, hvisit]
  show EStateM.bind _ _ _ = _
  simp only [EStateM.bind, hdescend]
  show EStateM.bind _ _ _ = _
  simp only [EStateM.bind, hstatus]
  rfl

/-- Going down a path leaves all known types in agreement with `type`. -/
theorem Grown.fits {status : Option Status} {path : List Name}
    (h : Grown type status path forest forest') (hfits : forest.Fits type) : forest'.Fits type := by
  intro other id node known expected hfind hnode hknown hexpected
  by_cases hway : OnWay path other
  · obtain ⟨id', base, hfind', hnode', -⟩ := h.find?_on other hway
    obtain rfl : id = id' := Option.some.inj (hfind.symm.trans hfind')
    rw [hnode] at hnode'
    cases hnode'
    exact Option.some.inj (hknown.symm.trans hexpected)
  · have hoff : ∀ path', OnWay path path' → forest'.find? path' ≠ some id := by
      intro path' hpath' hfound
      exact hway (h.wellFormed.find?_injective hfound hfind ▸ hpath')
    rw [h.find?_off other hway] at hfind
    rw [h.node?_off id hoff] at hnode
    exact hfits hfind hnode hknown hexpected

end Forest

end InputDetail
