import InputDetail.Proofs.Forest.Listing

/-!
# Numbers of nodes stay valid

Whoever has the number of a node may keep it. Whatever is done to the forest later, the number means the
same node: its name, its parent and its path are fixed, its type is fixed once it is known, and it
stays in the list of its parent until it is detached itself. Names and places are used again after that,
numbers are not.
-/
namespace InputDetail.Forest

variable {forest forest' : Forest} {call : Call} {id : NodeId} {node node' : Node}

/-- Where a call ends, refused or not. -/
def ending {α : Type} : EStateM.Result ForestError Forest α → Forest
  | .ok _ forest => forest
  | .error _ forest => forest

/-- What a call gives, or why it is refused. -/
def answer {α : Type} : EStateM.Result ForestError Forest α → Except ForestError α
  | .ok a _ => .ok a
  | .error e _ => .error e

@[simp] theorem ending_map {α β : Type} (f : α → β) (edit : Edit α) (forest : Forest) :
    ending ((f <$> edit) forest) = ending (edit forest) := by
  show ending (EStateM.map f edit forest) = _
  unfold EStateM.map
  cases edit forest <;> rfl

theorem runCalls_cons (call : Call) (calls : List Call) (forest : Forest) :
    runCalls perform (call :: calls) forest =
      (answer (perform call forest) :: (runCalls perform calls (ending (perform call forest))).1,
        (runCalls perform calls (ending (perform call forest))).2) := by
  rw [runCalls]
  cases perform call forest <;> rfl

/-- What stays of a node when calls are made: its name, its parent and its type if it has one. It stays
attached unless a call detaches it. -/
structure Remains (calls : List Call) (id : NodeId) (node node' : Node) : Prop where
  name : node'.name = node.name
  parent : node'.parent = node.parent
  type : ∀ type, node.type = some type → node'.type = some type
  attached : node'.attached = true ↔ node.attached = true ∧ Call.detach id ∉ calls

theorem Remains.refl {calls : List Call} (h : Call.detach id ∉ calls) (node : Node) :
    Remains calls id node node :=
  ⟨rfl, rfl, fun _ htype => htype, by simp [h]⟩

theorem Remains.trans {calls calls' : List Call} {node'' : Node} (h : Remains calls id node node')
    (h' : Remains calls' id node' node'') : Remains (calls ++ calls') id node node'' where
  name := h'.name.trans h.name
  parent := h'.parent.trans h.parent
  type type htype := h'.type type (h.type type htype)
  attached := by
    rw [h'.attached, h.attached, List.mem_append, not_or, and_assoc]

/-- Every node of the forest remains. -/
def RemainAll (calls : List Call) (forest forest' : Forest) : Prop :=
  ∀ ⦃id node⦄, forest.node? id = some node →
    ∃ node', forest'.node? id = some node' ∧ Remains calls id node node'

theorem RemainAll.keeps {calls : List Call} (h : RemainAll calls forest forest') :
    forest.Keeps forest' := by
  intro id node hnode
  obtain ⟨node', hnode', hremains⟩ := h hnode
  exact ⟨node', hnode', hremains.name, hremains.parent⟩

/-- An edit of one node says what it leaves of this node, also when it is refused. -/
theorem remainAll_editNode {α : Type} {target : NodeId} {change : Node → Except ForestError (α × Node)}
    (hother : ∀ id, id ≠ target → call ≠ .detach id)
    (hchange : ∀ node a node', change node = .ok (a, node') → Remains [call] target node node')
    (hrefused : ∀ node e, change node = .error e → Remains [call] target node node) :
    RemainAll [call] forest (ending (editNode target change forest)) := by
  intro id node hnode
  have hsame : id ≠ target → Remains [call] id node node := by
    intro hne
    refine Remains.refl ?_ node
    simpa using (hother id hne).symm
  cases htarget : forest.node? target with
  | none =>
    have hne : id ≠ target := by
      rintro rfl
      simp [hnode] at htarget
    simp only [editNode, htarget, ending]
    exact ⟨node, hnode, hsame hne⟩
  | some old =>
    cases hresult : change old with
    | error e =>
      simp only [editNode, htarget, hresult, ending]
      refine ⟨node, hnode, ?_⟩
      by_cases hid : id = target
      · subst hid
        rw [hnode, Option.some.injEq] at htarget
        rw [htarget]
        exact hrefused old e hresult
      · exact hsame hid
    | ok result =>
      rw [editNode_of_node? htarget hresult, ending, node?_set htarget]
      split_ifs with hid
      · subst hid
        rw [hnode, Option.some.injEq] at htarget
        rw [htarget]
        exact ⟨result.2, rfl, hchange old result.1 result.2 hresult⟩
      · exact ⟨node, hnode, hsame hid⟩

theorem remainAll_insert (parent : Option NodeId) (name : Name) (forest : Forest) :
    RemainAll [.insert parent name] forest (ending (insert parent name forest)) := by
  intro id node hnode
  refine ⟨node, ?_, Remains.refl (by simp) node⟩
  cases hresult : insert parent name forest with
  | ok result forest' => exact node?_insert_of_some hresult hnode
  | error e forest' =>
    unfold insert at hresult
    split at hresult
    · cases hresult
      exact hnode
    · split at hresult <;> cases hresult

/-- What one call leaves of every node. -/
theorem remainAll_perform (call : Call) (forest : Forest) :
    RemainAll [call] forest (ending (perform call forest)) := by
  cases call with
  | insert parent name =>
    rw [perform, ending_map]
    exact remainAll_insert parent name forest
  | setType target type =>
    rw [perform, ending_map]
    refine remainAll_editNode (by simp) (fun node _ node' hchange => ?_)
      fun node _ _ => Remains.refl (by simp) node
    split at hchange
    · next hnone =>
      cases hchange
      exact ⟨rfl, rfl, by simp [hnone], by simp⟩
    · split at hchange
      · cases hchange
        exact Remains.refl (by simp) node
      · cases hchange
  | setStatus target status =>
    rw [perform, ending_map]
    refine remainAll_editNode (by simp) (fun node _ node' hchange => ?_)
      fun node _ _ => Remains.refl (by simp) node
    cases hchange
    exact ⟨rfl, rfl, fun _ htype => htype, by simp⟩
  | setLink target link =>
    rw [perform, ending_map]
    refine remainAll_editNode (by simp) (fun node _ node' hchange => ?_)
      fun node _ _ => Remains.refl (by simp) node
    cases hchange
    exact ⟨rfl, rfl, fun _ htype => htype, by simp⟩
  | detach target =>
    rw [perform, ending_map]
    refine remainAll_editNode (by simpa using fun id => Ne.symm) (fun node _ node' hchange => ?_)
      fun node _ hchange => ?_
    · split at hchange
      · cases hchange
        exact ⟨rfl, rfl, fun _ htype => htype, by simp⟩
      · cases hchange
    · split at hchange
      · cases hchange
      · next hatt => exact ⟨rfl, rfl, fun _ htype => htype, by simp [hatt]⟩

/-- What a row of calls leaves of every node. -/
theorem remainAll_runCalls (calls : List Call) (forest : Forest) :
    RemainAll calls forest (runCalls perform calls forest).2 := by
  induction calls generalizing forest with
  | nil => exact fun id node hnode => ⟨node, hnode, Remains.refl List.not_mem_nil node⟩
  | cons call calls ih =>
    intro id node hnode
    rw [runCalls_cons]
    obtain ⟨next, hnext, hstep⟩ := remainAll_perform call forest hnode
    obtain ⟨last, hlast, hrest⟩ := ih _ hnext
    exact ⟨last, hlast, hstep.trans hrest⟩

/-- The node that a call creates. -/
def created? : Except ForestError Answer → Option NodeId
  | .ok (.inserted id true) => some id
  | _ => none

theorem size_push (forest : Forest) (node : Node) : (forest.push node).size = forest.size + 1 := by
  simp [push, size]

theorem size_editNode {α : Type} (id : NodeId) (change : Node → Except ForestError (α × Node))
    (forest : Forest) : (ending (editNode id change forest)).size = forest.size := by
  unfold editNode
  split
  · rfl
  · split
    · rfl
    · simp [ending, size]

/-- A call creates the node with the next number, or it creates none. -/
theorem created?_perform (call : Call) (forest : Forest) :
    (created? (answer (perform call forest)) = none ∧
        (ending (perform call forest)).size = forest.size) ∨
      (created? (answer (perform call forest)) = some ⟨forest.size⟩ ∧
        (ending (perform call forest)).size = forest.size + 1) := by
  have hedit : ∀ {α : Type} (f : α → Answer) (id : NodeId)
      (change : Node → Except ForestError (α × Node)), (∀ a, created? (.ok (f a)) = none) →
      created? (answer ((f <$> editNode id change) forest)) = none ∧
        (ending ((f <$> editNode id change) forest)).size = forest.size := by
    intro α f id change hf
    refine ⟨?_, by rw [ending_map, size_editNode]⟩
    show created? (answer (EStateM.map f (editNode id change) forest)) = none
    unfold EStateM.map
    cases editNode id change forest with
    | ok a forest' => exact hf a
    | error e forest' => rfl
  cases call with
  | insert parent name =>
    show (created? (answer (EStateM.map _ _ forest)) = none ∧ _) ∨
      (created? (answer (EStateM.map _ _ forest)) = _ ∧ _)
    rw [perform, ending_map]
    unfold EStateM.map
    cases hfilter : parent.filter fun id => (forest.node? id).isNone with
    | some id => simp [insert, hfilter, created?, answer, ending]
    | none =>
      cases hchild : forest.child? parent name with
      | some id => simp [insert, hfilter, hchild, created?, answer, ending]
      | none => simp [insert, hfilter, hchild, created?, answer, ending, size]
  | setType id type => exact Or.inl (hedit _ id _ fun _ => rfl)
  | setStatus id status => exact Or.inl (hedit _ id _ fun _ => rfl)
  | setLink id link => exact Or.inl (hedit _ id _ fun _ => rfl)
  | detach id => exact Or.inl (hedit _ id _ fun _ => rfl)

/-- The numbers of new nodes go on from the number of nodes, one after the other. -/
theorem created?_runCalls (calls : List Call) (forest : Forest) :
    ∃ count, (runCalls perform calls forest).2.size = forest.size + count ∧
      (runCalls perform calls forest).1.filterMap created? =
        (List.range' forest.size count).map NodeId.mk := by
  induction calls generalizing forest with
  | nil => exact ⟨0, rfl, rfl⟩
  | cons call calls ih =>
    rw [runCalls_cons]
    obtain ⟨count, hsize, hcreated⟩ := ih (ending (perform call forest))
    obtain ⟨hnone, hsame⟩ | ⟨hsome, hgrown⟩ := created?_perform call forest
    · rw [hsame] at hsize hcreated
      exact ⟨count, hsize, by rw [List.filterMap_cons_none hnone, hcreated]⟩
    · rw [hgrown] at hsize hcreated
      refine ⟨count + 1, by rw [hsize]; omega, ?_⟩
      rw [List.filterMap_cons_some hsome, hcreated, List.range'_succ, List.map_cons]

/-- Take any forest that calls make, and make any more calls. Then every node is still there under its
number, with its name, its parent and its path. If its type is known, it stays, and no other is taken.
The node is attached as long as no call detaches it, and never again after that; a list has it exactly
while it is attached, under its name and for its parent, and to detach it twice is refused. The
numbers in use are always those below the number of nodes: new nodes get the next ones, in the order of
the calls that create them, and a call says that it creates a node exactly if there is one more. -/
theorem handles_of_calls (earlier calls : List Call) :
    let forest := (runCalls perform earlier .empty).2
    let later := (runCalls perform calls forest).2
    let listed := (runCalls ListedForest.perform calls
      (runCalls ListedForest.perform earlier .empty).2).2
    (∀ id node, forest.node? id = some node → ∃ node', later.node? id = some node' ∧
      node'.name = node.name ∧ node'.parent = node.parent ∧ later.path? id = forest.path? id ∧
      (∀ type, node.type = some type → node'.type = some type ∧ ∀ other, other ≠ type →
        setType id other later = .error (.typeAlreadyResolved id type other) later) ∧
      (node'.attached = true ↔ node.attached = true ∧ .detach id ∉ calls) ∧
      (∀ position name, listed.child? position name = some id ↔
        node'.attached = true ∧ position = node.parent ∧ name = node.name) ∧
      (node'.attached = false → detach id later = .error (.notAttached id) later)) ∧
    (∀ id, (later.node? id).isSome ↔ id.index < later.size) ∧
    (∃ count, later.size = forest.size + count ∧
      (runCalls perform calls forest).1.filterMap created? =
        (List.range' forest.size count).map NodeId.mk) ∧
    ∀ parent name, later.Holds parent → ∃ id created next,
      insert parent name later = .ok (id, created) next ∧ next.child? parent name = some id ∧
        (created = true ↔ next.size = later.size + 1) ∧ (created = true → id = ⟨later.size⟩) ∧
        (created = false → next = later) := by
  intro forest later listed
  have hforest := (ListedForest.represents_empty.runCalls earlier).2
  have hlater : listed.Represents later := (hforest.runCalls calls).2
  have hremain : RemainAll calls forest later := remainAll_runCalls calls forest
  have hf := hlater.wellFormed
  refine ⟨fun id node hnode => ?_, fun _ => node?_isSome, created?_runCalls calls forest, ?_⟩
  · obtain ⟨node', hnode', hsame⟩ := hremain hnode
    have hpath : later.path? id = forest.path? id :=
      hremain.keeps.path?_eq hforest.wellFormed hf (by rw [hnode]; rfl)
    refine ⟨node', hnode', hsame.name, hsame.parent, hpath, ?_, hsame.attached, ?_, ?_⟩
    · intro type htype
      have hkept := hsame.type type htype
      refine ⟨hkept, fun other hne => ?_⟩
      simp only [setType, editNode, hnode', hkept, if_neg hne.symm]
    · intro position name
      rw [hlater.child?, hf.child?_eq_some_iff, IsChild, hnode']
      constructor
      · rintro ⟨_, ⟨⟩, rfl, hatt, rfl⟩
        exact ⟨hatt, hsame.parent, hsame.name⟩
      · rintro ⟨hatt, rfl, rfl⟩
        exact ⟨node', rfl, hsame.name, hatt, hsame.parent⟩
    · intro hatt
      simp only [detach, editNode, hnode', hatt, Bool.false_eq_true, if_false]
  · intro parent name hold
    cases hchild : later.child? parent name with
    | some id =>
      refine ⟨id, false, later, ?_, hchild, by simp, by simp, fun _ => rfl⟩
      rw [insert_of_holds hold, hchild]
    | none =>
      refine ⟨⟨later.size⟩, true, later.push (.new name parent), ?_, ?_, ?_, fun _ => rfl, by simp⟩
      · rw [insert_of_holds hold, hchild]
      · have hpush : (later.push (.new name parent)).WellFormed := hf.push hold hchild
        rw [hf.child?_push rfl hpush, if_pos ⟨rfl, rfl⟩]
      · simp [size_push]

end InputDetail.Forest
