import InputDetail.Proofs.Analysis.Completeness
import InputDetail.Proofs.Analysis.Statuses
import InputDetail.Proofs.Analysis.StrictRuns

/-!
# What a change leaves alone

A change touches a few nodes: it creates what is missing on the way down its paths, writes a status to
the ends, and links or detaches an end. A frame says that whatever is not touched stays as it is, with
all that a node holds and the entries by which children are found. A frame for less than that is a frame
for more, and a parameter in which nothing is touched is unchanged.
-/
namespace InputDetail.Analysis

open Parameter

/-- The child of some name, of a node of the parameter at position `owner` or above its roots. -/
def childAt? (parameters : List Parameter) (owner : Nat) (parent : Option NodeId) (name : Name) :
    Option NodeId :=
  parameters[owner]?.bind (·.forest.child? parent name)

namespace Place

/-- The node is there in the second state only. -/
def New (parameters after : List Parameter) (place : Place) : Prop :=
  nodeAt? parameters place.owner place.node = none ∧ (nodeAt? after place.owner place.node).isSome

/-- The node at the end of a path of its parameter. It may be new. -/
def AtEnd (parameters after : List Parameter) (path : List Name) (place : Place) : Prop :=
  found? parameters place.owner path = some place.node ∨
    place.New parameters after ∧ pathAt? after place.owner place.node = some path

end Place

/-- What may be touched between two states. -/
structure Touch where
  /-- Parameters that get the status themselves. -/
  flagged : Nat → Prop
  /-- Nodes that get the status. -/
  marked : Place → Prop
  /-- Nodes that get a link. -/
  linked : Place → Prop
  /-- Nodes that are detached. -/
  detached : Place → Prop
  /-- Paths of the parameter at some position that get a node. -/
  added : Nat → List Name → Prop

/-- The second state is the first one but for what is touched. -/
structure Frame (touch : Touch) (status : Status) (parameters after : List Parameter) : Prop where
  bare : after.map bare = parameters.map bare
  flag : ∀ owner : Nat,
    after[owner]?.map Parameter.status = parameters[owner]?.map Parameter.status ∨
      touch.flagged owner ∧ after[owner]?.map Parameter.status = some status
  old : ∀ {owner id node}, nodeAt? parameters owner id = some node →
    ∃ node', nodeAt? after owner id = some node' ∧ node'.name = node.name ∧
      node'.parent = node.parent ∧ node'.type = node.type
  /-- New nodes are where something is added, one for each path. -/
  new : ∀ {place : Place}, place.New parameters after → ∃ path, touch.added place.owner path ∧
    pathAt? after place.owner place.node = some path ∧
      ∀ id, Place.New parameters after ⟨place.owner, id⟩ →
        pathAt? after place.owner id = some path → id = place.node
  mark : ∀ place : Place, place.status? after = place.status? parameters ∨
    touch.marked place ∧ place.status? after = some status
  link : ∀ place : Place, place.link? after = place.link? parameters ∨ touch.linked place
  /-- Old nodes are attached as before, and new ones are attached. -/
  attached : ∀ {place : Place} {now : Bool}, place.attached? after = some now →
    now = (place.attached? parameters).getD true ∨ touch.detached place ∧ now = false
  entry : ∀ {owner parent name child}, childAt? parameters owner parent name = some child →
    childAt? after owner parent name = some child ∨
      touch.detached ⟨owner, child⟩ ∧ childAt? after owner parent name = none
  entry_new : ∀ {owner parent name child}, childAt? after owner parent name = some child →
    childAt? parameters owner parent name = some child ∨ Place.New parameters after ⟨owner, child⟩

variable {types : Nat → List Name → Option TypeId} {parameters after : List Parameter}
  {change : Change} {place : Place} {owner : Nat} {path : List Name} {parent : Option NodeId}
  {name : Name} {id : NodeId} {node : Node} {status : Status}

theorem childAt?_eq_some_iff (hwf : WellFormed parameters) :
    childAt? parameters owner parent name = some id ↔ ∃ node, nodeAt? parameters owner id = some node ∧
      node.name = name ∧ node.attached = true ∧ node.parent = parent := by
  cases hparam : parameters[owner]? with
  | none => simp [childAt?, nodeAt?, hparam]
  | some parameter =>
    rw [childAt?, hparam, Option.bind_some, (hwf hparam).child?_eq_some_iff]
    simp only [nodeAt?_eq hparam, Forest.IsChild]

theorem not_new_of_nodeAt? (h : nodeAt? parameters place.owner place.node = some node) :
    ¬ place.New parameters after := by
  rintro ⟨hnone, -⟩
  simp [h] at hnone

theorem atEnd_of_origin {base : Node} (h : Origin parameters owner path id base)
    (hnode : nodeAt? after owner id = some node) (hpath : pathAt? after owner id = some path) :
    Place.AtEnd parameters after path ⟨owner, id⟩ := by
  obtain ⟨hfind, -⟩ | ⟨-, hnone, -⟩ := h
  · exact Or.inl hfind
  · exact Or.inr ⟨⟨hnone, by rw [hnode]; rfl⟩, hpath⟩

theorem Effect.atEnd (h : Effect types change parameters after)
    (hfind : found? after owner path = some id) : Place.AtEnd parameters after path ⟨owner, id⟩ := by
  obtain ⟨_, _, horigin, hnode, -⟩ := h.found hfind
  exact atEnd_of_origin horigin hnode (h.wellFormed.pathAt?_of_found? hfind)

theorem Excluded.atEnd {secondary : MemberPlan} (h : Excluded types secondary id parameters after) :
    Place.AtEnd parameters after secondary.path ⟨secondary.owner, id⟩ := by
  obtain ⟨_, horigin⟩ := h.origin
  obtain ⟨_, hnode, -⟩ := h.node
  exact atEnd_of_origin horigin hnode h.path

/-- What the change touches. -/
def Change.touch (change : Change) (parameters after : List Parameter) : Touch where
  flagged owner := ∃ status, change = .flag owner status
  marked place :=
    (∃ plan ∈ change.recorded, place.owner = plan.owner ∧ place.AtEnd parameters after plan.path) ∨
      ∃ primary secondary, change = .relink primary secondary place.node ∧
        place.owner = secondary.owner
  linked place := ∃ primary secondary, change = .link primary secondary ∧
    place.owner = primary.owner ∧ place.AtEnd parameters after primary.path
  detached place := ∃ secondary ∈ change.excluded?,
    place.owner = secondary.owner ∧ place.AtEnd parameters after secondary.path
  added owner path :=
    (∃ plan ∈ change.recorded, plan.Passes owner path) ∧ found? parameters owner path = none

/-- The change writes the status, and no other. -/
def Change.WritesOnly (change : Change) (status : Status) : Prop :=
  (∀ owner written, change = .flag owner written → written = status) ∧
    ∀ plan, plan ∈ change.primary? ∨ plan ∈ change.secondary? → plan.status = status

/-- On the way down a planned path, nodes have the types that the plan tells. -/
theorem type_of_passes (hcomplete : Complete parameters) (hfits : Fits types parameters)
    {plan : MemberPlan} (halong : plan.Along types parameters) (hway : plan.Passes owner path)
    (hfind : found? parameters owner path = some id)
    (hnode : nodeAt? parameters owner id = some node) : node.type = types owner path := by
  obtain ⟨known, hknown⟩ := Option.isSome_iff_exists.1 (hcomplete.typed hnode)
  obtain ⟨planned, hplanned⟩ := Option.isSome_iff_exists.1 (halong.isSome hway)
  obtain ⟨parameter, hparam, hid⟩ := Option.bind_eq_some_iff.1 hnode
  rw [found?_eq hparam] at hfind
  rw [hknown, hplanned, hfits hparam hfind hid hknown hplanned]

/-- A new node is found in between, if whatever is not found in between was there before. -/
theorem Place.New.exists_found {middle : List Parameter} (h : place.New parameters after)
    (hbefore : ∀ node, nodeAt? after place.owner place.node = some node →
      (∀ path, found? middle place.owner path ≠ some place.node) →
        ∃ known, nodeAt? parameters place.owner place.node = some known) :
    ∃ path, found? middle place.owner path = some place.node := by
  by_contra hout
  obtain ⟨node, hnode⟩ := Option.isSome_iff_exists.1 h.2
  obtain ⟨known, hknown⟩ := hbefore node hnode (not_exists.1 hout)
  exact not_new_of_nodeAt? hknown h

/-- After recording, before anything is detached, all new nodes are found. -/
theorem exists_found_of_new (hwf : WellFormed parameters) (hfits : Fits types parameters)
    (hsound : change.Sound types parameters) (hok : carryOut change parameters = .ok () after) :
    ∃ middle, WellFormed middle ∧ Keeps middle after ∧ ∀ place : Place, place.New parameters after →
      ∃ path, found? middle place.owner path = some place.node := by
  cases change with
  | flag owner status =>
    cases hok
    obtain ⟨-, hnodes⟩ := found?_congr (forests_setFlag owner status parameters)
    have heffect : Effect types (.flag owner status) parameters _ := effect_flag hwf owner status
    refine ⟨parameters, hwf, heffect.keeps, fun place hnew =>
      hnew.exists_found fun node hnode _ => ⟨node, ?_⟩⟩
    rw [← hnodes, hnode]
  | record plan =>
    obtain ⟨leaf, after', hrecord, hrecorded, -⟩ := record_spec hwf hfits hsound
    simp only [carryOut, discard, Functor.discard, Functor.mapConst, EStateM.map,
      Function.comp_apply, hrecord] at hok
    cases hok
    refine ⟨after, hrecorded.wellFormed hwf, Keeps.refl after, fun place hnew =>
      hnew.exists_found fun node hnode hout => ⟨node, ?_⟩⟩
    exact (hrecorded.unreached_before hnode hout).1
  | link primary secondary =>
    obtain ⟨_, _, _, _, _, both, _, after', hcarry, hlinking⟩ := exists_linking hwf hfits hsound
    rw [hok] at hcarry
    cases hcarry
    refine ⟨both, hlinking.wellFormed_both hwf, hlinking.keeps_both, fun place hnew =>
      hnew.exists_found fun node hnode hout => ⟨node, ?_⟩⟩
    exact (hlinking.unreached_before hnode hout).1
  | relink primary secondary linked =>
    obtain ⟨held, middle, after', hcarry, hheld, hatt, hrecorded, hstatus⟩ :=
      exists_relinking hwf hfits hsound
    rw [hok] at hcarry
    cases hcarry
    refine ⟨middle, hrecorded.wellFormed hwf,
      Edited.keeps hstatus fun hreplaced => hreplaced.samePlaces.keeps, fun place hnew =>
        hnew.exists_found fun node hnode hout => ?_⟩
    by_cases hlinked : place.owner = secondary.owner ∧ place.node = linked
    · exact ⟨held, by rw [hlinked.1, hlinked.2, hheld]⟩
    · rw [Replaced.nodeAt?_eq hstatus, if_neg hlinked] at hnode
      exact ⟨node, (hrecorded.unreached_before hnode hout).1⟩

namespace Outcome

section

variable (h : Outcome types change parameters after)
include h

theorem mark (hwrites : change.WritesOnly status) (place : Place) :
    place.status? after = place.status? parameters ∨
      (change.touch parameters after).marked place ∧ place.status? after = some status := by
  obtain ⟨owner, id⟩ := place
  cases hnode : nodeAt? after owner id with
  | none =>
    left
    cases hbefore : nodeAt? parameters owner id with
    | none => simp [Place.status?, hnode, hbefore]
    | some old =>
      obtain ⟨node, hkept⟩ := h.keeps.node_exists hbefore
      simp [hnode] at hkept
  | some node =>
    rw [status?_eq hnode]
    cases h.fate hnode with
    | found path hfind =>
      obtain ⟨plan, hprimary, ⟨rfl, rfl⟩, hwritten⟩ | ⟨-, ⟨hnone, hblank⟩ | ⟨old, hold, hsame⟩⟩ :=
        h.status_cases hfind hnode
      · right
        exact ⟨Or.inl ⟨plan, Change.mem_recorded_of_primary? hprimary, rfl, h.atEnd hfind⟩,
          by rw [hwritten, hwrites.2 plan (Or.inl hprimary)]⟩
      · left
        simp [Place.status?, hnone, hblank]
      · left
        rw [status?_eq hold, hsame]
    | excluded primary secondary _ hlink howner _ hexcluded _ =>
      subst hlink howner
      obtain ⟨-, -, hmark⟩ := hexcluded.holds hnode
      right
      exact ⟨Or.inl ⟨secondary, by simp [Change.recorded], rfl, hexcluded.atEnd⟩,
        by rw [hmark, hwrites.2 secondary (Or.inr rfl)]⟩
    | unreached base _ hbefore hout _ =>
      obtain hsame | ⟨primary, secondary, rfl, rfl, hnew⟩ := h.unreached_cases hbefore hout
      · left
        rw [status?_eq hbefore, Option.some.inj (hnode.symm.trans hsame)]
      · right
        exact ⟨Or.inr ⟨primary, secondary, rfl, rfl⟩, by
          rw [Option.some.inj (hnode.symm.trans hnew), hwrites.2 secondary (Or.inr rfl)]⟩

theorem link (place : Place) : place.link? after = place.link? parameters ∨
    (change.touch parameters after).linked place := by
  by_cases hnew : change.Links after place
  · obtain ⟨primary, secondary, hlink, howner, hfind⟩ := hnew
    exact Or.inr ⟨primary, secondary, hlink, howner, h.atEnd (howner ▸ hfind)⟩
  · exact Or.inl (h.link?_eq hnew)

theorem attached {now : Bool} (hnow : place.attached? after = some now) :
    now = (place.attached? parameters).getD true ∨
      (change.touch parameters after).detached place ∧ now = false := by
  obtain ⟨owner, id⟩ := place
  obtain ⟨node, hnode, rfl⟩ := Option.map_eq_some_iff.1 hnow
  cases h.fate hnode with
  | found path hfind =>
    obtain ⟨_, _, horigin, -⟩ := h.found hfind
    have hbefore := attached?_of_origin horigin
    rw [attached?_of_found? hfind, Option.some.injEq] at hnow
    left
    rw [← hnow]
    cases hatt : Place.attached? parameters ⟨owner, id⟩ with
    | none => rfl
    | some old => simpa [hatt] using hbefore
  | excluded primary secondary _ hlink howner _ hexcluded _ =>
    rw [hexcluded.attached? howner, Option.some.injEq] at hnow
    subst hlink howner
    exact Or.inr ⟨⟨secondary, rfl, rfl, hexcluded.atEnd⟩, hnow.symm⟩
  | unreached base _ hbefore _ hsame => simp [Place.attached?, hbefore, hsame]

theorem old (hcomplete : Complete parameters) (hfits : Fits types parameters)
    (hsound : change.Sound types parameters) (hnode : nodeAt? parameters owner id = some node) :
    ∃ node', nodeAt? after owner id = some node' ∧ node'.name = node.name ∧
      node'.parent = node.parent ∧ node'.type = node.type := by
  obtain ⟨node', hnode', hname, hparent⟩ := h.keeps.node hnode
  refine ⟨node', hnode', hname, hparent, ?_⟩
  cases h.fate hnode' with
  | found path hfind =>
    obtain ⟨base, _, horigin, hafter, hmarks⟩ := h.found hfind
    obtain rfl := Option.some.inj (hnode'.symm.trans hafter)
    obtain ⟨hbefore, hbase⟩ | ⟨-, hnone, -⟩ := horigin
    · obtain rfl := Option.some.inj (hnode.symm.trans hbase)
      by_cases hway : ∃ plan ∈ change.recorded, plan.Passes owner path
      · obtain ⟨plan, hplan, hpasses⟩ := hway
        rw [hmarks.type_on plan hplan hpasses,
          type_of_passes hcomplete hfits (hsound.along plan hplan) hpasses hbefore hnode]
      · exact hmarks.type_off fun plan hplan hpasses => hway ⟨plan, hplan, hpasses⟩
    · simp [hnode] at hnone
  | excluded primary secondary base hlink howner horigin hexcluded _ =>
    subst hlink howner
    obtain ⟨-, htype, -⟩ := hexcluded.holds hnode'
    obtain ⟨hbefore, -⟩ | ⟨-, hnone, -⟩ := horigin
    · rw [htype, type_of_passes hcomplete hfits (hsound.along secondary (by simp [Change.recorded]))
        (MemberPlan.EndsAt.passes ⟨rfl, rfl⟩) hbefore hnode]
    · simp [hnode] at hnone
  | unreached base _ hbefore _ hsame =>
    obtain rfl := Option.some.inj (hnode.symm.trans hbefore)
    rw [hsame]

theorem entry_new (hwf : WellFormed parameters) {child : NodeId}
    (hchild : childAt? after owner parent name = some child) :
    childAt? parameters owner parent name = some child ∨
      Place.New parameters after ⟨owner, child⟩ := by
  obtain ⟨node', hnode', hname, hatt, hparent⟩ := (childAt?_eq_some_iff h.wellFormed).1 hchild
  cases hnode : nodeAt? parameters owner child with
  | none => exact Or.inr ⟨hnode, by rw [hnode']; rfl⟩
  | some node =>
    left
    obtain ⟨_, hsame, hname', hparent'⟩ := h.keeps.node hnode
    obtain rfl := Option.some.inj (hnode'.symm.trans hsame)
    have hnow : Place.attached? after ⟨owner, child⟩ = some true := by
      simp [Place.attached?, hnode', hatt]
    obtain hold | ⟨-, hfalse⟩ := h.attached hnow
    · refine (childAt?_eq_some_iff hwf).2 ⟨node, hnode, by rw [← hname', hname], ?_,
        by rw [← hparent', hparent]⟩
      simpa [Place.attached?, hnode] using hold.symm
    · cases hfalse

theorem entry (hwf : WellFormed parameters) {child : NodeId}
    (hchild : childAt? parameters owner parent name = some child) :
    childAt? after owner parent name = some child ∨
      (change.touch parameters after).detached ⟨owner, child⟩ ∧
        childAt? after owner parent name = none := by
  obtain ⟨node, hnode, hname, hatt, hparent⟩ := (childAt?_eq_some_iff hwf).1 hchild
  obtain ⟨node', hnode', hname', hparent'⟩ := h.keeps.node hnode
  have hnow : Place.attached? after ⟨owner, child⟩ = some node'.attached := by
    simp [Place.attached?, hnode']
  obtain hold | ⟨hdetached, hfalse⟩ := h.attached hnow
  · left
    refine (childAt?_eq_some_iff h.wellFormed).2 ⟨node', hnode', by rw [hname', hname], ?_,
      by rw [hparent', hparent]⟩
    simpa [Place.attached?, hnode, hatt] using hold
  · refine Or.inr ⟨hdetached, ?_⟩
    rw [Option.eq_none_iff_forall_ne_some]
    intro other hother
    obtain ⟨held, hheld, hname'', hatt'', hparent''⟩ := (childAt?_eq_some_iff h.wellFormed).1 hother
    obtain hbefore | hnew := h.entry_new hwf hother
    · obtain rfl := Option.some.inj (hchild.symm.trans hbefore)
      obtain rfl := Option.some.inj (hnode'.symm.trans hheld)
      simp [hfalse] at hatt''
    · obtain ⟨secondary, -, howner, hfind | ⟨hchildNew, -⟩⟩ := hdetached
      · obtain ⟨path, hpath, hmissing, -⟩ := h.path_of_new hheld hnew.1
        rw [h.wellFormed.pathAt?_eq_of_siblings hheld hnode' (by rw [hname'', hname', hname])
          (by rw [hparent'', hparent', hparent]), h.keeps.pathAt?_eq hwf h.wellFormed hnode,
          hwf.pathAt?_of_found? hfind, Option.some.injEq] at hpath
        rw [← hpath, hfind] at hmissing
        cases hmissing
      · exact absurd hchildNew (not_new_of_nodeAt? hnode)

theorem new (hwf : WellFormed parameters) (hfits : Fits types parameters)
    (hsound : change.Sound types parameters) (hok : carryOut change parameters = .ok () after)
    (hnew : place.New parameters after) : ∃ path,
      (change.touch parameters after).added place.owner path ∧
        pathAt? after place.owner place.node = some path ∧
          ∀ id, Place.New parameters after ⟨place.owner, id⟩ →
            pathAt? after place.owner id = some path → id = place.node := by
  obtain ⟨node, hnode⟩ := Option.isSome_iff_exists.1 hnew.2
  obtain ⟨path, hpath, hmissing, hplan⟩ := h.path_of_new hnode hnew.1
  refine ⟨path, ⟨hplan, hmissing⟩, hpath, fun id hother hsame => ?_⟩
  obtain ⟨middle, hmiddle, hkeeps, hfound⟩ := exists_found_of_new hwf hfits hsound hok
  have hleads : ∀ other, Place.New parameters after ⟨place.owner, other⟩ →
      pathAt? after place.owner other = some path →
      found? middle place.owner path = some other := by
    intro other hnew hpath
    obtain ⟨path', hfind⟩ := hfound _ hnew
    obtain ⟨_, hheld, -⟩ := nodeAt?_of_found? hfind
    rw [hkeeps.pathAt?_eq hmiddle h.wellFormed hheld, hmiddle.pathAt?_of_found? hfind,
      Option.some.injEq] at hpath
    rw [← hpath, hfind]
  exact Option.some.inj ((hleads id hother hsame).symm.trans (hleads place.node hnew hpath))

theorem flag (hwrites : change.WritesOnly status) (owner : Nat) :
    after[owner]?.map Parameter.status = parameters[owner]?.map Parameter.status ∨
      (change.touch parameters after).flagged owner ∧
        after[owner]?.map Parameter.status = some status := by
  obtain ⟨written, hflag, hset⟩ | ⟨-, hsame⟩ := flag_of_effect h.toEffect owner
  · cases hparam : parameters[owner]? with
    | none =>
      left
      rw [hset, hparam]
      rfl
    | some parameter =>
      right
      exact ⟨⟨written, hflag⟩, by rw [hset, hparam, Option.map_some, hwrites.1 owner written hflag]⟩
  · exact Or.inl hsame

/-- What is not touched stays as it is. -/
theorem frame (hcomplete : Complete parameters) (hwf : WellFormed parameters)
    (hfits : Fits types parameters) (hsound : change.Sound types parameters)
    (hwrites : change.WritesOnly status) (hok : carryOut change parameters = .ok () after) :
    Frame (change.touch parameters after) status parameters after where
  bare := bare_of_effect h.toEffect
  flag := h.flag hwrites
  old := h.old hcomplete hfits hsound
  new := h.new hwf hfits hsound hok
  mark := h.mark hwrites
  link := h.link
  attached := h.attached
  entry := h.entry hwf
  entry_new := h.entry_new hwf

end

end Outcome

/-- Whatever the first touches, the second touches. -/
structure Touch.Within (touch touch' : Touch) : Prop where
  flagged : ∀ {owner}, touch.flagged owner → touch'.flagged owner
  marked : ∀ {place}, touch.marked place → touch'.marked place
  linked : ∀ {place}, touch.linked place → touch'.linked place
  detached : ∀ {place}, touch.detached place → touch'.detached place
  added : ∀ {owner path}, touch.added owner path → touch'.added owner path

/-- The parameter at a position is not touched. -/
structure Touch.Spares (touch : Touch) (owner : Nat) : Prop where
  flagged : ¬ touch.flagged owner
  marked : ∀ id, ¬ touch.marked ⟨owner, id⟩
  linked : ∀ id, ¬ touch.linked ⟨owner, id⟩
  detached : ∀ id, ¬ touch.detached ⟨owner, id⟩
  added : ∀ path, ¬ touch.added owner path

namespace Frame

variable {touch touch' : Touch} (h : Frame touch status parameters after)
include h

theorem mono (hwithin : touch.Within touch') : Frame touch' status parameters after where
  bare := h.bare
  flag owner := (h.flag owner).imp_right (And.imp_left hwithin.flagged)
  old := h.old
  new hnew := by
    obtain ⟨path, hadded, hpath⟩ := h.new hnew
    exact ⟨path, hwithin.added hadded, hpath⟩
  mark place := (h.mark place).imp_right (And.imp_left hwithin.marked)
  link place := (h.link place).imp_right hwithin.linked
  attached hnow := (h.attached hnow).imp_right (And.imp_left hwithin.detached)
  entry hchild := (h.entry hchild).imp_right (And.imp_left hwithin.detached)
  entry_new := h.entry_new

/-- A parameter that is not touched is unchanged in every respect. -/
theorem getElem?_eq (hspares : touch.Spares owner) : after[owner]? = parameters[owner]? := by
  refine getElem?_eq_of_nodeAt? h.bare ((h.flag owner).resolve_right fun hflag =>
    hspares.flagged hflag.1) fun id => ?_
  cases hnode : nodeAt? parameters owner id with
  | none =>
    rw [← Option.not_isSome_iff_eq_none]
    intro hsome
    have hnew : Place.New parameters after ⟨owner, id⟩ := ⟨hnode, hsome⟩
    obtain ⟨path, hadded, -⟩ := h.new hnew
    exact hspares.added path hadded
  | some node =>
    obtain ⟨node', hnode', hname, hparent, htype⟩ := h.old hnode
    have hstatus := (h.mark ⟨owner, id⟩).resolve_right fun hmark => hspares.marked id hmark.1
    have hlink := (h.link ⟨owner, id⟩).resolve_right (hspares.linked id)
    have hnow : Place.attached? after ⟨owner, id⟩ = some node'.attached := by
      simp [Place.attached?, hnode']
    have hatt := (h.attached hnow).resolve_right fun hout => hspares.detached id hout.1
    rw [status?_eq hnode, status?_eq hnode'] at hstatus
    simp only [Place.link?, Place.attached?, hnode, hnode', Option.bind_some, Option.map_some,
      Option.getD_some] at hlink hatt
    rw [hnode']
    cases node
    cases node'
    simp_all

end Frame

end InputDetail.Analysis
