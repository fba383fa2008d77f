import InputDetail.Proofs.Analysis.Atomicity
import InputDetail.Proofs.Analysis.Settled

/-!
# Repeating an analysis

A second analysis of a block begins where the first one ended. If all statements are settled there,
then it writes statuses only, and each statement writes where it wrote in the first analysis, as far
as the nodes written to are still to be seen in the end. So the two analyses are compared step by
step: what the first has written by now and is still to be seen, the second has written as well.
-/
namespace InputDetail.Analysis

open Parameter

variable {model : Model} {store : ExprStore} {base : List Parameter}

namespace Change

theorem primary?_fresh (change : Change) : change.fresh.primary? = change.primary? := by
  cases change <;> rfl

theorem secondary?_fresh (change : Change) : change.fresh.secondary? = change.secondary? := by
  cases change <;> rfl

end Change

/-- The node that a path leads to in the end is the one it leads to from the time when there is the
node. -/
def EverSince (parameters final : List Parameter) : Prop :=
  ∀ ⦃owner path id node⦄, found? final owner path = some id →
    nodeAt? parameters owner id = some node → found? parameters owner path = some id

theorem EverSince.before {types : Nat → List Name → Option TypeId} {change : Change}
    {parameters after final : List Parameter} (heffect : Effect types change parameters after)
    (h : EverSince after final) : EverSince parameters final := by
  intro owner path id node hfind hnode
  obtain ⟨node', hnode'⟩ := heffect.keeps.node_exists hnode
  exact heffect.found?_before (h hfind hnode') hnode

theorem coherent_of_analyze {parameters final : List Parameter} {roots : List ExprId}
    (h : Coherent model.types base parameters)
    (hok : analyze model ⟨store, roots⟩ parameters = .ok () final) :
    Coherent model.types base final := by
  induction roots generalizing parameters with
  | nil =>
    cases hok
    exact h
  | cons root roots ih =>
    obtain ⟨after, hroot, hrest⟩ := analyze_cons_eq_ok.1 hok
    obtain ⟨change, hplan, heffect⟩ := h.effect_of_analyzeStatement hroot
    exact ih (h.step hplan heffect) hrest

theorem everSince_of_analyze {parameters final : List Parameter} {roots : List ExprId}
    (h : Coherent model.types base parameters)
    (hok : analyze model ⟨store, roots⟩ parameters = .ok () final) : EverSince parameters final := by
  induction roots generalizing parameters with
  | nil =>
    cases hok
    exact fun _ _ _ _ hfind _ => hfind
  | cons root roots ih =>
    obtain ⟨after, hroot, hrest⟩ := analyze_cons_eq_ok.1 hok
    obtain ⟨change, hplan, heffect⟩ := h.effect_of_analyzeStatement hroot
    exact EverSince.before heffect (ih (h.step hplan heffect) hrest)

variable {final first first' second second' : List Parameter}

/-- A second analysis that began with `final` and has come to `second` when the first had come to
`first`: wherever the first has written what is still to be seen in `final`, the second has written
the same. -/
structure Repeats (final first second : List Parameter) : Prop where
  restated : Restated final second
  flag : ∀ owner : Nat, second[owner]?.map Parameter.status = final[owner]?.map Parameter.status ∨
    second[owner]?.map Parameter.status = first[owner]?.map Parameter.status
  found : ∀ {owner path id node node' status}, found? final owner path = some id →
    nodeAt? first owner id = some node → nodeAt? second owner id = some node' →
    node.status = some status → node'.status = some status
  linked : ∀ {owner path id link target node node' status}, Linked final owner path id link →
    Linked first owner path id link → position? final link.parameter = some target →
    nodeAt? first target link.node = some node → nodeAt? second target link.node = some node' →
    node.status = some status → node'.status = some status
  other : ∀ {owner id node}, nodeAt? final owner id = some node →
    (∀ path, found? final owner path ≠ some id) →
    (∀ {owner' path' id' link}, Linked final owner' path' id' link →
      ¬ (position? final link.parameter = some owner ∧ link.node = id)) →
    nodeAt? second owner id = some node

/-- Before anything is repeated. -/
theorem repeats_of_empty (hempty : ∀ parameter ∈ base, parameter.forest = .empty) :
    Repeats final base final where
  restated := Restated.refl final
  flag _ := Or.inl rfl
  found _ hnode := by
    obtain ⟨parameter, hparam, hid⟩ := Option.bind_eq_some_iff.1 hnode
    rw [hempty parameter (List.mem_of_getElem? hparam)] at hid
    cases hid
  linked _ hlinked := by
    obtain ⟨node, hfind, -⟩ := hlinked
    rw [found?_of_empty hempty] at hfind
    cases hfind
  other hnode _ _ := hnode

namespace Repeats

section

variable {id : ExprId} {change change' : Change} (h : Repeats final first second)
  (hfinal : Coherent model.types base final) (hfirst : Coherent model.types base first)
  (hever : EverSince first' final) (hfresh : change'.fresh = change.fresh)
  (hplan : planStatement model store first id = .ok change)
  (heffect : Effect (staticType model.types base) change first first')
  (hplan' : planStatement model store second id = .ok change')
  (heffect' : Effect (staticType model.types base) change' second second')
  (hrestated : Restated final second')
include h hfresh heffect heffect'

/-- Both analyses set the same statuses of whole parameters. -/
theorem flag_step (hbare : second.map bare = first.map bare) (owner : Nat) :
    second'[owner]?.map Parameter.status = final[owner]?.map Parameter.status ∨
      second'[owner]?.map Parameter.status = first'[owner]?.map Parameter.status := by
  obtain ⟨status, rfl, hget⟩ | ⟨hne, hget⟩ := flag_of_effect heffect owner
  · right
    obtain rfl : change' = .flag owner status := by
      cases change' <;> simp [Change.fresh] at hfresh ⊢
      exact hfresh
    obtain ⟨status', heq, hget'⟩ | ⟨hne', -⟩ := flag_of_effect heffect' owner
    · cases heq
      rw [hget, hget']
      cases hparam : first[owner]? with
      | none =>
        have hnone := congrArg (·[owner]?) hbare
        simp only [List.getElem?_map, hparam, Option.map_none, Option.map_eq_none_iff] at hnone
        rw [hnone]
      | some parameter =>
        obtain ⟨parameter', hparam', -⟩ := getElem?_of_bare hbare hparam
        rw [hparam', Option.map_some, Option.map_some]
    · exact absurd rfl (hne' status)
  · obtain ⟨status, rfl, -⟩ | ⟨-, hget'⟩ := flag_of_effect heffect' owner
    · refine absurd ?_ (hne status)
      cases change <;> simp [Change.fresh] at hfresh ⊢
      exact ⟨hfresh.1.symm, hfresh.2.symm⟩
    · rw [hget, hget']
      exact h.flag owner

include hever hrestated in
/-- Both analyses write the same statuses at the ends of paths. -/
theorem found_step {owner : Nat} {path : List Name} {seen : NodeId} {node node' : Node}
    {status : Status} (hfind : found? final owner path = some seen)
    (hnode : nodeAt? first' owner seen = some node)
    (hnode' : nodeAt? second' owner seen = some node') (hstatus : node.status = some status) :
    node'.status = some status := by
  have hprimary : change'.primary? = change.primary? := by
    rw [← Change.primary?_fresh, hfresh, Change.primary?_fresh]
  have hfind' : found? second' owner path = some seen := by rw [hrestated.fills.found?_eq, hfind]
  obtain ⟨plan, hmem, hend, hwritten⟩ | ⟨hoff, hkept⟩ := heffect.status_cases (hever hfind hnode) hnode
  · obtain ⟨plan', hmem', -, hwritten'⟩ | ⟨hoff', -⟩ := heffect'.status_cases hfind' hnode'
    · rw [hprimary, Option.mem_def.1 hmem] at hmem'
      cases hmem'
      rw [hwritten', ← hwritten, hstatus]
    · exact absurd hend (hoff' plan (hprimary ▸ hmem))
  · obtain ⟨-, hnone⟩ | ⟨old, hold, hsame⟩ := hkept
    · rw [hnone] at hstatus
      cases hstatus
    · obtain ⟨plan', hmem', hend', -⟩ | ⟨-, hkept'⟩ := heffect'.status_cases hfind' hnode'
      · exact absurd hend' (hoff plan' (hprimary ▸ hmem'))
      · obtain ⟨known, hknown, -⟩ := hrestated.filled.node hnode'
        obtain ⟨before, hbefore, -⟩ := h.restated.fills.node hknown
        have hagree := h.found hfind hold hbefore (hsame.trans hstatus)
        obtain ⟨hnone, -⟩ | ⟨old', hold', hsame'⟩ := hkept'
        · rw [hbefore] at hnone
          cases hnone
        · rw [hbefore] at hold'
          cases hold'
          rw [← hsame', hagree]

include hfinal hfirst hplan hplan' hrestated in
/-- Both analyses write the same statuses where links lead. -/
theorem linked_step {owner target : Nat} {path : List Name} {source : NodeId} {link : Link}
    {node node' : Node} {status : Status} (hlinked : Linked final owner path source link)
    (hlinked' : Linked first' owner path source link)
    (hposition : position? final link.parameter = some target)
    (hnames : first'.map bare = final.map bare)
    (hnode : nodeAt? first' target link.node = some node)
    (hnode' : nodeAt? second' target link.node = some node') (hstatus : node.status = some status) :
    node'.status = some status := by
  have hsecond := hfinal.of_fills h.restated.fills
  have hprimary : change'.primary? = change.primary? := by
    rw [← Change.primary?_fresh, hfresh, Change.primary?_fresh]
  have hsecondary : change'.secondary? = change.secondary? := by
    rw [← Change.secondary?_fresh, hfresh, Change.secondary?_fresh]
  have hposition' : position? first' link.parameter = some target := by
    rw [position?_congr (names_of_bare hnames), hposition]
  have hposition'' : position? second' link.parameter = some target := by
    rw [position?_congr (names_of_bare hrestated.fills.bare), hposition]
  obtain ⟨plan, hmem, secondary, hmem', hend, hwritten⟩ | ⟨hoff, hold, hkept⟩ :=
    hfirst.target_of_step hplan heffect hlinked' hposition' hnode
  · obtain ⟨_, _, secondary', hmem'', -, hwritten'⟩ | ⟨hoff', -⟩ :=
      hsecond.target_of_step hplan' heffect' (hrestated.fills.linked hlinked) hposition'' hnode'
    · rw [hsecondary, Option.mem_def.1 hmem'] at hmem''
      cases hmem''
      rw [hwritten', ← hwritten, hstatus]
    · exact absurd hend
        (hoff' plan (hprimary ▸ hmem) (by rw [hsecondary, Option.mem_def.1 hmem']; rfl))
  · obtain ⟨plan, hmem, secondary, hmem', hend, -⟩ | ⟨-, -, hkept'⟩ :=
      hsecond.target_of_step hplan' heffect' (hrestated.fills.linked hlinked) hposition'' hnode'
    · exact absurd hend
        (hoff plan (hprimary ▸ hmem) (by rw [← hsecondary, Option.mem_def.1 hmem']; rfl))
    · exact h.linked hlinked hold hposition hkept hkept' hstatus

include hplan' in
omit hfresh heffect in
/-- The second analysis writes nothing else. -/
theorem other_step {owner : Nat} {hidden : NodeId} {node : Node}
    (hnode : nodeAt? final owner hidden = some node)
    (hout : ∀ path, found? final owner path ≠ some hidden)
    (hout' : ∀ {owner' path' id' link}, Linked final owner' path' id' link →
      ¬ (position? final link.parameter = some owner ∧ link.node = hidden)) :
    nodeAt? second' owner hidden = some node := by
  refine heffect'.unreached (h.other hnode hout hout') (fun path => ?_) ?_
  · rw [h.restated.fills.found?_eq]
    exact hout path
  · rintro primary secondary linked rfl ⟨rfl, rfl⟩
    obtain ⟨source, link, hlinked, hposition, hlink⟩ := linked_of_planStatement hplan'
    refine hout' (h.restated.fills.symm.linked hlinked) ⟨?_, hlink⟩
    rw [← position?_congr (names_of_bare h.restated.fills.bare), hposition]

end

/-- A settled statement keeps both analyses in step. -/
theorem step (h : Repeats final first second)
    (hempty : ∀ parameter ∈ base, parameter.forest = .empty) (hpolicy : model.policy = .lastWins)
    (hfinal : Coherent model.types base final) (hfirst : Coherent model.types base first)
    {id : ExprId} {change : Change} (hplan : planStatement model store first id = .ok change)
    (heffect : Effect (staticType model.types base) change first first')
    (hever : EverSince first' final) (hsettled : Settled store final id) :
    ∃ second', analyzeStatement model store id second = .ok () second' ∧
      Repeats final first' second' := by
  obtain ⟨change', hplanFinal, hwrites⟩ := hsettled.plan hempty hpolicy hfirst.typed hfinal.typed hplan
  have hfresh := fresh_eq hempty hpolicy hfirst.typed hfinal.typed hplan hplanFinal
  obtain ⟨hplan', hrestate⟩ := h.restated.step hempty hpolicy hfinal hplanFinal hwrites
  have hsecond := hfinal.of_fills h.restated.fills
  obtain ⟨second', hok, heffect'⟩ := hsecond.typed.analyzeStatement_spec hsecond.wellFormed hplan'
  have hrestated := hrestate heffect'
  have hfirst' := hfirst.step hplan heffect
  refine ⟨second', hok, hrestated, ?_, ?_, ?_, ?_⟩
  · exact h.flag_step hfresh heffect heffect' (hsecond.typed.bare.trans hfirst.typed.bare.symm)
  · exact h.found_step hever hfresh heffect heffect' hrestated
  · intro owner path source link target node node' status hlinked hlinked' hposition
    exact h.linked_step hfinal hfirst hfresh hplan heffect hplan' heffect' hrestated hlinked hlinked'
      hposition (hfirst'.typed.bare.trans hfinal.typed.bare.symm)
  · exact h.other_step hplan' heffect'

/-- After the whole block nothing has changed. -/
theorem eq_of_final (h : Repeats final final second) :
    second = final := by
  refine ext_nodeAt? h.restated.fills.bare (fun owner => (h.flag owner).elim id id) fun owner id => ?_
  cases hnode : nodeAt? final owner id with
  | none =>
    have hsame := h.restated.fills.unmarked owner id
    rwa [hnode, Option.map_none, Option.map_eq_none_iff] at hsame
  | some node =>
    obtain ⟨node', hnode', hsame⟩ := h.restated.fills.node hnode
    have hagree : (∀ status, node.status = some status → node'.status = some status) →
        nodeAt? second owner id = some node := by
      intro hwritten
      have hstatus : node'.status = node.status := by
        cases hmark : node.status with
        | some status => exact hwritten status hmark
        | none =>
          have hback := h.restated.filled.status hnode' hnode
          rw [hmark] at hback
          exact Option.not_isSome_iff_eq_none.1 fun hsome => by cases hback hsome
      rw [hnode', Node.eq_of_unmarked hsame hstatus]
    by_cases hfind : ∃ path, found? final owner path = some id
    · obtain ⟨path, hfind⟩ := hfind
      exact hagree fun status => h.found hfind hnode hnode'
    · by_cases hlinked : ∃ owner' path source link, Linked final owner' path source link ∧
          position? final link.parameter = some owner ∧ link.node = id
      · obtain ⟨owner', path, source, link, hlinked, hposition, rfl⟩ := hlinked
        exact hagree fun status => h.linked hlinked hlinked hposition hnode hnode'
      · exact h.other hnode (fun path hpath => hfind ⟨path, hpath⟩)
          fun {_ _ _ _} hlink hleads => hlinked ⟨_, _, _, _, hlink, hleads⟩

/-- Both analyses reach the end of the block together. -/
theorem analyze (h : Repeats final first second)
    (hempty : ∀ parameter ∈ base, parameter.forest = .empty) (hpolicy : model.policy = .lastWins)
    (hfinal : Coherent model.types base final) (hfirst : Coherent model.types base first)
    {roots : List ExprId} (hok : Analysis.analyze model ⟨store, roots⟩ first = .ok () final)
    (hsettled : ∀ root ∈ roots, Settled store final root) :
    ∃ second', Analysis.analyze model ⟨store, roots⟩ second = .ok () second' ∧
      Repeats final final second' := by
  induction roots generalizing first second with
  | nil =>
    cases hok
    exact ⟨second, rfl, h⟩
  | cons root roots ih =>
    obtain ⟨first', hroot, hrest⟩ := analyze_cons_eq_ok.1 hok
    obtain ⟨change, hplan, heffect⟩ := hfirst.effect_of_analyzeStatement hroot
    have hfirst' := hfirst.step hplan heffect
    obtain ⟨second', hroot', h'⟩ := h.step hempty hpolicy hfinal hfirst hplan heffect
      (everSince_of_analyze hfirst' hrest) (hsettled root List.mem_cons_self)
    obtain ⟨second'', hrest', h''⟩ :=
      ih h' hfirst' hrest fun root hroot => hsettled root (List.mem_cons_of_mem _ hroot)
    exact ⟨second'', analyze_cons_eq_ok.2 ⟨second', hroot', hrest'⟩, h''⟩

end Repeats

/-- If all statements are settled in the end, then analyzing them again changes nothing. -/
theorem analyze_of_settled (hempty : ∀ parameter ∈ base, parameter.forest = .empty)
    (hpolicy : model.policy = .lastWins) {roots : List ExprId}
    (hok : analyze model ⟨store, roots⟩ base = .ok () final)
    (hsettled : ∀ root ∈ roots, Settled store final root) :
    analyze model ⟨store, roots⟩ final = .ok () final := by
  have hbase := coherent_of_empty hempty model.types
  have hfinal := coherent_of_analyze hbase hok
  obtain ⟨again, hagain, h⟩ :=
    (repeats_of_empty hempty).analyze hempty hpolicy hfinal hbase hok hsettled
  rw [hagain, h.eq_of_final]

end InputDetail.Analysis
