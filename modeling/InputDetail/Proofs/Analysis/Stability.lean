import InputDetail.Proofs.Analysis.OrderIndependence
import InputDetail.Proofs.Analysis.Repetition
import InputDetail.Proofs.Outline.Marks
import Mathlib.Data.List.Pairwise

/-!
# Analyzing a document again

An analysis that creates no node finds all its paths there already, and all it can do is to detach
nodes and to write statuses. If no path is gone after it, then it detached nothing; and if no status
has come to a path, then it wrote statuses over statuses. So its statements were settled. An outline
tells both: it has a line for each path, and a comma for each status.
-/
namespace InputDetail.Analysis

open Parameter

variable {model : Model} {store : ExprStore} {base parameters after final again : List Parameter}
  {roots : List ExprId}

theorem keeps_of_analyze (h : Coherent model.types base parameters)
    (hok : analyze model ⟨store, roots⟩ parameters = .ok () final) : Keeps parameters final := by
  induction roots generalizing parameters with
  | nil =>
    cases hok
    exact Keeps.refl _
  | cons root roots ih =>
    obtain ⟨after, hroot, hrest⟩ := analyze_cons_eq_ok.1 hok
    obtain ⟨change, hplan, heffect⟩ := h.effect_of_analyzeStatement hroot
    exact heffect.keeps.trans (ih (h.step hplan heffect) hrest)

/-- If nothing is new in the end, then nothing was new after the first step, nor since. -/
theorem NothingNew.split (h : NothingNew parameters final) (hfirst : Keeps parameters after)
    (hrest : Keeps after final) : NothingNew parameters after ∧ NothingNew after final := by
  constructor
  · intro owner id node hnode
    obtain ⟨node', hnode'⟩ := hrest.node_exists hnode
    exact h hnode'
  · intro owner id node hnode
    obtain ⟨node', hnode'⟩ := h hnode
    exact hfirst.node_exists hnode'

/-- If nothing is new, then no path leads somewhere that did not lead there before. -/
theorem found?_of_nothingNew (h : Coherent model.types base parameters)
    (hok : analyze model ⟨store, roots⟩ parameters = .ok () final)
    (hnew : NothingNew parameters final) {owner : Nat} {path : List Name} {id : NodeId}
    (hfind : found? final owner path = some id) : found? parameters owner path = some id := by
  obtain ⟨node', hnode', -⟩ := nodeAt?_of_found? hfind
  obtain ⟨node, hnode⟩ := hnew hnode'
  exact everSince_of_analyze h hok hfind hnode

/-- All paths that lead somewhere before lead somewhere after. -/
def NothingLost (parameters after : List Parameter) : Prop :=
  ∀ ⦃owner path⦄, (found? parameters owner path).isSome → (found? after owner path).isSome

/-- A statement that creates no node, and after which no path gets lost, links nothing. -/
theorem excluded?_eq_none {types : Nat → List Name → Option TypeId} {change : Change}
    (heffect : Effect types change parameters after) (hnew : NothingNew parameters after)
    (hlost : NothingLost parameters after) : change.excluded? = none := by
  cases change with
  | link primary secondary =>
    exfalso
    obtain ⟨_, excluded, -, hexcluded, -⟩ := heffect.linked rfl
    have hgone : ¬ (found? after secondary.owner secondary.path).isSome := by
      rw [heffect.isSome_iff]
      rintro ⟨-, hleft⟩
      exact hleft secondary rfl (MemberPlan.EndsAt.heads ⟨rfl, rfl⟩)
    obtain ⟨base, ⟨hfind, -⟩ | ⟨-, hnone, -⟩⟩ := hexcluded.origin
    · exact hgone (hlost (by rw [hfind]; rfl))
    · obtain ⟨held, hheld, -⟩ := hexcluded.node
      obtain ⟨node, hnode⟩ := hnew hheld
      rw [hnone] at hnode
      cases hnode
  | flag owner status => rfl
  | record plan => rfl
  | relink primary secondary linked => rfl

/-- The first step of an analysis that creates nothing and loses nothing changes statuses only, and
the rest is such an analysis again. -/
theorem fills_of_cons {root : ExprId} (h : Coherent model.types base parameters)
    (hok : analyze model ⟨store, root :: roots⟩ parameters = .ok () final)
    (hnew : NothingNew parameters final) (hlost : NothingLost parameters final) :
    ∃ change after, planStatement model store parameters root = .ok change ∧
      Effect (staticType model.types base) change parameters after ∧ Fills parameters after ∧
      analyze model ⟨store, roots⟩ after = .ok () final ∧ NothingNew after final ∧
      NothingLost after final := by
  obtain ⟨after, hroot, hrest⟩ := analyze_cons_eq_ok.1 hok
  obtain ⟨change, hplan, heffect⟩ := h.effect_of_analyzeStatement hroot
  have hafter := h.step hplan heffect
  obtain ⟨hnew', hnew''⟩ := hnew.split heffect.keeps (keeps_of_analyze hafter hrest)
  have hlost' : NothingLost parameters after := by
    intro owner path hsome
    obtain ⟨id, hid⟩ := Option.isSome_iff_exists.1 (hlost hsome)
    rw [found?_of_nothingNew hafter hrest hnew'' hid]
    rfl
  have hfills : Fills parameters after := heffect.fills h.typed (h.typed.sound hplan)
    (excluded?_eq_none heffect hnew' hlost') h.wellFormed hnew'
  refine ⟨change, after, hplan, heffect, hfills, hrest, hnew'', fun owner path hsome => ?_⟩
  rw [hfills.found?_eq] at hsome
  exact hlost hsome

/-- An analysis that creates nothing and loses nothing changes statuses only. -/
theorem fills_of_analyze (h : Coherent model.types base parameters)
    (hok : analyze model ⟨store, roots⟩ parameters = .ok () final)
    (hnew : NothingNew parameters final) (hlost : NothingLost parameters final) :
    Fills parameters final := by
  induction roots generalizing parameters with
  | nil =>
    cases hok
    exact Fills.refl _
  | cons root roots ih =>
    obtain ⟨change, after, hplan, heffect, hfills, hrest, hnew', hlost'⟩ :=
      fills_of_cons h hok hnew hlost
    exact hfills.trans (ih (h.step hplan heffect) hrest hnew' hlost')

/-- No path has got a status that had none. -/
def NothingMarked (parameters after : List Parameter) : Prop :=
  ∀ ⦃owner path id node node'⦄, found? parameters owner path = some id →
    nodeAt? parameters owner id = some node → nodeAt? after owner id = some node' →
    node'.status.isSome → node.status.isSome

/-- An analysis that creates nothing, loses nothing and marks nothing goes through settled
statements. -/
theorem Restated.settled (h : Restated final parameters)
    (hempty : ∀ parameter ∈ base, parameter.forest = .empty) (hpolicy : model.policy = .lastWins)
    (hfinal : Coherent model.types base final)
    (hok : analyze model ⟨store, roots⟩ parameters = .ok () again)
    (hnew : NothingNew parameters again) (hlost : NothingLost parameters again)
    (hmarked : NothingMarked final again) : ∀ root ∈ roots, Settled store final root := by
  induction roots generalizing parameters with
  | nil => simp
  | cons root roots ih =>
    have hcoherent := hfinal.of_fills h.fills
    obtain ⟨change, after, hplan, heffect, hfills, hrest, hnew', hlost'⟩ :=
      fills_of_cons hcoherent hok hnew hlost
    have hplan' : planStatement model store final root = .ok change :=
      (h.filled.planStatement_eq hempty hpolicy hcoherent.wellFormed hcoherent.typed root).trans hplan
    have hafter := hcoherent.step hplan heffect
    have hsettled : change.Settled final := by
      cases change with
      | flag owner status => trivial
      | relink primary secondary linked => trivial
      | link primary secondary =>
        obtain ⟨hnew'', -⟩ := hnew.split heffect.keeps (keeps_of_analyze hafter hrest)
        have hnone := excluded?_eq_none heffect hnew'' fun owner path hsome => by
          rwa [hfills.found?_eq]
        cases hnone
      | record plan =>
        have hsome : (found? after plan.owner plan.path).isSome := heffect.isSome_iff.2
          ⟨Or.inr ⟨plan, by simp [Change.recorded], MemberPlan.EndsAt.passes ⟨rfl, rfl⟩⟩,
            by simp [Change.excluded?]⟩
        obtain ⟨id, hfind⟩ := Option.isSome_iff_exists.1 hsome
        obtain ⟨_, node', -, hnode', hmarks⟩ := heffect.found hfind
        have hstatus : node'.status.isSome := by
          rw [hmarks.status_on plan rfl ⟨rfl, rfl⟩]
          rfl
        have hfills' := fills_of_analyze hafter hrest hnew' hlost'
        obtain ⟨last, hlast, -⟩ := hfills'.node hnode'
        obtain ⟨node, hnode, -⟩ := (h.fills.trans hfills).symm.node hnode'
        rw [(h.fills.trans hfills).found?_eq] at hfind
        exact ⟨id, node, hfind, hnode,
          hmarked hfind hnode hlast (hfills'.status hnode' hlast hstatus)⟩
    obtain ⟨-, hrestate⟩ := h.step hempty hpolicy hfinal hplan' hsettled
    intro other hother
    obtain rfl | hother := List.mem_cons.1 hother
    · exact settled_of_plan hplan' hsettled
    · exact ih (hrestate heffect) hrest hnew' hlost' other hother

/-- After a recorded block, analyzing it again changes nothing exactly if all its statements are
settled. -/
theorem analyze_again_iff (hempty : ∀ parameter ∈ base, parameter.forest = .empty)
    (hpolicy : model.policy = .lastWins)
    (hok : analyze model ⟨store, roots⟩ base = .ok () final) :
    analyze model ⟨store, roots⟩ final = .ok () final ↔
      ∀ root ∈ roots, Settled store final root := by
  constructor
  · intro hagain
    have hfinal := coherent_of_analyze (coherent_of_empty hempty model.types) hok
    refine (Restated.refl final).settled hempty hpolicy hfinal hagain
      (fun _ _ node hnode => ⟨node, hnode⟩) (fun _ _ hsome => hsome)
      fun _ _ _ _ _ _ hnode hnode' hstatus => ?_
    rw [hnode] at hnode'
    cases hnode'
    exact hstatus
  · exact analyze_of_settled hempty hpolicy hok

section

variable {types : TypeTable} {names : NameTable} {written : String}

/-- Forests that have not grown hold no new nodes. -/
theorem nothingNew_of_size (h : after.map (·.forest.size) = parameters.map (·.forest.size)) :
    NothingNew parameters after := by
  intro owner id node' hnode'
  have hsize := congrArg (·[owner]?) h
  simp only [List.getElem?_map] at hsize
  obtain ⟨parameter', hparam', hheld⟩ := Option.bind_eq_some_iff.1 hnode'
  rw [hparam', Option.map_some] at hsize
  obtain ⟨parameter, hparam, hsame⟩ := Option.map_eq_some_iff.1 hsize.symm
  have hlt := Forest.node?_lt hheld
  rw [← hsame] at hlt
  obtain ⟨node, hnode⟩ := Option.isSome_iff_exists.1 (Forest.node?_isSome.2 hlt)
  exact ⟨node, by rw [nodeAt?_eq hparam, hnode]⟩

section

variable (hnames : names.SingleLine) (h : Coherent types base parameters)
  (hafter : Coherent types base after) (hold : ∀ {owner path id}, found? after owner path = some id →
    found? parameters owner path = some id)
include h hafter hold

omit h hafter in
theorem find?_of_old {owner : Nat} {parameter parameter' : Parameter}
    (hparam : parameters[owner]? = some parameter) (hparam' : after[owner]? = some parameter')
    {path : List Name} {id : NodeId} (hfind : parameter'.forest.find? path = some id) :
    parameter.forest.find? path = some id := by
  rw [← found?_eq hparam'] at hfind
  rw [← found?_eq hparam, hold hfind]

include hnames

/-- If no path is new, then no parameter has more lines. -/
theorem weights_le_of_old {owner : Nat} {parameter parameter' : Parameter}
    {lines lines' : List String} (hparam : parameters[owner]? = some parameter)
    (hparam' : after[owner]? = some parameter')
    (hlines : Outline.parameterLines ⟨types, names, parameters⟩ parameter = some lines)
    (hlines' : Outline.parameterLines ⟨types, names, after⟩ parameter' = some lines') :
    Outline.weights '\n' lines' ≤ Outline.weights '\n' lines := by
  obtain ⟨_, hget, -, htype⟩ := getElem?_of_bare (hafter.typed.bare.trans h.typed.bare.symm) hparam
  rw [hparam', Option.some.injEq] at hget
  subst hget
  rw [Outline.weights_parameterLines hnames rfl hlines',
    Outline.weights_parameterLines hnames rfl hlines, htype]
  split_ifs with hsimple
  · exact Nat.le_refl _
  · have hwalk := (hafter.wellFormed hparam').walk_subperm (h.wellFormed hparam)
      (find?_of_old hold hparam hparam')
    exact Nat.add_le_add_left hwalk.length_le 1

/-- If no path is new and the outline has as many lines as before, then no path is lost. -/
theorem nothingLost_of_render (hrender : Outline.render types names parameters = some written)
    (hrender' : Outline.render types names after = some written) : NothingLost parameters after := by
  have hbare : after.map bare = parameters.map bare := hafter.typed.bare.trans h.typed.bare.symm
  intro owner path hsome
  obtain ⟨id, hid⟩ := Option.isSome_iff_exists.1 hsome
  obtain ⟨parameter, hparam, hpath⟩ := Option.bind_eq_some_iff.1 hid
  obtain ⟨parameter', hparam', -, htype⟩ := getElem?_of_bare hbare hparam
  obtain ⟨lines', lines, hlines', hlines, hweights⟩ := Outline.weights_eq hrender' hrender
    (by simpa using (congrArg List.length hbare).symm) (Nat.le_refl _)
    (fun hparam' hparam hlines' hlines =>
      weights_le_of_old hnames h hafter hold hparam hparam' hlines hlines') hparam' hparam
  rw [Outline.weights_parameterLines hnames rfl hlines',
    Outline.weights_parameterLines hnames rfl hlines, htype,
    h.typed.isSimple_eq_false hid hparam] at hweights
  have hpath' := (hafter.wellFormed hparam').find?_of_length_walk (h.wellFormed hparam)
    (find?_of_old hold hparam hparam') (Nat.le_of_eq (Nat.add_left_cancel hweights).symm) hpath
  rw [found?_eq hparam', hpath']
  rfl

end

/-- If statuses have come at most and the outline has as many commas as before, then no node in its
walk has got its first status. -/
theorem nothingMarked_of_render (h : Coherent types base parameters) (hfills : Fills parameters after)
    (hrender : Outline.render types names parameters = some written)
    (hrender' : Outline.render types names after = some written) : NothingMarked parameters after := by
  intro owner path id node node' hfind hnode hnode' hstatus
  obtain ⟨parameter, hparam, hpath⟩ := Option.bind_eq_some_iff.1 hfind
  obtain ⟨parameter', hparam', -⟩ := getElem?_of_bare hfills.bare hparam
  obtain ⟨lines, lines', hlines, hlines', hweights⟩ := Outline.weights_eq hrender hrender'
    (by simpa using congrArg List.length hfills.bare) (Nat.le_refl _)
    (fun hparam hparam' hlines hlines' =>
      (Outline.commas_parameterLines hfills h.wellFormed hparam hparam' hlines hlines').1)
    hparam hparam'
  rw [nodeAt?_eq hparam] at hnode
  rw [nodeAt?_eq hparam'] at hnode'
  have hback := (Outline.commas_parameterLines hfills h.wellFormed hparam hparam' hlines hlines').2
  exact hback (h.typed.isSimple_eq_false hfind hparam) hweights id
    ((h.wellFormed hparam).mem_walk.2 ⟨path, hpath⟩) node node' hnode hnode' hstatus

end

/-- Under the last-wins policy, a recorded document can be analyzed again with the same outline and
no new nodes exactly if all its statements are settled in the end, and then the second analysis
changes nothing at all. -/
theorem analyze_twice (hempty : ∀ parameter ∈ base, parameter.forest = .empty)
    (hpolicy : model.policy = .lastWins) {document : Document}
    (hok : analyze model document base = .ok () final) :
    (analyze model document final = .ok () final ↔
        ∀ root ∈ document.roots, Settled document.store final root) ∧
      ∀ (names : NameTable) (written : String), names.SingleLine →
        Outline.render model.types names final = some written →
        ((∃ again, analyze model document final = .ok () again ∧
            Outline.render model.types names again = some written ∧
            again.map (·.forest.size) = final.map (·.forest.size)) ↔
          ∀ root ∈ document.roots, Settled document.store final root) := by
  refine ⟨analyze_again_iff hempty hpolicy hok, fun names written hnames hrender => ?_⟩
  refine ⟨?_, fun hsettled => ?_⟩
  · rintro ⟨again, hagain, hrender', hsize⟩
    have hfinal : Coherent model.types base final :=
      coherent_of_analyze (coherent_of_empty hempty model.types) hok
    have hcoherent : Coherent model.types base again := coherent_of_analyze hfinal hagain
    have hnew := nothingNew_of_size hsize
    have hlost : NothingLost final again := nothingLost_of_render hnames hfinal hcoherent
      (found?_of_nothingNew hfinal hagain hnew) hrender hrender'
    have hfills := fills_of_analyze hfinal hagain hnew hlost
    have hmarked := nothingMarked_of_render hfinal hfills hrender hrender'
    exact (Restated.refl final).settled hempty hpolicy hfinal hagain hnew hlost hmarked
  · exact ⟨final, analyze_of_settled hempty hpolicy hok hsettled, hrender, rfl⟩

/-- The alternation of `a` and `b`, and the member `a` of `a`. -/
theorem analyze_twice_sample :
    let document : Document := ⟨Sample.store, [⟨5⟩, ⟨7⟩]⟩
    let final := stateAfter Sample.model document Sample.parameters
    let written := "p\n    a (t, mandatory) or b (string, mandatory)\n        a (t, mandatory)\n"
    (∀ parameter ∈ Sample.parameters, parameter.forest = .empty) ∧ Sample.model.policy = .lastWins ∧
      analyze Sample.model document Sample.parameters = .ok () final ∧ Sample.names.SingleLine ∧
      Outline.render Sample.model.types Sample.names final = some written ∧
      (∀ root ∈ document.roots, Settled document.store final root) ∧
      ∃ again, analyze Sample.model document final = .ok () again ∧
        Outline.render Sample.model.types Sample.names again = some written ∧
        again.map (·.forest.size) = final.map (·.forest.size) := by
  intro document final written
  have hok : analyze Sample.model document Sample.parameters = .ok () final :=
    analyze_of_halt?_none (by decide +kernel)
  have hagain : analyze Sample.model document final = .ok () final := by
    have hsame : stateAfter Sample.model document final = final := by decide +kernel
    have hpass : analyze Sample.model document final =
        .ok () (stateAfter Sample.model document final) := analyze_of_halt?_none (by decide +kernel)
    rw [hpass, hsame]
  have hlines : Sample.names.SingleLine := by
    have hall : ∀ text ∈ Sample.names.texts.toList, '\n' ∉ text.toList := by decide +kernel
    exact fun name text h => hall text (Array.mem_toList_iff.2 (Array.mem_of_getElem? h))
  have hrender : Outline.render Sample.model.types Sample.names final = some written := by
    decide +kernel
  obtain ⟨hsettled, hstable⟩ := analyze_twice Sample.nothing_recorded rfl hok
  exact ⟨Sample.nothing_recorded, rfl, hok, hlines, hrender, hsettled.1 hagain,
    (hstable Sample.names written hlines hrender).2 (hsettled.1 hagain)⟩

/-- The member `b`, then the alternation of `a` and `b`: the second analysis records `b` anew. -/
example :
    let document : Document := ⟨Sample.store, [⟨4⟩, ⟨5⟩]⟩
    let final := stateAfter Sample.model document Sample.parameters
    let again := stateAfter Sample.model document final
    halt? Sample.model document Sample.parameters = none ∧ halt? Sample.model document final = none ∧
      final.map (·.forest.size) = [2] ∧ again.map (·.forest.size) = [3] := by
  decide +kernel

end InputDetail.Analysis
