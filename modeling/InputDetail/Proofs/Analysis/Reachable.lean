import InputDetail.Proofs.Analysis.Execution

/-!
# States that analyses reach

Analyses change the forests by public edits only. So a predicate on forests that every edit keeps
holds in every state that analyses reach, whichever statements are refused on the way.
-/
namespace InputDetail.Analysis

open Forest Parameter

variable {model : Model} {store : ExprStore}

/-- The parameters that an analysis leaves, whether it comes to a halt or not. -/
def stateAfter (model : Model) (document : Document) (parameters : List Parameter) :
    List Parameter :=
  match analyze model document parameters with
  | .ok _ after => after
  | .error _ left => left

/-- Why an analysis comes to a halt, if it does. -/
def halt? (model : Model) (document : Document) (parameters : List Parameter) : Option Halt :=
  match analyze model document parameters with
  | .ok _ _ => none
  | .error halt _ => some halt

theorem analyze_of_halt?_none {document : Document} {parameters : List Parameter}
    (h : halt? model document parameters = none) :
    analyze model document parameters = .ok () (stateAfter model document parameters) := by
  unfold halt? at h
  unfold stateAfter
  cases hresult : analyze model document parameters with
  | ok _ after => rfl
  | error halt left =>
    rw [hresult] at h
    cases h

theorem analyze_of_halt?_some {document : Document} {parameters : List Parameter} {halt : Halt}
    (h : halt? model document parameters = some halt) :
    analyze model document parameters = .error halt (stateAfter model document parameters) := by
  unfold halt? at h
  unfold stateAfter
  cases hresult : analyze model document parameters with
  | ok _ after =>
    rw [hresult] at h
    cases h
  | error halt' left =>
    rw [hresult] at h
    cases h
    rfl

theorem analyze_cons (root : ExprId) (roots : List ExprId) (parameters : List Parameter) :
    analyze model ⟨store, root :: roots⟩ parameters =
      match analyzeStatement model store root parameters with
      | .ok () after => analyze model ⟨store, roots⟩ after
      | .error halt left => .error halt left := by
  show EStateM.bind _ _ _ = _
  simp only [EStateM.bind]
  cases analyzeStatement model store root parameters <;> rfl

/-- A block is recorded if its first statement is and then the rest. -/
theorem analyze_cons_eq_ok {root : ExprId} {roots : List ExprId} {parameters final : List Parameter} :
    analyze model ⟨store, root :: roots⟩ parameters = .ok () final ↔
      ∃ after, analyzeStatement model store root parameters = .ok () after ∧
        analyze model ⟨store, roots⟩ after = .ok () final := by
  rw [analyze_cons]
  cases analyzeStatement model store root parameters with
  | error halt left => simp
  | ok _ after => simp

/-- Analyzing one block after the other is analyzing both as one. -/
theorem analyze_append (roots roots' : List ExprId) (parameters : List Parameter) :
    analyze model ⟨store, roots ++ roots'⟩ parameters =
      match analyze model ⟨store, roots⟩ parameters with
      | .ok () after => analyze model ⟨store, roots'⟩ after
      | .error halt left => .error halt left := by
  induction roots generalizing parameters with
  | nil => rfl
  | cons root roots ih =>
    rw [List.cons_append, analyze_cons, analyze_cons]
    cases analyzeStatement model store root parameters with
    | ok _ after => exact ih after
    | error halt left => rfl

theorem analyze_singleton (root : ExprId) (parameters : List Parameter) :
    analyze model ⟨store, [root]⟩ parameters = analyzeStatement model store root parameters := by
  rw [analyze_cons]
  cases analyzeStatement model store root parameters <;> rfl

/-- After a recorded statement the rest of a block is analyzed as a block of its own. -/
theorem stateAfter_cons {root : ExprId} {parameters after : List Parameter}
    (h : analyzeStatement model store root parameters = .ok () after) (roots : List ExprId) :
    stateAfter model ⟨store, root :: roots⟩ parameters = stateAfter model ⟨store, roots⟩ after := by
  unfold stateAfter
  rw [analyze_cons, h]

/-- Each statement of a recorded block is recorded after the statements before it. -/
theorem analyzeStatement_of_analyze {root : ExprId} {roots : List ExprId}
    {parameters final : List Parameter} (h : analyze model ⟨store, roots⟩ parameters = .ok () final)
    {k : Nat} (hroot : roots[k]? = some root) :
    analyzeStatement model store root (stateAfter model ⟨store, roots.take k⟩ parameters) =
      .ok () (stateAfter model ⟨store, roots.take (k + 1)⟩ parameters) := by
  induction roots generalizing parameters k with
  | nil => simp at hroot
  | cons first rest ih =>
    obtain ⟨after, hfirst, hrest⟩ := analyze_cons_eq_ok.1 h
    cases k with
    | zero =>
      simp only [List.getElem?_cons_zero, Option.some.injEq] at hroot
      rw [List.take_succ_cons, stateAfter_cons hfirst, ← hroot]
      exact hfirst
    | succ k =>
      rw [List.take_succ_cons, List.take_succ_cons, stateAfter_cons hfirst, stateAfter_cons hfirst]
      exact ih hrest (by simpa using hroot)

/-- The recorder keeps `p`, also when it comes to a halt. -/
def Preserves {α : Type} (p : List Parameter → Prop) (recorder : Recorder α) : Prop :=
  ∀ parameters, p parameters → match recorder parameters with
    | .ok _ after => p after
    | .error _ left => p left

variable {p : List Parameter → Prop}

theorem preserves_pure {α : Type} (a : α) : Preserves p (pure a) := fun _ h => h

theorem preserves_bind {α β : Type} {recorder : Recorder α} {next : α → Recorder β}
    (h : Preserves p recorder) (hnext : ∀ a, Preserves p (next a)) :
    Preserves p (recorder >>= next) := by
  intro parameters hp
  have hfirst := h parameters hp
  show match EStateM.bind recorder next parameters with
    | .ok _ after => p after
    | .error _ left => p left
  simp only [EStateM.bind]
  cases hresult : recorder parameters with
  | ok a after =>
    rw [hresult] at hfirst
    exact hnext a after hfirst
  | error halt left =>
    rw [hresult] at hfirst
    exact hfirst

theorem preserves_foldlM {α β : Type} {step : α → β → Recorder α} (h : ∀ a b, Preserves p (step a b))
    (bs : List β) (a : α) : Preserves p (bs.foldlM step a) := by
  induction bs generalizing a with
  | nil => exact preserves_pure a
  | cons b bs ih =>
    simp only [List.foldlM_cons]
    exact preserves_bind (h a b) ih

theorem preserves_forM {α : Type} {step : α → Recorder Unit} (h : ∀ a, Preserves p (step a))
    (list : List α) : Preserves p (list.forM step) := by
  induction list with
  | nil => exact preserves_pure ()
  | cons a list ih => exact preserves_bind (h a) fun _ => ih

/-- All forests were built by edits. The statuses of whole parameters may be anything. -/
def Built (parameters : List Parameter) : Prop :=
  ∀ parameter ∈ parameters, parameter.forest.Built

theorem Built.wellFormed {parameters : List Parameter} (h : Built parameters) :
    WellFormed parameters :=
  fun _ parameter hparam => (h parameter (List.mem_of_getElem? hparam)).wellFormed

theorem built_set {parameters : List Parameter} (h : Built parameters) (owner : Nat)
    (parameter : Parameter) (hforest : parameter.forest.Built) :
    Built (parameters.set owner parameter) := by
  intro other hother
  obtain hold | rfl := List.mem_or_eq_of_mem_set hother
  · exact h other hold
  · exact hforest

/-- An edit that keeps forests built, on the forest of one parameter. -/
theorem preserves_onForest {α : Type} (owner : Nat) {edit : Forest.Edit α}
    (hok : ∀ {forest after a}, forest.Built → edit forest = .ok a after → after.Built)
    (herror : ∀ {forest left e}, edit forest = .error e left → left = forest) :
    Preserves Built (onForest owner edit) := by
  intro parameters h
  unfold onForest
  cases hparam : parameters[owner]? with
  | none => exact h
  | some parameter =>
    have hbuilt := h parameter (List.mem_of_getElem? hparam)
    cases hedit : edit parameter.forest with
    | ok a after =>
      simp only [hedit]
      exact built_set h owner _ (hok hbuilt hedit)
    | error e left =>
      simp only [hedit]
      exact built_set h owner _ (herror hedit ▸ hbuilt)

theorem insert_eq_of_error {parent : Option NodeId} {name : Name} {forest left : Forest}
    {e : ForestError} (h : Forest.insert parent name forest = .error e left) : left = forest := by
  unfold Forest.insert at h
  split at h
  · cases h
    rfl
  · split at h <;> cases h

theorem preserves_visit (owner : Nat) (parent : Option NodeId) (member : Member) :
    Preserves Built (visit owner parent member) := by
  refine preserves_bind (preserves_onForest owner Forest.Built.insert insert_eq_of_error) ?_
  intro result
  refine preserves_bind (preserves_onForest owner Forest.Built.setType editNode_eq_of_error) ?_
  exact fun _ => preserves_pure result.1

theorem preserves_setStatus (owner : Nat) (id : NodeId) (status : Status) :
    Preserves Built (onForest owner (Forest.setStatus id status)) :=
  preserves_onForest owner Forest.Built.setStatus editNode_eq_of_error

theorem preserves_record (plan : MemberPlan) : Preserves Built (record plan) := by
  refine preserves_bind (preserves_visit plan.owner none plan.first) fun root => ?_
  refine preserves_bind ?_ fun leaf => ?_
  · exact preserves_foldlM (fun parent => preserves_visit plan.owner (some parent)) plan.later root
  · exact preserves_bind (preserves_setStatus plan.owner leaf plan.status) fun _ => preserves_pure leaf

theorem preserves_exclude (owner : Nat) (node : NodeId) (excludedOwner : Nat) (excluded : NodeId) :
    Preserves Built (exclude owner node excludedOwner excluded) := by
  intro parameters h
  rw [exclude_apply]
  cases parameters[excludedOwner]? with
  | none => exact h
  | some target =>
    exact preserves_bind (preserves_onForest excludedOwner Forest.Built.detach editNode_eq_of_error)
      (fun _ => preserves_onForest owner Forest.Built.setLink editNode_eq_of_error) parameters h

theorem preserves_setFlag (owner : Nat) (status : Status) : Preserves Built (setFlag owner status) := by
  intro parameters h
  show Built (parameters.modify owner ({ · with status }))
  intro parameter hparam
  obtain ⟨index, hindex⟩ := List.mem_iff_getElem?.1 hparam
  rw [List.getElem?_modify] at hindex
  obtain ⟨old, hold, rfl⟩ := Option.map_eq_some_iff.1 hindex
  have hbuilt := h old (List.mem_of_getElem? hold)
  split_ifs <;> exact hbuilt

theorem preserves_carryOut (change : Change) : Preserves Built (carryOut change) := by
  cases change with
  | flag owner status => exact preserves_setFlag owner status
  | record plan => exact preserves_bind (preserves_record plan) fun _ => preserves_pure ()
  | link primary secondary =>
    refine preserves_bind (preserves_record primary) fun node => ?_
    exact preserves_bind (preserves_record secondary) fun excluded =>
      preserves_exclude primary.owner node secondary.owner excluded
  | relink primary secondary linked =>
    refine preserves_bind (preserves_record primary) fun _ => ?_
    exact preserves_bind (preserves_setStatus secondary.owner linked secondary.status) fun _ =>
      preserves_pure ()

/-- Analyses keep forests built, whether they come to a halt or not. -/
theorem preserves_analyze (model : Model) (document : Document) :
    Preserves Built (analyze model document) := by
  refine preserves_forM (fun root parameters h => ?_) document.roots
  unfold analyzeStatement
  cases planStatement model document.store parameters root with
  | error halt => exact h
  | ok change => exact preserves_carryOut change parameters h

theorem Built.stateAfter {parameters : List Parameter} (h : Built parameters) (model : Model)
    (document : Document) : Built (stateAfter model document parameters) := by
  have hkept := preserves_analyze model document parameters h
  unfold Analysis.stateAfter
  cases hresult : analyze model document parameters with
  | ok _ after =>
    rw [hresult] at hkept
    exact hkept
  | error halt left =>
    rw [hresult] at hkept
    exact hkept

/-- The states that analyses reach from parameters with nothing recorded. Each analysis may have its
own model and block, and those that come to a halt count too. -/
inductive Reachable : List Parameter → Prop
  | start {parameters : List Parameter}
      (nothing : ∀ parameter ∈ parameters, parameter.forest = .empty) : Reachable parameters
  | analysis {parameters : List Parameter} (before : Reachable parameters) (model : Model)
      (document : Document) : Reachable (stateAfter model document parameters)

theorem Reachable.built {parameters : List Parameter} (h : Reachable parameters) :
    Built parameters := by
  induction h with
  | start nothing =>
    intro parameter hparam
    rw [nothing parameter hparam]
    exact .empty
  | @analysis parameters before model document ih => exact ih.stateAfter model document

end InputDetail.Analysis
