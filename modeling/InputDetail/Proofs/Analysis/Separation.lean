import InputDetail.Proofs.Analysis.NodeTypes
import InputDetail.Proofs.Analysis.Statuses

/-!
# Simple and structured parameters

A simple parameter has a status as a whole, and a structured one has members. Nothing but the type of
a parameter says which it is, and the type may come into the table later than the parameter. Still
the two never mix: members resolve below struct and list types only, the status of a whole parameter
is set only if its type is simple, and no type in the table changes its kind.
-/
namespace InputDetail

theorem Forest.ne_nil_of_path? {forest : Forest} {id : NodeId} {path : List Name}
    (h : forest.path? id = some path) : path ≠ [] := by
  rintro rfl
  rw [path?, climb] at h
  obtain ⟨node, -, hnames⟩ := Option.bind_eq_some_iff.1 h
  cases hparent : node.parent with
  | none => simp [hparent] at hnames
  | some parent => simp [hparent] at hnames

namespace TypeTable

/-- A simple type stays simple. -/
theorem Extends.isSimple {types types' : TypeTable} (h : types.Extends types') {type : TypeId}
    (hsimple : types.isSimple type = true) : types'.isSimple type = true := by
  obtain ⟨known, hget, hknown⟩ := (Option.any_eq_true _ _).1 hsimple
  obtain ⟨definition, hget', hgrows⟩ := h hget
  rw [TypeTable.isSimple, hget', Option.any_some]
  cases hgrows with
  | same => exact hknown
  | defined name members => cases hknown

/-- A path leads further from struct and list types only. -/
theorem isSimple_eq_false_of_along {types : TypeTable} {current type : TypeId} {path : List Name}
    (hne : path ≠ []) (h : types.along current path = some type) : types.isSimple current = false := by
  cases path with
  | nil => exact absurd rfl hne
  | cons name rest =>
    rw [along] at h
    cases hresolve : types.resolve current name with
    | error e => simp [hresolve] at h
    | ok member => exact isSimple_eq_false hresolve

end TypeTable

namespace Analysis

open Parameter

variable {model : Model} {store : ExprStore} {types types' : TypeTable}
  {initial parameters after : List Parameter}

/-- The states that are reached from certain parameters by analyses and by constructions of types, in
any order. Those that fail count too. -/
inductive EvolvesFrom (initial : List Parameter) : TypeTable → List Parameter → Prop
  | start (types : TypeTable) : EvolvesFrom initial types initial
  | analysis {types : TypeTable} {parameters : List Parameter}
      (before : EvolvesFrom initial types parameters) (policy : ConflictPolicy) (document : Document) :
      EvolvesFrom initial types (stateAfter ⟨types, policy⟩ document parameters)
  | construction {types : TypeTable} {parameters : List Parameter}
      (before : EvolvesFrom initial types parameters) (construction : TypeTable.Construction) :
      EvolvesFrom initial (types.construct construction) parameters

theorem EvolvesFrom.evolved (h : EvolvesFrom initial types parameters)
    (hempty : ∀ parameter ∈ initial, parameter.forest = .empty) : Evolved types parameters := by
  induction h with
  | start types => exact .start hempty
  | analysis before policy document ih => exact ih.analysis policy document
  | construction before construction ih => exact ih.construction construction

/-- A parameter with a node, attached or not, is not simple. -/
theorem NodesTyped.isSimple_eq_false (h : NodesTyped types parameters) {owner : Nat}
    {parameter : Parameter} (hparam : parameters[owner]? = some parameter) {id : NodeId} {node : Node}
    (hnode : parameter.forest.node? id = some node) : types.isSimple parameter.type = false := by
  obtain ⟨path, type, hpath, -, hstatic⟩ := h (by rw [nodeAt?_eq hparam, hnode])
  rw [pathAt?_eq hparam] at hpath
  rw [staticType, hparam, Option.bind_some] at hstatic
  exact TypeTable.isSimple_eq_false_of_along (Forest.ne_nil_of_path? hpath) hstatic

theorem NodesTyped.forest_eq_empty (h : NodesTyped types parameters) {owner : Nat}
    {parameter : Parameter} (hparam : parameters[owner]? = some parameter)
    (hsimple : types.isSimple parameter.type = true) : parameter.forest = .empty := by
  apply Forest.ext_node?
  intro id
  cases hnode : parameter.forest.node? id with
  | none => rfl
  | some node =>
    rw [h.isSimple_eq_false hparam hnode] at hsimple
    cases hsimple

/-- Only simple parameters have had their status as a whole set. -/
def FlagsSimple (types : TypeTable) (parameters : List Parameter) : Prop :=
  ∀ ⦃owner : Nat⦄ ⦃parameter : Parameter⦄, parameters[owner]? = some parameter →
    types.isSimple parameter.type = false → parameter.status = .optional

theorem flagsSimple_of_new (hnew : ∀ parameter ∈ parameters,
    ∃ name type direction, parameter = .new name type direction) (types : TypeTable) :
    FlagsSimple types parameters := by
  intro owner parameter hparam _
  obtain ⟨name, type, direction, rfl⟩ := hnew parameter (List.mem_of_getElem? hparam)
  rfl

/-- What was not simple with more types is not simple with fewer. -/
theorem FlagsSimple.of_extends (h : FlagsSimple types parameters) (hextends : types.Extends types') :
    FlagsSimple types' parameters := by
  intro owner parameter hparam hstructured
  cases hsimple : types.isSimple parameter.type with
  | false => exact h hparam hsimple
  | true =>
    rw [hextends.isSimple hsimple] at hstructured
    cases hstructured

/-- A whole parameter gets a status only if it is simple. -/
theorem isSimple_of_flag {id : ExprId} {owner : Nat} {status : Status}
    (hplan : planStatement model store parameters id = .ok (.flag owner status)) :
    ∃ parameter, parameters[owner]? = some parameter ∧ model.types.isSimple parameter.type = true := by
  obtain ⟨declared, path, plan, -, hpath, heq⟩ | ⟨_, _, _, _, -, hboth⟩ := planStatement_cases hplan
  · obtain ⟨_, position, parameter, -, hlocate, ⟨-, hsimple, rfl⟩ | ⟨_, _, _, _, -, -, -, rfl⟩⟩ :=
      planPath_cases hpath
    · cases heq
      exact ⟨parameter, (getElem?_of_locate? hlocate).1, hsimple⟩
    · cases heq
  · obtain ⟨_, _, -, -, -, ⟨-, heq⟩ | ⟨_, -, heq⟩⟩ := planAlternation_cases hboth <;> cases heq

/-- Recording one more statement. -/
theorem FlagsSimple.step (h : FlagsSimple model.types parameters) (hwf : WellFormed parameters)
    {statement : ExprId} (hok : analyzeStatement model store statement parameters = .ok () after) :
    FlagsSimple model.types after := by
  obtain ⟨change, hplan, heffect⟩ := effect_of_analyzeStatement hwf hok
  intro owner parameter' hparam' hstructured
  obtain ⟨parameter, hparam, -, htype⟩ := getElem?_of_bare (bare_of_effect heffect).symm hparam'
  rw [← htype] at hstructured
  obtain ⟨status, rfl, -⟩ | ⟨-, hkept⟩ := flag_of_effect heffect owner
  · obtain ⟨known, hknown, hsimple⟩ := isSimple_of_flag hplan
    rw [hparam, Option.some.injEq] at hknown
    rw [← hknown, hstructured] at hsimple
    cases hsimple
  · rw [hparam, hparam', Option.map_some, Option.map_some, Option.some.injEq] at hkept
    rw [hkept, h hparam hstructured]

theorem EvolvesFrom.flagsSimple (h : EvolvesFrom initial types parameters)
    (hnew : ∀ parameter ∈ initial, ∃ name type direction, parameter = .new name type direction)
    (hempty : ∀ parameter ∈ initial, parameter.forest = .empty) : FlagsSimple types parameters := by
  induction h with
  | start types => exact flagsSimple_of_new hnew types
  | @analysis types parameters before policy document ih =>
    have hwf := (before.evolved hempty).reachable.built.wellFormed
    exact stateAfter_of_step hwf ih fun hwf hflags hok => FlagsSimple.step hflags hwf hok
  | @construction types parameters before construction ih =>
    exact ih.of_extends (types.extends_construct construction)

/-- Whatever was analyzed and constructed since the parameters were new, a parameter of a simple type
has no nodes, and a parameter of any other type, or of none, is not mandatory as a whole. -/
theorem simple_or_structured (hnew : ∀ parameter ∈ initial,
    ∃ name type direction, parameter = .new name type direction)
    (h : EvolvesFrom initial types parameters) {parameter : Parameter} (hmem : parameter ∈ parameters) :
    (types.isSimple parameter.type = true → parameter.forest = .empty) ∧
      (types.isSimple parameter.type = false → parameter.isMandatory = false) := by
  have hempty : ∀ parameter ∈ initial, parameter.forest = .empty := by
    intro parameter hparam
    obtain ⟨name, type, direction, rfl⟩ := hnew parameter hparam
    rfl
  obtain ⟨owner, hparam⟩ := List.mem_iff_getElem?.1 hmem
  constructor
  · exact (h.evolved hempty).nodesTyped.forest_eq_empty hparam
  · intro hstructured
    rw [isMandatory, h.flagsSimple hnew hempty hparam hstructured]
    rfl

/-- Neither parameter has a type when the block is analyzed first, which is refused. Then an enum and a
struct are added, and the block marks the one parameter and a member of the other. -/
theorem simple_or_structured_sample :
    let initial : List Parameter := [.new ⟨7⟩ ⟨5⟩ .input, .new ⟨8⟩ ⟨6⟩ .both]
    let store : ExprStore :=
      ⟨#[⟨.call none ⟨7⟩ .empty, ⟨0, 0⟩⟩, ⟨.call none .mandatory ⟨0, 1⟩, ⟨0, 0⟩⟩,
        ⟨.call none ⟨8⟩ .empty, ⟨0, 0⟩⟩, ⟨.call (some ⟨2⟩) ⟨9⟩ .empty, ⟨0, 0⟩⟩,
        ⟨.call none .mandatory ⟨1, 1⟩, ⟨0, 0⟩⟩], #[⟨0⟩, ⟨3⟩]⟩
    let document : Document := ⟨store, [⟨1⟩, ⟨4⟩]⟩
    let refused := stateAfter ⟨.initial, .reject⟩ document initial
    let types := (TypeTable.initial.construct (.enum ⟨10⟩ [⟨11⟩])).construct
      (.struct ⟨12⟩ [⟨⟨9⟩, ⟨5⟩⟩])
    let parameters := stateAfter ⟨types, .lastWins⟩ document refused
    (∀ parameter ∈ initial, ∃ name type direction, parameter = .new name type direction) ∧
      EvolvesFrom initial types parameters ∧ ∃ simple structured,
        parameters = [simple, structured] ∧ types.isSimple simple.type = true ∧
        simple.forest = .empty ∧ simple.isMandatory = true ∧
        types.isSimple structured.type = false ∧ structured.isMandatory = false ∧
        structured.forest.size = 1 := by
  intro initial store document refused types parameters
  have hnew : ∀ parameter ∈ initial, ∃ name type direction, parameter = .new name type direction := by
    intro parameter hmem
    simp only [initial, List.mem_cons, List.not_mem_nil, or_false] at hmem
    obtain rfl | rfl := hmem
    · exact ⟨_, _, _, rfl⟩
    · exact ⟨_, _, _, rfl⟩
  have hevolves : EvolvesFrom initial types parameters :=
    ((((EvolvesFrom.start .initial).analysis .reject document).construction
      (.enum ⟨10⟩ [⟨11⟩])).construction (.struct ⟨12⟩ [⟨⟨9⟩, ⟨5⟩⟩])).analysis .lastWins document
  obtain ⟨simple, structured, hparameters, hsimple, hmark, hstructured, hsize⟩ :
      ∃ simple structured, parameters = [simple, structured] ∧
        types.isSimple simple.type = true ∧ simple.isMandatory = true ∧
        types.isSimple structured.type = false ∧ structured.forest.size = 1 :=
    ⟨parameters.get ⟨0, by decide +kernel⟩, parameters.get ⟨1, by decide +kernel⟩,
      by decide +kernel, by decide +kernel, by decide +kernel, by decide +kernel,
      by decide +kernel⟩
  have hall {parameter : Parameter} (hmem : parameter ∈ parameters) :=
    simple_or_structured hnew hevolves hmem
  exact ⟨hnew, hevolves, simple, structured, hparameters, hsimple,
    (hall (by simp [hparameters])).1 hsimple, hmark, hstructured,
    (hall (by simp [hparameters])).2 hstructured, hsize⟩

end Analysis

end InputDetail
