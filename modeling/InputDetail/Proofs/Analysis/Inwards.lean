import InputDetail.Proofs.Analysis.Chain
import Mathlib.Logic.Relation
import Mathlib.Tactic.IntervalCases

/-!
# The way inwards

A path is read from the outermost call inwards, from a call to its receiver and from an indexing to what
it indexes. Where everything on this way is older than what stands around it, the way comes to an end: at
the call that names the parameter, or at the first expression that is no link of a chain. In the first
case the path has the names of all calls on the way, the oldest first. In the second case the expression
is refused, whatever stands further inside.
-/
namespace InputDetail

/-- A chain is made of expressions that are older than it. So they are in the store if it is. -/
structure ExprStore.Layered (store : ExprStore) : Prop where
  receiver : ∀ {id receiver name args span},
    store.get? id = some ⟨.call (some receiver) name args, span⟩ → receiver.index < id.index
  array : ∀ {id array index span},
    store.get? id = some ⟨.index array index, span⟩ → array.index < id.index
  index : ∀ {id array index span},
    store.get? id = some ⟨.index array index, span⟩ → index.index < id.index

namespace Analysis

open ExprStore Relation

/-- The names that a path is written with, that of the parameter first. -/
def Path.names (path : Path) : List Name := path.parameter :: path.members

@[simp] theorem Path.names_child (path : Path) (name : Name) :
    (path.child name).names = path.names ++ [name] := rfl

/-- One step inwards. -/
inductive Inward (store : ExprStore) : ExprId → ExprId → Prop
  | receiver {id receiver name args span}
      (expr : store.get? id = some ⟨.call (some receiver) name args, span⟩) :
      Inward store id receiver
  | array {id array index span} (expr : store.get? id = some ⟨.index array index, span⟩) :
      Inward store id array

/-- The expression is a call of the name. -/
def Calls (store : ExprStore) (id : ExprId) (name : Name) : Prop :=
  ∃ receiver args span, store.get? id = some ⟨.call receiver name args, span⟩

/-- The expression is no link of a chain, for a reason that the error tells. -/
inductive Offends (store : ExprStore) : ExprId → AnalysisError → Prop
  | arguments {id receiver name args span}
      (expr : store.get? id = some ⟨.call receiver name args, span⟩) (filled : args.isEmpty = false) :
      Offends store id (.unsupportedExpression span .callWithArguments)
  | field {id name span} (expr : store.get? id = some ⟨.field name, span⟩) :
      Offends store id (.unsupportedExpression span .bareIdentifier)
  | index {id array index span place} (expr : store.get? id = some ⟨.index array index, span⟩)
      (position : store.get? index = some place) (other : place.kind ≠ .field .collection) :
      Offends store id (.invalidCollectionIndex place.span)
  /-- The index is looked at first. -/
  | indexed {id array index span span' target}
      (expr : store.get? id = some ⟨.index array index, span⟩)
      (collection : store.get? index = some ⟨.field .collection, span'⟩)
      (called : store.get? array = some target)
      (noCall : ∀ receiver name args, target.kind ≠ .call receiver name args) :
      Offends store id (.unsupportedExpression span .indexedNonCall)

/-- The outermost expression on the way inwards that is no link of a chain. -/
structure FirstOffence (store : ExprStore) (id node : ExprId) (error : AnalysisError) : Prop where
  way : ReflTransGen (Inward store) id node
  offends : Offends store node error
  outermost : ∀ outer, ReflTransGen (Inward store) id outer → TransGen (Inward store) outer node →
    ∀ other, ¬ Offends store outer other

variable {store : ExprStore} {id next node : ExprId} {path : Path} {fuel : Nat} {halt : Halt}
  {error : AnalysisError}

theorem Inward.unique {next' : ExprId} (h : Inward store id next) (h' : Inward store id next') :
    next = next' := by
  cases h with
  | receiver expr =>
    cases h' with
    | receiver expr' => cases expr.symm.trans expr'; rfl
    | array expr' => cases expr.symm.trans expr'
  | array expr =>
    cases h' with
    | receiver expr' => cases expr.symm.trans expr'
    | array expr' => cases expr.symm.trans expr'; rfl

section

variable (hstore : store.Layered)
include hstore

theorem Inward.lt (h : Inward store id next) : next.index < id.index := by
  cases h with
  | receiver expr => exact hstore.receiver expr
  | array expr => exact hstore.array expr

theorem lt_of_transGen_inward (h : TransGen (Inward store) id node) : node.index < id.index := by
  induction h with
  | single hstep => exact hstep.lt hstore
  | tail _ hstep ih => exact Nat.lt_trans (hstep.lt hstore) ih

theorem le_of_reflTransGen_inward (h : ReflTransGen (Inward store) id node) :
    node.index ≤ id.index := by
  obtain rfl | hway := reflTransGen_iff_eq_or_transGen.1 h
  · exact Nat.le_refl _
  · exact Nat.le_of_lt (lt_of_transGen_inward hstore hway)

end

/-- The way from an expression goes through the next one. -/
theorem reflTransGen_inward_iff (hnext : Inward store id next) :
    ReflTransGen (Inward store) id node ↔ node = id ∨ ReflTransGen (Inward store) next node := by
  rw [ReflTransGen.cases_head_iff]
  constructor
  · rintro (rfl | ⟨other, hother, hway⟩)
    · exact Or.inl rfl
    · exact Or.inr (hnext.unique hother ▸ hway)
  · rintro (rfl | hway)
    · exact Or.inl rfl
    · exact Or.inr ⟨next, hnext, hway⟩

/-- A chain spells the names of all calls on the way inwards, the oldest first. -/
theorem Chain.calls (h : Chain store id path) (hstore : store.Layered) :
    ∃ calls : List ExprId, List.Forall₂ (Calls store) calls path.names ∧
      calls.Pairwise (·.index < ·.index) ∧
      ∀ call, call ∈ calls ↔ ReflTransGen (Inward store) id call ∧ ∃ name, Calls store call name := by
  induction h with
  | @parameter id name args span expr plain =>
    have hend : ∀ next, ¬ Inward store id next := by
      rintro next (⟨expr'⟩ | ⟨expr'⟩)
      · cases expr.symm.trans expr'
      · cases expr.symm.trans expr'
    refine ⟨[id], .cons ⟨_, _, _, expr⟩ .nil, List.pairwise_singleton _ _, fun call => ?_⟩
    rw [List.mem_singleton]
    constructor
    · rintro rfl
      exact ⟨.refl, name, _, _, _, expr⟩
    · rintro ⟨hway, -⟩
      obtain rfl | ⟨next, hnext, -⟩ := hway.cases_head
      · rfl
      · exact absurd hnext (hend next)
  | @member id receiver name args span path expr plain chain ih =>
    obtain ⟨calls, hnames, hordered, hcalls⟩ := ih
    have hnext : Inward store id receiver := .receiver expr
    refine ⟨calls ++ [id], ?_, ?_, fun call => ?_⟩
    · rw [Path.names_child]
      exact List.rel_append hnames (.cons ⟨_, _, _, expr⟩ .nil)
    · refine List.pairwise_append.2 ⟨hordered, List.pairwise_singleton _ _, fun call hcall => ?_⟩
      have hle := le_of_reflTransGen_inward hstore ((hcalls call).1 hcall).1
      rintro _ (_ | ⟨_, ⟨⟩⟩)
      exact Nat.lt_of_le_of_lt hle (hnext.lt hstore)
    · rw [List.mem_append, List.mem_singleton, hcalls, reflTransGen_inward_iff hnext]
      constructor
      · rintro (⟨hway, hcall⟩ | rfl)
        · exact ⟨Or.inr hway, hcall⟩
        · exact ⟨Or.inl rfl, name, _, _, _, expr⟩
      · rintro ⟨rfl | hway, hcall⟩
        · exact Or.inr rfl
        · exact Or.inl ⟨hway, hcall⟩
  | @element id array index span span' called path expr collection call isCall chain ih =>
    obtain ⟨calls, hnames, hordered, hcalls⟩ := ih
    refine ⟨calls, hnames, hordered, fun call => ?_⟩
    rw [hcalls, reflTransGen_inward_iff (.array expr)]
    constructor
    · rintro ⟨hway, hcall⟩
      exact ⟨Or.inr hway, hcall⟩
    · rintro ⟨rfl | hway, hcall⟩
      · obtain ⟨_, _, _, _, expr'⟩ := hcall
        cases expr.symm.trans expr'
      · exact ⟨hway, hcall⟩

/-- Reading ends at an expression that is no link. -/
theorem pathWithin_of_offends (h : Offends store id error) (fuel : Nat) :
    pathWithin store (fuel + 1) id = .error (.refused error) := by
  cases h with
  | arguments expr filled =>
    simp [pathWithin, exprAt, expr, filled, bind, Except.bind, unsupported, refuse]
  | field expr => simp [pathWithin, exprAt, expr, bind, Except.bind, unsupported, refuse]
  | index expr position other =>
    simp [pathWithin, exprAt, expr, position, other, bind, Except.bind, refuse]
  | @indexed array index span span' target expr collection called noCall =>
    obtain ⟨kind, span''⟩ := target
    cases kind with
    | call receiver name args => exact absurd rfl (noCall receiver name args)
    | index array index =>
      simp [pathWithin, exprAt, expr, collection, called, bind, Except.bind, unsupported, refuse]
    | field name =>
      simp [pathWithin, exprAt, expr, collection, called, bind, Except.bind, unsupported, refuse]

theorem Offends.unique {error' : AnalysisError} (h : Offends store id error)
    (h' : Offends store id error') : error = error' := by
  have hread := (pathWithin_of_offends h 0).symm.trans (pathWithin_of_offends h' 0)
  cases hread
  rfl

section

variable {receiver : Option ExprId} {name : Name} {args : ArgRange} {span span' : Span}
  {array index : ExprId}

theorem not_offends_of_plain (expr : store.get? id = some ⟨.call receiver name args, span⟩)
    (plain : args.isEmpty = true) : ¬ Offends store id error := by
  rintro (⟨expr', filled⟩ | ⟨expr'⟩ | ⟨expr', -, -⟩ | ⟨expr', -, -, -⟩)
  · cases expr.symm.trans expr'
    exact Bool.noConfusion (plain.symm.trans filled)
  · cases expr.symm.trans expr'
  · cases expr.symm.trans expr'
  · cases expr.symm.trans expr'

theorem not_offends_of_element (expr : store.get? id = some ⟨.index array index, span⟩)
    (collection : store.get? index = some ⟨.field .collection, span'⟩) {span'' : Span}
    (called : store.get? array = some ⟨.call receiver name args, span''⟩) :
    ¬ Offends store id error := by
  rintro (⟨expr', -⟩ | ⟨expr'⟩ | ⟨expr', position, other⟩ | ⟨expr', -, called', noCall⟩)
  · cases expr.symm.trans expr'
  · cases expr.symm.trans expr'
  · cases expr.symm.trans expr'
    cases collection.symm.trans position
    exact other rfl
  · cases expr.symm.trans expr'
    cases called.symm.trans called'
    exact noCall _ _ _ rfl

end

/-- An expression is no link of a chain, or the innermost one, or it adds to the path that is read one
step further inwards. -/
theorem offends_or_link (hstore : store.Layered) (hid : (store.get? id).isSome = true) (fuel : Nat) :
    (∃ error, Offends store id error) ∨
      (∀ error, ¬ Offends store id error) ∧
        ((∀ next, ¬ Inward store id next) ∧ (∃ path, pathWithin store (fuel + 1) id = .ok path) ∨
          ∃ next extend, Inward store id next ∧ (store.get? next).isSome = true ∧
            pathWithin store (fuel + 1) id = (pathWithin store fuel next).map extend) := by
  obtain ⟨⟨kind, span⟩, hexpr⟩ := Option.isSome_iff_exists.1 hid
  have hknown : ∀ {next : ExprId}, next.index < id.index → ∃ expr, store.get? next = some expr := by
    intro next hlt
    have hnext : next.index < store.exprs.size := Nat.lt_trans hlt (lt_size_of_get? hexpr)
    exact ⟨_, Array.getElem?_eq_getElem hnext⟩
  cases kind with
  | field name => exact Or.inl ⟨_, .field hexpr⟩
  | call receiver name args =>
    cases hargs : args.isEmpty with
    | false => exact Or.inl ⟨_, .arguments hexpr hargs⟩
    | true =>
      refine Or.inr ⟨fun _ => not_offends_of_plain hexpr hargs, ?_⟩
      cases receiver with
      | none =>
        refine Or.inl ⟨?_, ⟨name, []⟩, pathWithin_succ_eq_ok_iff.2 (Or.inl ⟨_, _, _, hexpr, hargs, rfl⟩)⟩
        rintro next (⟨expr⟩ | ⟨expr⟩)
        · cases hexpr.symm.trans expr
        · cases hexpr.symm.trans expr
      | some receiver =>
        obtain ⟨target, htarget⟩ := hknown (hstore.receiver hexpr)
        refine Or.inr ⟨receiver, (·.child name), .receiver hexpr, by rw [htarget]; rfl, ?_⟩
        simp only [pathWithin, exprAt, hexpr, hargs, bind, Except.bind, if_true]
        cases pathWithin store fuel receiver <;> rfl
  | index array index =>
    obtain ⟨place, hplace⟩ := hknown (hstore.index hexpr)
    obtain ⟨⟨kind', span'⟩, htarget⟩ := hknown (hstore.array hexpr)
    obtain ⟨kind, placeSpan⟩ := place
    by_cases hcollection : kind = .field .collection
    · subst hcollection
      cases kind' with
      | call receiver name args =>
        refine Or.inr ⟨fun _ => not_offends_of_element hexpr hplace htarget,
          Or.inr ⟨array, fun path => path, .array hexpr, by rw [htarget]; rfl, ?_⟩⟩
        simp only [pathWithin, exprAt, hexpr, hplace, htarget, bind, Except.bind, if_true]
        cases pathWithin store fuel array <;> rfl
      | index _ _ => exact Or.inl ⟨_, .indexed hexpr hplace htarget fun _ _ _ h => by cases h⟩
      | field _ => exact Or.inl ⟨_, .indexed hexpr hplace htarget fun _ _ _ h => by cases h⟩
    · exact Or.inl ⟨_, .index hexpr hplace hcollection⟩

namespace FirstOffence

/-- An expression that is no link is the outermost one on its own way. -/
theorem here (hstore : store.Layered) (h : Offends store id error) :
    FirstOffence store id id error := by
  refine ⟨.refl, h, fun outer hway hback => ?_⟩
  have hle := le_of_reflTransGen_inward hstore hway
  exact absurd (lt_of_transGen_inward hstore hback) (Nat.not_lt.2 hle)

theorem eq_of_offends {error' : AnalysisError} (h : FirstOffence store id node error)
    (hoffends : Offends store id error') : error' = error := by
  obtain rfl | hway := reflTransGen_iff_eq_or_transGen.1 h.way
  · exact hoffends.unique h.offends
  · exact absurd hoffends (h.outermost id .refl hway error')

/-- Behind a link the way goes on. -/
theorem iff_of_inward (hnext : Inward store id next) (hnone : ∀ other, ¬ Offends store id other) :
    FirstOffence store id node error ↔ FirstOffence store next node error := by
  constructor
  · intro h
    obtain rfl | hway := (reflTransGen_inward_iff hnext).1 h.way
    · exact absurd h.offends (hnone error)
    · exact ⟨hway, h.offends, fun outer houter => h.outermost outer (houter.head hnext)⟩
  · intro h
    refine ⟨h.way.head hnext, h.offends, fun outer houter hback => ?_⟩
    obtain rfl | houter := (reflTransGen_inward_iff hnext).1 houter
    · exact hnone
    · exact h.outermost outer houter hback

end FirstOffence

/-- With enough fuel, reading fails exactly for the outermost expression that is no link. The induction
is on the fuel, of which each step inwards takes one. -/
theorem pathWithin_eq_error_iff (hstore : store.Layered) (hid : (store.get? id).isSome = true)
    (hfuel : id.index < fuel) : pathWithin store fuel id = .error halt ↔
      ∃ node error, FirstOffence store id node error ∧ halt = .refused error := by
  induction fuel generalizing id with
  | zero => exact absurd hfuel (Nat.not_lt_zero _)
  | succ fuel ih =>
    obtain ⟨error, hoffends⟩ | ⟨hnone, ⟨hend, path, hpath⟩ | ⟨next, extend, hnext, hknown, hpath⟩⟩ :=
      offends_or_link hstore hid fuel
    · rw [pathWithin_of_offends hoffends]
      constructor
      · rintro ⟨⟩
        exact ⟨id, error, .here hstore hoffends, rfl⟩
      · rintro ⟨node, error', hfirst, rfl⟩
        rw [hfirst.eq_of_offends hoffends]
    · rw [hpath]
      refine ⟨nofun, ?_⟩
      rintro ⟨node, error, hfirst, -⟩
      obtain rfl | ⟨next, hnext, -⟩ := hfirst.way.cases_head
      · exact absurd hfirst.offends (hnone error)
      · exact absurd hnext (hend next)
    · have hlt := hnext.lt hstore
      simp only [FirstOffence.iff_of_inward hnext hnone]
      rw [hpath, ← ih hknown (by omega)]
      cases pathWithin store fuel next <;> simp [Except.map]

/-- Reading gives the path of an expression exactly if the expression is a chain that spells it. The
names of a path are never none: they are those of all calls on the way inwards, the oldest first. An
expression is a chain, or there is an outermost expression on its way inwards that is no link of one, and
then reading fails with the error of that expression. -/
theorem pathAt_spec (hstore : store.Layered) (hid : (store.get? id).isSome = true) :
    (∀ path, pathAt store id = .ok path ↔ Chain store id path) ∧
      (∀ path, Chain store id path → path.names ≠ [] ∧ ∃ calls : List ExprId,
        List.Forall₂ (Calls store) calls path.names ∧ calls.Pairwise (·.index < ·.index) ∧
          ∀ call, call ∈ calls ↔
            ReflTransGen (Inward store) id call ∧ ∃ name, Calls store call name) ∧
      ((∃ path, Chain store id path) ∨ ∃ node error, FirstOffence store id node error) ∧
      ∀ node error, FirstOffence store id node error →
        pathAt store id = .error (.refused error) := by
  obtain ⟨expr, hexpr⟩ := Option.isSome_iff_exists.1 hid
  have herror : ∀ halt, pathAt store id = .error halt ↔ _ := fun halt =>
    pathWithin_eq_error_iff hstore hid (Nat.lt_succ_of_lt (lt_size_of_get? hexpr))
  refine ⟨fun path => pathAt_eq_ok_iff, fun path hchain => ⟨nofun, hchain.calls hstore⟩, ?_, ?_⟩
  · cases hpath : pathAt store id with
    | ok path => exact Or.inl ⟨path, pathAt_eq_ok_iff.1 hpath⟩
    | error halt =>
      obtain ⟨node, error, hfirst, -⟩ := (herror halt).1 hpath
      exact Or.inr ⟨node, error, hfirst⟩
  · intro node error hfirst
    exact (herror _).2 ⟨node, error, hfirst, rfl⟩

namespace Sample

/-- `p()[COLLECTION].a()`, and `p()[COLLECTION].a()[b].mandatory()`. -/
def chains : ExprStore :=
  ⟨#[⟨.call none ⟨5⟩ ⟨0, 0⟩, ⟨0, 3⟩⟩, ⟨.field .collection, ⟨4, 14⟩⟩, ⟨.index ⟨0⟩ ⟨1⟩, ⟨0, 15⟩⟩,
    ⟨.call (some ⟨2⟩) ⟨6⟩ ⟨0, 0⟩, ⟨0, 19⟩⟩, ⟨.field ⟨7⟩, ⟨20, 21⟩⟩, ⟨.index ⟨3⟩ ⟨4⟩, ⟨0, 22⟩⟩,
    ⟨.call (some ⟨5⟩) .mandatory ⟨0, 0⟩, ⟨0, 34⟩⟩], #[]⟩

theorem layered_chains : chains.Layered := by
  constructor
  case receiver =>
    rintro ⟨index⟩ receiver name args span expr
    have hlt : index < 7 := lt_size_of_get? expr
    interval_cases index <;> cases expr <;> decide
  case array =>
    rintro ⟨index⟩ array position span expr
    have hlt : index < 7 := lt_size_of_get? expr
    interval_cases index <;> cases expr <;> decide
  case index =>
    rintro ⟨index⟩ array position span expr
    have hlt : index < 7 := lt_size_of_get? expr
    interval_cases index <;> cases expr <;> decide

end Sample

/-- A chain that is indexed by `COLLECTION`, and one that is indexed by something else further inside. -/
theorem pathAt_spec_sample :
    Sample.chains.Layered ∧ (Sample.chains.get? ⟨3⟩).isSome = true ∧
      (Sample.chains.get? ⟨6⟩).isSome = true ∧
      pathAt Sample.chains ⟨3⟩ = .ok ⟨⟨5⟩, [⟨6⟩]⟩ ∧
      pathAt Sample.chains ⟨6⟩ = .error (.refused (.invalidCollectionIndex ⟨20, 21⟩)) := by
  have hfirst : FirstOffence Sample.chains ⟨6⟩ ⟨5⟩ (.invalidCollectionIndex ⟨20, 21⟩) := by
    have hoffends : Offends Sample.chains ⟨5⟩ (.invalidCollectionIndex ⟨20, 21⟩) :=
      .index rfl (show Sample.chains.get? ⟨4⟩ = some ⟨.field ⟨7⟩, ⟨20, 21⟩⟩ from rfl) (by decide)
    have hnext : Inward Sample.chains ⟨6⟩ ⟨5⟩ := .receiver rfl
    exact (FirstOffence.iff_of_inward hnext fun _ => not_offends_of_plain rfl rfl).2
      (.here Sample.layered_chains hoffends)
  have hchain : Chain Sample.chains ⟨3⟩ ⟨⟨5⟩, [⟨6⟩]⟩ :=
    .member rfl rfl (.element rfl rfl rfl ⟨none, ⟨5⟩, ⟨0, 0⟩, rfl⟩ (.parameter rfl rfl))
  have hinner : (Sample.chains.get? ⟨3⟩).isSome = true := rfl
  have houter : (Sample.chains.get? ⟨6⟩).isSome = true := rfl
  exact ⟨Sample.layered_chains, hinner, houter,
    ((pathAt_spec Sample.layered_chains hinner).1 _).2 hchain,
    (pathAt_spec Sample.layered_chains houter).2.2.2 _ _ hfirst⟩

end Analysis

end InputDetail
