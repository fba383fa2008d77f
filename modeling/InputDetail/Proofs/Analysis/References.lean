import InputDetail.Proofs.Analysis.Declarations
import Mathlib.Logic.Relation

/-!
# Sound stores

A store is sound if whatever an expression refers to is there, and no expression refers back to itself.
A statement of a sound store is checked to its end: it is planned, or it is refused for a defect of the
documentation.
-/
namespace InputDetail

namespace ExprStore

variable {store : ExprStore} {id next : ExprId}

/-- An expression refers to its receiver, its arguments, or both parts of an indexing. -/
inductive Refers (store : ExprStore) : ExprId → ExprId → Prop
  | receiver {id target name range span}
      (expr : store.get? id = some ⟨.call (some target) name range, span⟩) : Refers store id target
  | argument {id receiver name range span ids target}
      (expr : store.get? id = some ⟨.call receiver name range, span⟩)
      (list : store.args? range = some ids) (mem : target ∈ ids) : Refers store id target
  | array {id array index span} (expr : store.get? id = some ⟨.index array index, span⟩) :
      Refers store id array
  | index {id array index span} (expr : store.get? id = some ⟨.index array index, span⟩) :
      Refers store id index

/-- All references are in range and none leads back. -/
structure Sound (store : ExprStore) : Prop where
  lists : ∀ {id receiver name range span},
    store.get? id = some ⟨.call receiver name range, span⟩ → (store.args? range).isSome = true
  known : ∀ {id next}, store.Refers id next → (store.get? next).isSome = true
  acyclic : ∀ id, ¬ Relation.TransGen store.Refers id id

/-- A way along references meets no expression twice. -/
theorem Sound.nodup_of_isChain (h : store.Sound) {visited : List ExprId}
    (hchain : visited.IsChain store.Refers) : visited.Nodup := by
  have hreach : visited.IsChain (Relation.TransGen store.Refers) :=
    hchain.imp fun _ _ => Relation.TransGen.single
  refine hreach.pairwise.imp fun {a b} hab heq => ?_
  subst heq
  exact h.acyclic a hab

/-- All expressions on a way along references are in the store. -/
theorem Sound.known_of_isChain (h : store.Sound) {visited : List ExprId}
    (hchain : (id :: visited).IsChain store.Refers) (hid : (store.get? id).isSome = true) :
    ∀ other ∈ id :: visited, (store.get? other).isSome = true := by
  induction visited generalizing id with
  | nil => simpa using hid
  | cons next visited ih =>
    obtain ⟨hrefers, hrest⟩ := List.isChain_cons_cons.1 hchain
    intro other hmem
    obtain rfl | hmem := List.mem_cons.1 hmem
    · exact hid
    · exact ih hrest (h.known hrefers) other hmem

/-- A way along references has less steps than the store has expressions. -/
theorem Sound.length_lt (h : store.Sound) {visited : List ExprId}
    (hchain : (id :: visited).IsChain store.Refers) (hid : (store.get? id).isSome = true) :
    visited.length < store.size := by
  refine Analysis.length_le_size (h.nodup_of_isChain hchain) fun other hmem => ?_
  obtain ⟨expr, hexpr⟩ := Option.isSome_iff_exists.1 (h.known_of_isChain hchain hid other hmem)
  exact lt_size_of_get? hexpr

/-- Every call has its arguments, and what an expression refers to is older than it, as in a store that
is written from the inside outwards. -/
structure Ordered (store : ExprStore) : Prop where
  lists : ∀ {id receiver name range span},
    store.get? id = some ⟨.call receiver name range, span⟩ → (store.args? range).isSome = true
  older : ∀ {id next}, store.Refers id next → next.index < id.index

theorem Refers.known (h : store.Refers id next) : (store.get? id).isSome = true := by
  cases h <;> simp_all

/-- What refers to older expressions only never refers to itself. -/
theorem Ordered.sound (h : store.Ordered) : store.Sound := by
  have hlt : ∀ {id next}, Relation.TransGen store.Refers id next → next.index < id.index := by
    intro id next hway
    induction hway with
    | single hrefers => exact h.older hrefers
    | tail _ hrefers ih => exact Nat.lt_trans (h.older hrefers) ih
  constructor
  case lists => exact h.lists
  case known =>
    intro id next hrefers
    have hid : id.index < store.size := by simpa [get?, size] using hrefers.known
    have hnext : next.index < store.size := Nat.lt_trans (h.older hrefers) hid
    simpa [get?, size] using hnext
  case acyclic =>
    intro id hway
    exact Nat.lt_irrefl _ (hlt hway)

end ExprStore

namespace Analysis

open ExprStore

variable {store : ExprStore} {id : ExprId} {fuel : Nat} {halt : Halt}

/-- The documentation is refused, and not for a fault of the analysis itself. -/
def Halt.Defect (halt : Halt) : Prop :=
  ∃ error, halt = .refused error ∧ ∀ cause, error ≠ .internal cause

/-- The check fails for defects of the documentation only. -/
def Checked {α : Type} (check : Except Halt α) : Prop := ∀ halt, check = .error halt → halt.Defect

theorem checked_ok {α : Type} (a : α) : Checked (.ok a) := by
  intro halt h
  cases h

theorem checked_refuse {α : Type} {error : AnalysisError} (h : ∀ cause, error ≠ .internal cause) :
    Checked (refuse (α := α) error) := by
  intro halt hhalt
  cases hhalt
  exact ⟨error, rfl, h⟩

theorem checked_unsupported {α : Type} (span : Span) (cause : Unsupported) :
    Checked (unsupported (α := α) span cause) := checked_refuse nofun

theorem checked_bind {α β : Type} {check : Except Halt α} {next : α → Except Halt β}
    (h : Checked check) (hnext : ∀ a, check = .ok a → Checked (next a)) : Checked (check >>= next) := by
  cases hcheck : check with
  | error halt =>
    intro halt' hhalt'
    cases hhalt'
    exact h halt hcheck
  | ok a => exact hnext a hcheck

theorem checked_exprAt (hid : (store.get? id).isSome = true) : Checked (exprAt store id) := by
  obtain ⟨expr, hexpr⟩ := Option.isSome_iff_exists.1 hid
  rw [exprAt, hexpr]
  exact checked_ok expr

theorem checked_argsAt {range : ArgRange} (hrange : (store.args? range).isSome = true) :
    Checked (argsAt store range) := by
  obtain ⟨ids, hids⟩ := Option.isSome_iff_exists.1 hrange
  rw [argsAt, hids]
  exact checked_ok ids

theorem argsAt_eq_ok_iff {range : ArgRange} {ids : List ExprId} :
    argsAt store range = .ok ids ↔ store.args? range = some ids := by
  rw [argsAt]
  cases store.args? range <;> simp

/-- Reading a path of a sound store fails for a defect of its first link, or at the link behind. -/
theorem pathWithin_succ_error (hsound : store.Sound) (hid : (store.get? id).isSome = true)
    (h : pathWithin store (fuel + 1) id = .error halt) :
    halt.Defect ∨ ∃ next, store.Refers id next ∧ pathWithin store fuel next = .error halt := by
  obtain ⟨⟨kind, span⟩, hexpr⟩ := Option.isSome_iff_exists.1 hid
  rw [pathWithin, exprAt_eq_ok_iff.2 hexpr] at h
  simp only [bind, Except.bind] at h
  cases kind with
  | field name => exact Or.inl (checked_unsupported span _ halt h)
  | call receiver name range =>
    simp only at h
    split at h
    · cases receiver with
      | none => cases h
      | some receiver =>
        refine Or.inr ⟨receiver, .receiver hexpr, ?_⟩
        cases hway : pathWithin store fuel receiver with
        | error halt' => simpa [hway] using h
        | ok way => simp [hway, pure, Except.pure] at h
    · exact Or.inl (checked_unsupported span _ halt h)
  | index array index =>
    obtain ⟨place, hplace⟩ := Option.isSome_iff_exists.1 (hsound.known (.index hexpr))
    obtain ⟨called, hcalled⟩ := Option.isSome_iff_exists.1 (hsound.known (.array hexpr))
    simp only [exprAt_eq_ok_iff.2 hplace, exprAt_eq_ok_iff.2 hcalled] at h
    split at h
    · split at h
      · exact Or.inr ⟨array, .array hexpr, h⟩
      · exact Or.inl (checked_unsupported span _ halt h)
    · exact Or.inl (checked_refuse (by nofun) halt h)

/-- Reading a path of a sound store fails for a defect, or after as many links as it has fuel. -/
theorem pathWithin_error (hsound : store.Sound) (hid : (store.get? id).isSome = true)
    (h : pathWithin store fuel id = .error halt) :
    halt.Defect ∨ ∃ visited, visited.length = fuel ∧ (id :: visited).IsChain store.Refers := by
  induction fuel generalizing id with
  | zero => exact Or.inr ⟨[], rfl, List.IsChain.singleton id⟩
  | succ fuel ih =>
    obtain hdefect | ⟨next, hrefers, hnext⟩ := pathWithin_succ_error hsound hid h
    · exact Or.inl hdefect
    · obtain hdefect | ⟨visited, hlength, hchain⟩ := ih (hsound.known hrefers) hnext
      · exact Or.inl hdefect
      · exact Or.inr ⟨next :: visited, by simp [hlength], .cons_cons hrefers hchain⟩

/-- No path of a sound store leads on for ever: the fuel is more than the references that can be followed
without meeting an expression twice. -/
theorem checked_pathAt (hsound : store.Sound) (hid : (store.get? id).isSome = true) :
    Checked (pathAt store id) := by
  intro halt h
  obtain hdefect | ⟨visited, hlength, hchain⟩ := pathWithin_error hsound hid h
  · exact hdefect
  · have hlt := hsound.length_lt hchain hid
    omega

/-- A marker refers to the path inside. -/
theorem refers_of_markerAt {status : Status} {inner : ExprId}
    (h : markerAt store id = .ok (some (status, inner))) : store.Refers id inner := by
  obtain ⟨name, range, span, hexpr, -, hargs⟩ := markerAt_eq_some_iff.1 h
  exact .argument hexpr hargs (List.mem_singleton_self inner)

theorem checked_markerAt (hsound : store.Sound) (hid : (store.get? id).isSome = true) :
    Checked (markerAt store id) := by
  unfold markerAt
  refine checked_bind (checked_exprAt hid) fun expr hexpr => ?_
  obtain ⟨kind, span⟩ := expr
  cases kind with
  | index array index => exact checked_ok none
  | field name => exact checked_ok none
  | call receiver name range =>
    simp only
    split
    · exact checked_ok none
    · split
      · exact checked_unsupported span _
      · refine checked_bind (checked_argsAt (hsound.lists (exprAt_eq_ok_iff.1 hexpr))) ?_
        intro ids hids
        split
        · exact checked_ok _
        · exact checked_unsupported span _

theorem checked_alternationAt (hsound : store.Sound) {span : Span} {receiver : Option ExprId}
    {name : Name} {range : ArgRange} (hexpr : store.get? id = some ⟨.call receiver name range, span⟩) :
    Checked (alternationAt store span receiver range) := by
  unfold alternationAt
  simp only
  split
  · exact checked_refuse nofun
  · refine checked_bind (checked_argsAt (hsound.lists hexpr)) fun ids hids => ?_
    rw [argsAt_eq_ok_iff] at hids
    split
    · next first second =>
      have hfirst := hsound.known (.argument hexpr hids List.mem_cons_self)
      have hsecond := hsound.known (.argument hexpr hids (List.mem_cons_of_mem _ List.mem_cons_self))
      refine checked_bind (checked_markerAt hsound hfirst) fun primary _ => ?_
      refine checked_bind (checked_markerAt hsound hsecond) fun secondary _ => ?_
      split
      · split
        · exact checked_ok _
        · exact checked_refuse nofun
      · exact checked_refuse nofun
    · exact checked_refuse nofun

theorem checked_declarationAt (hsound : store.Sound) (hid : (store.get? id).isSome = true) :
    Checked (declarationAt store id) := by
  unfold declarationAt
  refine checked_bind (checked_markerAt hsound hid) fun marked _ => ?_
  split <;> exact checked_ok _

theorem checked_statementAt (hsound : store.Sound) (hid : (store.get? id).isSome = true) :
    Checked (statementAt store id) := by
  unfold statementAt
  refine checked_bind (checked_exprAt hid) fun expr hexpr => ?_
  obtain ⟨kind, span⟩ := expr
  cases kind with
  | index array index => exact checked_declarationAt hsound hid
  | field name => exact checked_declarationAt hsound hid
  | call receiver name range =>
    simp only
    split
    · exact checked_alternationAt hsound (exprAt_eq_ok_iff.1 hexpr)
    · exact checked_declarationAt hsound hid

/-- An alternation has two sides with the same marker. -/
theorem alternationAt_cases {span : Span} {receiver : Option ExprId} {range : ArgRange}
    {statement : Statement} (h : alternationAt store span receiver range = .ok statement) :
    ∃ first second status primary secondary, store.args? range = some [first, second] ∧
      markerAt store first = .ok (some (status, primary)) ∧
      markerAt store second = .ok (some (status, secondary)) ∧
      statement = .alternation span status primary secondary := by
  unfold alternationAt at h
  simp only at h
  split at h
  · cases h
  · cases hargs : argsAt store range with
    | error halt => simp [hargs, bind, Except.bind] at h
    | ok ids =>
    simp only [hargs, bind, Except.bind] at h
    split at h
    · next first second =>
      cases hfirst : markerAt store first with
      | error halt => simp [hfirst] at h
      | ok one =>
      cases hsecond : markerAt store second with
      | error halt => simp [hfirst, hsecond] at h
      | ok other =>
      simp only [hfirst, hsecond] at h
      split at h
      · next status primary status' secondary =>
        split at h
        · next hsame =>
          subst hsame
          cases h
          exact ⟨first, second, status, primary, secondary, argsAt_eq_ok_iff.1 hargs, hfirst, hsecond,
            rfl⟩
        · cases h
      · cases h
    · cases h

/-- The paths that a statement is about. -/
def Statement.paths : Statement → List ExprId
  | .declaration _ path => [path]
  | .alternation _ _ primary secondary => [primary, secondary]

/-- The paths of a declaration are in the store. -/
theorem known_of_declarationAt (hsound : store.Sound) (hid : (store.get? id).isSome = true)
    {statement : Statement} (h : declarationAt store id = .ok statement) :
    ∀ path ∈ statement.paths, (store.get? path).isSome = true := by
  unfold declarationAt at h
  cases hmarked : markerAt store id with
  | error halt => simp [hmarked, bind, Except.bind] at h
  | ok marked =>
    rw [hmarked] at h
    obtain _ | ⟨status, inner⟩ := marked
    · cases h
      simpa [Statement.paths] using hid
    · cases h
      simpa [Statement.paths] using hsound.known (refers_of_markerAt hmarked)

/-- The paths of a statement are in the store. -/
theorem known_of_statementAt (hsound : store.Sound) (hid : (store.get? id).isSome = true)
    {statement : Statement} (h : statementAt store id = .ok statement) :
    ∀ path ∈ statement.paths, (store.get? path).isSome = true := by
  obtain ⟨⟨kind, span⟩, hexpr⟩ := Option.isSome_iff_exists.1 hid
  rw [statementAt, exprAt_eq_ok_iff.2 hexpr] at h
  simp only [bind, Except.bind] at h
  split at h
  · split at h
    · obtain ⟨first, second, status, primary, secondary, -, hfirst, hsecond, rfl⟩ :=
        alternationAt_cases h
      have hprimary := hsound.known (refers_of_markerAt hfirst)
      have hsecondary := hsound.known (refers_of_markerAt hsecond)
      simp [Statement.paths, hprimary, hsecondary]
    · exact known_of_declarationAt hsound hid h
  · exact known_of_declarationAt hsound hid h

end Analysis

end InputDetail
