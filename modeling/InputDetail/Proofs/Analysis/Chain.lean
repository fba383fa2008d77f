import InputDetail.Analysis.Path
import Mathlib.Data.List.Nodup
import Mathlib.Data.List.Perm.Subperm

/-!
# Chains of calls

A path is spelled by a chain of calls. A chain comes to an end, so it visits no expression twice, and
there are no more links than expressions in the store: the bound under which paths are read never cuts
a chain off. What is no chain, because a reference is broken or leads back, spells no path.
-/
namespace InputDetail.Analysis

open ExprStore

/-- The expression is a chain of calls without arguments, each of which `[COLLECTION]` may follow, and
spells the path. -/
inductive Chain (store : ExprStore) : ExprId → Path → Prop
  /-- The innermost call names the parameter. -/
  | parameter {id name args span} (expr : store.get? id = some ⟨.call none name args, span⟩)
      (plain : args.isEmpty = true) : Chain store id ⟨name, []⟩
  | member {id receiver name args span path}
      (expr : store.get? id = some ⟨.call (some receiver) name args, span⟩)
      (plain : args.isEmpty = true) (chain : Chain store receiver path) : Chain store id (path.child name)
  | element {id array index span span' called path}
      (expr : store.get? id = some ⟨.index array index, span⟩)
      (collection : store.get? index = some ⟨.field .collection, span'⟩)
      (call : store.get? array = some called) (isCall : ∃ receiver name args,
        called.kind = .call receiver name args) (chain : Chain store array path) : Chain store id path

variable {store : ExprStore} {id : ExprId} {path : Path} {fuel : Nat}

theorem exprAt_eq_ok_iff {expr : Expr} : exprAt store id = .ok expr ↔ store.get? id = some expr := by
  rw [exprAt]
  cases store.get? id <;> simp

/-- Reading a path reads the first link and then the chain that the link leads to. -/
theorem pathWithin_succ_eq_ok_iff : pathWithin store (fuel + 1) id = .ok path ↔
    (∃ name args span, store.get? id = some ⟨.call none name args, span⟩ ∧ args.isEmpty = true ∧
      path = ⟨name, []⟩) ∨
    (∃ receiver name args span way, store.get? id = some ⟨.call (some receiver) name args, span⟩ ∧
      args.isEmpty = true ∧ pathWithin store fuel receiver = .ok way ∧ path = way.child name) ∨
    ∃ array index span span' called, store.get? id = some ⟨.index array index, span⟩ ∧
      store.get? index = some ⟨.field .collection, span'⟩ ∧ store.get? array = some called ∧
      (∃ receiver name args, called.kind = .call receiver name args) ∧
      pathWithin store fuel array = .ok path := by
  rw [pathWithin]
  cases hexpr : store.get? id with
  | none => simp [exprAt, hexpr, bind, Except.bind]
  | some expr =>
  obtain ⟨kind, span⟩ := expr
  simp only [exprAt, hexpr, bind, Except.bind]
  cases kind with
  | field name => simp [unsupported, refuse]
  | call receiver name args =>
    cases hargs : args.isEmpty with
    | false => cases receiver <;> simp [hargs, unsupported, refuse]
    | true =>
      cases receiver with
      | none => simp [hargs, pure, Except.pure, eq_comm (a := path)]
      | some receiver =>
        cases hway : pathWithin store fuel receiver with
        | error halt => simp [hargs, hway]
        | ok way => simp [hargs, hway, pure, Except.pure, eq_comm (a := path)]
  | index array index =>
    cases hindex : store.get? index with
    | none => simp [hindex]
    | some indexed =>
    obtain ⟨kind, span'⟩ := indexed
    by_cases hkind : kind = .field .collection
    · subst hkind
      cases harray : store.get? array with
      | none => simp [hindex, harray]
      | some called =>
        obtain ⟨kind, span''⟩ := called
        cases kind <;> simp [unsupported, refuse, hindex, harray]
    · simp [hkind, refuse, hindex]

theorem chain_of_pathWithin (h : pathWithin store fuel id = .ok path) : Chain store id path := by
  induction fuel generalizing id path with
  | zero => cases h
  | succ fuel ih =>
    obtain ⟨name, args, span, hexpr, hargs, rfl⟩ |
      ⟨receiver, name, args, span, way, hexpr, hargs, hway, rfl⟩ |
      ⟨array, index, span, span', called, hexpr, hindex, hcalled, hcall, hway⟩ :=
        pathWithin_succ_eq_ok_iff.1 h
    · exact .parameter hexpr hargs
    · exact .member hexpr hargs (ih hway)
    · exact .element hexpr hindex hcalled hcall (ih hway)

/-- More fuel does no harm. -/
theorem pathWithin_succ (h : pathWithin store fuel id = .ok path) :
    pathWithin store (fuel + 1) id = .ok path := by
  induction fuel generalizing id path with
  | zero => cases h
  | succ fuel ih =>
    rw [pathWithin_succ_eq_ok_iff] at h ⊢
    obtain hfirst | ⟨receiver, name, args, span, way, hexpr, hargs, hway, rfl⟩ |
      ⟨array, index, span, span', called, hexpr, hindex, hcalled, hcall, hway⟩ := h
    · exact Or.inl hfirst
    · exact Or.inr (Or.inl ⟨receiver, name, args, span, way, hexpr, hargs, ih hway, rfl⟩)
    · exact Or.inr (Or.inr ⟨array, index, span, span', called, hexpr, hindex, hcalled, hcall, ih hway⟩)

theorem pathWithin_mono {fuel' : Nat} (hle : fuel ≤ fuel') (h : pathWithin store fuel id = .ok path) :
    pathWithin store fuel' id = .ok path := by
  induction hle with
  | refl => exact h
  | step _ ih => exact pathWithin_succ ih

/-- The expressions that reading a path visits. As many links are read as there are expressions, and
with less fuel the reading fails. -/
structure Visits (store : ExprStore) (id : ExprId) (path : Path) (visited : List ExprId) : Prop where
  reads : pathWithin store visited.length id = .ok path
  needs : ∀ fuel < visited.length, ∀ way, pathWithin store fuel id ≠ .ok way
  nodup : visited.Nodup
  known : ∀ other ∈ visited, other.index < store.size ∧
    ∃ way, pathWithin store visited.length other = .ok way

/-- One more link. The new expression has not been visited, because it takes more fuel than all others
have. -/
theorem Visits.cons {next : ExprId} {way : Path} {visited : List ExprId}
    (h : Visits store next way visited) (hlt : id.index < store.size)
    (hreads : pathWithin store (visited.length + 1) id = .ok path)
    (hneeds : ∀ fuel path, pathWithin store (fuel + 1) id = .ok path →
      ∃ way, pathWithin store fuel next = .ok way) : Visits store id path (id :: visited) := by
  have hneeds' : ∀ fuel < (id :: visited).length, ∀ way, pathWithin store fuel id ≠ .ok way := by
    intro fuel hfuel way hway
    cases fuel with
    | zero => cases hway
    | succ fuel =>
      obtain ⟨way', hway'⟩ := hneeds fuel way hway
      exact h.needs fuel (Nat.lt_of_succ_lt_succ hfuel) way' hway'
  constructor
  case reads => exact hreads
  case needs => exact hneeds'
  case nodup =>
    refine List.nodup_cons.2 ⟨fun hmem => ?_, h.nodup⟩
    obtain ⟨-, way', hway'⟩ := h.known id hmem
    exact hneeds' visited.length (Nat.lt_succ_self _) way' hway'
  case known =>
    intro other hmem
    obtain rfl | hmem := List.mem_cons.1 hmem
    · exact ⟨hlt, path, hreads⟩
    · obtain ⟨hlt', way', hway'⟩ := h.known other hmem
      exact ⟨hlt', way', pathWithin_succ hway'⟩

theorem Chain.visits (h : Chain store id path) : ∃ visited, Visits store id path visited := by
  induction h with
  | @parameter id name args span expr plain =>
    have hreads : pathWithin store 1 id = .ok ⟨name, []⟩ :=
      pathWithin_succ_eq_ok_iff.2 (Or.inl ⟨name, args, span, expr, plain, rfl⟩)
    refine ⟨[id], hreads, ?_, List.nodup_singleton id, ?_⟩
    · intro fuel hfuel way hway
      obtain rfl : fuel = 0 := Nat.lt_one_iff.1 hfuel
      cases hway
    · intro other hmem
      obtain rfl := List.mem_singleton.1 hmem
      exact ⟨lt_size_of_get? expr, _, hreads⟩
  | @member id receiver name args span path expr plain _ ih =>
    obtain ⟨visited, hvisits⟩ := ih
    refine ⟨id :: visited, hvisits.cons (lt_size_of_get? expr) ?_ ?_⟩
    · exact pathWithin_succ_eq_ok_iff.2
        (Or.inr (Or.inl ⟨receiver, name, args, span, path, expr, plain, hvisits.reads, rfl⟩))
    · intro fuel path' hpath'
      rw [pathWithin_succ_eq_ok_iff, expr] at hpath'
      obtain ⟨_, _, _, ⟨⟩, -⟩ | ⟨_, _, _, _, way, ⟨⟩, -, hway, -⟩ | ⟨_, _, _, _, _, ⟨⟩, -⟩ := hpath'
      exact ⟨way, hway⟩
  | @element id array index span span' called path expr collection call isCall _ ih =>
    obtain ⟨visited, hvisits⟩ := ih
    refine ⟨id :: visited, hvisits.cons (lt_size_of_get? expr) ?_ ?_⟩
    · exact pathWithin_succ_eq_ok_iff.2
        (Or.inr (Or.inr ⟨array, index, span, span', called, expr, collection, call, isCall,
          hvisits.reads⟩))
    · intro fuel path' hpath'
      rw [pathWithin_succ_eq_ok_iff, expr] at hpath'
      obtain ⟨_, _, _, ⟨⟩, -⟩ | ⟨_, _, _, _, _, ⟨⟩, -⟩ | ⟨_, _, _, _, _, ⟨⟩, -, -, -, hway⟩ := hpath'
      exact ⟨path', hway⟩

/-- There are no more expressions than the store holds. -/
theorem length_le_size {visited : List ExprId} (hnodup : visited.Nodup)
    (hknown : ∀ other ∈ visited, other.index < store.size) : visited.length ≤ store.size := by
  have hinjective : Function.Injective ExprId.index := by
    rintro ⟨a⟩ ⟨b⟩ hab
    exact congrArg ExprId.mk hab
  have hsubset : visited.map ExprId.index ⊆ List.range store.size := by
    intro index hindex
    obtain ⟨other, hmem, rfl⟩ := List.mem_map.1 hindex
    exact List.mem_range.2 (hknown other hmem)
  simpa using ((hnodup.map hinjective).subperm hsubset).length_le

theorem Visits.length_le {visited : List ExprId} (h : Visits store id path visited) :
    visited.length ≤ store.size :=
  length_le_size h.nodup fun other hmem => (h.known other hmem).1

/-- The path of an expression is read exactly if the expression is a chain that spells it. -/
theorem pathAt_eq_ok_iff : pathAt store id = .ok path ↔ Chain store id path := by
  refine ⟨chain_of_pathWithin, fun h => ?_⟩
  obtain ⟨visited, hvisits⟩ := h.visits
  exact pathWithin_mono (Nat.le_succ_of_le hvisits.length_le) hvisits.reads

end InputDetail.Analysis
