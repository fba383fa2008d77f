import InputDetail.Proofs.Analysis.References
import InputDetail.Proofs.Document.Unfolding

/-!
# Nested stores

A term is written from the inside outwards. So a store into which terms are written stays ordered: what
an expression refers to is older than it. If the spans of the terms are nested, then the spans of the
expressions are.
-/
namespace InputDetail

/-- A range of the first `limit` bytes. -/
def Span.Within (limit : Nat) (span : Span) : Prop := span.start ≤ span.stop ∧ span.stop ≤ limit

theorem Span.Within.mono {limit larger : Nat} {span : Span} (h : span.Within limit)
    (hle : limit ≤ larger) : span.Within larger := ⟨h.1, Nat.le_trans h.2 hle⟩

namespace ExprStore

variable {store : ExprStore} {limit : Nat} {id next : ExprId} {expr other : Expr}

/-- What an expression of this kind refers to. -/
def parts (store : ExprStore) : ExprKind → List ExprId
  | .call receiver _ range => receiver.toList ++ (store.args? range).getD []
  | .index array index => [array, index]
  | .field _ => []

theorem refers_iff : store.Refers id next ↔
    ∃ expr, store.get? id = some expr ∧ next ∈ store.parts expr.kind := by
  constructor
  · intro h
    cases h with
    | receiver expr => exact ⟨_, expr, by simp [parts]⟩
    | argument expr list mem => exact ⟨_, expr, by simp [parts, list, mem]⟩
    | array expr => exact ⟨_, expr, by simp [parts]⟩
    | index expr => exact ⟨_, expr, by simp [parts]⟩
  · rintro ⟨⟨kind, span⟩, hexpr, hpart⟩
    cases kind with
    | field name => cases hpart
    | index array index =>
      obtain rfl | rfl : next = array ∨ next = index := by simpa [parts] using hpart
      · exact .array hexpr
      · exact .index hexpr
    | call receiver name range =>
      obtain hreceiver | harg := List.mem_append.1 hpart
      · obtain rfl : receiver = some next := by simpa using hreceiver
        exact .receiver hexpr
      · cases hlist : store.args? range with
        | none => simp [hlist] at harg
        | some ids => exact .argument hexpr hlist (by simpa [hlist] using harg)

theorem get?_push_cases (h : (store.push expr).2.get? id = some other) :
    store.get? id = some other ∨ id = (store.push expr).1 ∧ other = expr := by
  simp only [push, get?, Array.getElem?_push] at h ⊢
  split at h
  · next hid => exact Or.inr ⟨congrArg ExprId.mk hid, (Option.some.inj h).symm⟩
  · exact Or.inl h

/-- The store is ordered, all spans are ranges of the first `limit` bytes, and each reaches over the
spans of what the expression refers to. -/
structure Nested (limit : Nat) (store : ExprStore) : Prop extends store.Ordered where
  within : ∀ {id expr}, store.get? id = some expr → expr.span.Within limit
  covers : ∀ {id next expr}, store.get? id = some expr → store.Refers id next →
    ∃ part, store.get? next = some part ∧ expr.span.Covers part.span

theorem nested_empty (limit : Nat) : empty.Nested limit := by
  have hnone : ∀ id, empty.get? id = none := fun _ => rfl
  constructor
  case toOrdered => exact ⟨fun h => by simp [hnone] at h, fun h => by simpa [hnone] using h.known⟩
  case within => exact fun h => by simp [hnone] at h
  case covers => exact fun h => by simp [hnone] at h

/-- New argument lists change no reference. -/
theorem Nested.pushArgs (h : store.Nested limit) (ids : List ExprId) :
    (store.pushArgs ids).2.Nested limit := by
  have hrefers : ∀ {id next}, (store.pushArgs ids).2.Refers id next → store.Refers id next := by
    intro id next hrefers
    cases hrefers with
    | receiver expr => exact .receiver expr
    | array expr => exact .array expr
    | index expr => exact .index expr
    | argument expr list mem =>
      obtain ⟨known, hknown⟩ := Option.isSome_iff_exists.1 (h.lists expr)
      rw [args?_pushArgs_of_some hknown] at list
      cases list
      exact .argument expr hknown mem
  constructor
  case within => exact h.within
  case covers => exact fun hexpr hnext => h.covers hexpr (hrefers hnext)
  case toOrdered =>
    constructor
    case older => exact fun hnext => h.older (hrefers hnext)
    case lists =>
      intro id receiver name range span hexpr
      obtain ⟨known, hknown⟩ := Option.isSome_iff_exists.1 (h.lists hexpr)
      rw [args?_pushArgs_of_some hknown]
      rfl

/-- A new expression that refers to expressions of the store, and whose span reaches over theirs. -/
theorem Nested.push (h : store.Nested limit) (hwithin : expr.span.Within limit)
    (hlists : ∀ {receiver name range}, expr.kind = .call receiver name range →
      (store.args? range).isSome = true)
    (hcovers : ∀ next ∈ store.parts expr.kind,
      ∃ part, store.get? next = some part ∧ expr.span.Covers part.span) :
    (store.push expr).2.Nested limit := by
  have hgrow := extends_push store expr
  constructor
  case within =>
    intro id other hother
    obtain hold | ⟨-, rfl⟩ := get?_push_cases hother
    · exact h.within hold
    · exact hwithin
  case covers =>
    intro id next other hother hrefers
    obtain ⟨other', hother', hpart⟩ := refers_iff.1 hrefers
    obtain rfl := Option.some.inj (hother.symm.trans hother')
    obtain hold | ⟨-, rfl⟩ := get?_push_cases hother
    · obtain ⟨part, hget, hover⟩ := h.covers hold (refers_iff.2 ⟨other, hold, hpart⟩)
      exact ⟨part, hgrow.expr hget, hover⟩
    · obtain ⟨part, hget, hover⟩ := hcovers next hpart
      exact ⟨part, hgrow.expr hget, hover⟩
  case toOrdered =>
    constructor
    case lists =>
      intro id receiver name range span hother
      obtain hold | ⟨-, heq⟩ := get?_push_cases hother
      · exact h.lists hold
      · exact hlists (by rw [← heq])
    case older =>
      intro id next hrefers
      obtain ⟨other, hother, hpart⟩ := refers_iff.1 hrefers
      obtain hold | ⟨rfl, rfl⟩ := get?_push_cases hother
      · exact h.older (refers_iff.2 ⟨other, hold, hpart⟩)
      · obtain ⟨part, hget, -⟩ := hcovers next hpart
        exact lt_size_of_get? hget

/-- A new call with its arguments. -/
theorem Nested.call (h : store.Nested limit) {receiver : Option ExprId} {ids : List ExprId}
    {span : Span} (hwithin : span.Within limit)
    (hcovers : ∀ next ∈ receiver.toList ++ ids,
      ∃ part, store.get? next = some part ∧ span.Covers part.span) (name : Name) :
    ((store.pushArgs ids).2.push
      ⟨.call receiver name (store.pushArgs ids).1, span⟩).2.Nested limit := by
  have hlist : (store.pushArgs ids).2.args? (store.pushArgs ids).1 = some ids :=
    args?_pushArgs_self store ids
  refine (h.pushArgs ids).push hwithin (fun hkind => ?_) fun next hpart => ?_
  · cases hkind
    rw [hlist]
    rfl
  · rw [parts, hlist] at hpart
    exact hcovers next hpart

end ExprStore

namespace Document.Term

open ExprStore

variable {α β : Type} {limit larger : Nat} {into : ExprStore}

mutual

/-- The spans in the term are ranges of the first `limit` bytes, and each reaches over those inside. -/
def Nested (limit : Nat) : Term α → Prop
  | call _ args span => span.Within limit ∧ NestedAll limit span args
  | access receiver _ args span =>
    span.Within limit ∧ span.Covers receiver.span ∧ Nested limit receiver ∧
      NestedAll limit span args
  | index array _ fieldSpan span =>
    span.Within limit ∧ span.Covers array.span ∧ span.Covers fieldSpan ∧ fieldSpan.Within limit ∧
      Nested limit array

/-- All terms are nested, and their spans lie in one span. -/
def NestedAll (limit : Nat) (outer : Span) : List (Term α) → Prop
  | [] => True
  | term :: terms => outer.Covers term.span ∧ Nested limit term ∧ NestedAll limit outer terms

end

theorem nestedAll_iff {outer : Span} {terms : List (Term α)} :
    NestedAll limit outer terms ↔ ∀ term ∈ terms, outer.Covers term.span ∧ term.Nested limit := by
  induction terms with
  | nil => simp [NestedAll]
  | cons term terms ih => rw [NestedAll, ih, List.forall_mem_cons, and_assoc]

theorem Nested.within {term : Term α} (h : term.Nested limit) : term.span.Within limit := by
  cases term <;> exact h.1

mutual

theorem Nested.mono (hle : limit ≤ larger) :
    (term : Term α) → term.Nested limit → term.Nested larger
  | call _ args _, ⟨hspan, hargs⟩ => ⟨hspan.mono hle, NestedAll.mono hle args hargs⟩
  | access receiver _ args _, ⟨hspan, hover, hreceiver, hargs⟩ =>
    ⟨hspan.mono hle, hover, hreceiver.mono hle receiver, NestedAll.mono hle args hargs⟩
  | index array _ _ _, ⟨hspan, hover, hfield, hwithin, harray⟩ =>
    ⟨hspan.mono hle, hover, hfield, hwithin.mono hle, harray.mono hle array⟩

theorem NestedAll.mono (hle : limit ≤ larger) {outer : Span} :
    (terms : List (Term α)) → NestedAll limit outer terms → NestedAll larger outer terms
  | [], _ => trivial
  | term :: terms, ⟨hover, hterm, hterms⟩ =>
    ⟨hover, hterm.mono hle term, NestedAll.mono hle terms hterms⟩

end

@[simp] theorem span_map (f : α → β) (term : Term α) : (term.map f).span = term.span := by
  cases term <;> rfl

mutual

/-- Replacing identifiers changes no span. -/
theorem Nested.map (f : α → β) : (term : Term α) → term.Nested limit → (term.map f).Nested limit
  | call _ args _, ⟨hspan, hargs⟩ => ⟨hspan, NestedAll.mapAll f args hargs⟩
  | access receiver _ args _, ⟨hspan, hover, hreceiver, hargs⟩ =>
    ⟨hspan, by rwa [span_map], hreceiver.map f receiver, NestedAll.mapAll f args hargs⟩
  | index array _ _ _, ⟨hspan, hover, hfield, hwithin, harray⟩ =>
    ⟨hspan, by rwa [span_map], hfield, hwithin, harray.map f array⟩

theorem NestedAll.mapAll (f : α → β) {outer : Span} :
    (terms : List (Term α)) → NestedAll limit outer terms → NestedAll limit outer (mapAll f terms)
  | [], _ => trivial
  | term :: terms, ⟨hover, hterm, hterms⟩ =>
    ⟨by rwa [span_map], hterm.map f term, NestedAll.mapAll f terms hterms⟩

end

theorem get?_store (term : Term Name) (into : ExprStore) :
    ∃ expr, (term.store into).2.get? (term.store into).1 = some expr ∧ expr.span = term.span := by
  cases term <;> exact ⟨_, get?_push_self .., rfl⟩

mutual

/-- A nested store stays nested when a nested term is written into it. -/
theorem Nested.store : (term : Term Name) → (into : ExprStore) → term.Nested limit →
    into.Nested limit → (term.store into).2.Nested limit
  | .call name args span, into, ⟨hspan, hargs⟩, hinto => by
    obtain ⟨hwritten, hcovers⟩ := hargs.storeAll args into hinto
    exact hwritten.call hspan hcovers name
  | .access receiver name args span, into, ⟨hspan, hover, hreceiver, hargs⟩, hinto => by
    have htarget := hreceiver.store receiver into hinto
    obtain ⟨hwritten, hcovers⟩ := hargs.storeAll args (receiver.store into).2 htarget
    refine hwritten.call hspan (fun next hnext => ?_) name
    obtain hnext | hnext := List.mem_append.1 hnext
    · obtain rfl := Option.mem_some.1 (Option.mem_toList.1 hnext)
      obtain ⟨expr, hget, heq⟩ := get?_store receiver into
      exact ⟨expr, (storeAll_spec args _).1.expr hget, by rwa [heq]⟩
    · exact hcovers next hnext
  | .index array field fieldSpan span, into, ⟨hspan, hover, hfield, hwithin, harray⟩, hinto => by
    have htarget := harray.store array into hinto
    obtain ⟨expr, hget, heq⟩ := get?_store array into
    have hgrow := extends_push (array.store into).2 ⟨.field field, fieldSpan⟩
    have hbare : ((array.store into).2.push ⟨.field field, fieldSpan⟩).2.Nested limit :=
      htarget.push hwithin (by intros; contradiction) (by simp [parts])
    refine hbare.push hspan (by intros; contradiction)
      (List.forall_mem_cons.2 ⟨?_, List.forall_mem_singleton.2 ?_⟩)
    · exact ⟨expr, hgrow.expr hget, by rwa [heq]⟩
    · exact ⟨_, get?_push_self .., hfield⟩

theorem NestedAll.storeAll {outer : Span} : (terms : List (Term Name)) → (into : ExprStore) →
    NestedAll limit outer terms → into.Nested limit →
    (storeAll terms into).2.Nested limit ∧ ∀ id ∈ (storeAll terms into).1,
      ∃ part, (storeAll terms into).2.get? id = some part ∧ outer.Covers part.span
  | [], into, _, hinto => ⟨hinto, nofun⟩
  | term :: terms, into, ⟨hover, hterm, hterms⟩, hinto => by
    have hhead := hterm.store term into hinto
    obtain ⟨hwritten, hcovers⟩ := hterms.storeAll terms (term.store into).2 hhead
    refine ⟨hwritten, List.forall_mem_cons.2 ⟨?_, hcovers⟩⟩
    obtain ⟨expr, hget, heq⟩ := get?_store term into
    exact ⟨expr, (storeAll_spec terms _).1.expr hget, by rwa [heq]⟩

end

end Document.Term

end InputDetail
