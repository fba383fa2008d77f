import InputDetail.Proofs.Document.Shift
import InputDetail.Proofs.Document.Unfolding

/-!
# Equal expressions in two stores

An expression of one store mirrors one of another store if both say the same. Where they are stored
does not matter, and where they stand in a text only as far as their spans are asked to be related. A
term and the same term further on, written into any two stores, mirror each other.
-/
namespace InputDetail

/-- The second span lies `n` bytes further on. -/
def Span.Later (n : Nat) (span later : Span) : Prop := later = span.shift n

namespace Document

open ExprStore

mutual

/-- The second expression says what the first one says, and the spans of both are related, part by part.
Receivers and indexed expressions are older than what is said of them. -/
inductive Mirrors (near : Span → Span → Prop) (store store' : ExprStore) : ExprId → ExprId → Prop
  | call {id id' name range range' span span' ids ids'}
      (expr : store.get? id = some ⟨.call none name range, span⟩)
      (expr' : store'.get? id' = some ⟨.call none name range', span'⟩) (spans : near span span')
      (list : store.args? range = some ids) (list' : store'.args? range' = some ids')
      (parts : MirrorsAll near store store' ids ids') : Mirrors near store store' id id'
  | access {id id' target target' name range range' span span' ids ids'}
      (expr : store.get? id = some ⟨.call (some target) name range, span⟩)
      (expr' : store'.get? id' = some ⟨.call (some target') name range', span'⟩)
      (spans : near span span')
      (older : target.index < id.index) (older' : target'.index < id'.index)
      (called : Mirrors near store store' target target')
      (list : store.args? range = some ids) (list' : store'.args? range' = some ids')
      (parts : MirrorsAll near store store' ids ids') : Mirrors near store store' id id'
  | index {id id' target target' place place' field span span' fieldSpan fieldSpan'}
      (expr : store.get? id = some ⟨.index target place, span⟩)
      (expr' : store'.get? id' = some ⟨.index target' place', span'⟩) (spans : near span span')
      (older : target.index < id.index) (older' : target'.index < id'.index)
      (indexed : Mirrors near store store' target target')
      (bare : store.get? place = some ⟨.field field, fieldSpan⟩)
      (bare' : store'.get? place' = some ⟨.field field, fieldSpan'⟩)
      (fieldSpans : near fieldSpan fieldSpan') : Mirrors near store store' id id'

inductive MirrorsAll (near : Span → Span → Prop) (store store' : ExprStore) :
    List ExprId → List ExprId → Prop
  | nil : MirrorsAll near store store' [] []
  | cons {id id' ids ids'} (head : Mirrors near store store' id id')
      (tail : MirrorsAll near store store' ids ids') :
      MirrorsAll near store store' (id :: ids) (id' :: ids')

end

variable {near : Span → Span → Prop} {store store' larger larger' : ExprStore} {id id' : ExprId}

mutual

theorem Mirrors.mono (hgrow : store.Extends larger) (hgrow' : store'.Extends larger') :
    ∀ {id id'}, Mirrors near store store' id id' → Mirrors near larger larger' id id'
  | _, _, .call expr expr' spans list list' parts =>
    .call (hgrow.expr expr) (hgrow'.expr expr') spans (hgrow.list list) (hgrow'.list list')
      (parts.mono hgrow hgrow')
  | _, _, .access expr expr' spans older older' called list list' parts =>
    .access (hgrow.expr expr) (hgrow'.expr expr') spans older older' (called.mono hgrow hgrow')
      (hgrow.list list) (hgrow'.list list') (parts.mono hgrow hgrow')
  | _, _, .index expr expr' spans older older' indexed bare bare' fieldSpans =>
    .index (hgrow.expr expr) (hgrow'.expr expr') spans older older' (indexed.mono hgrow hgrow')
      (hgrow.expr bare) (hgrow'.expr bare') fieldSpans

theorem MirrorsAll.mono (hgrow : store.Extends larger) (hgrow' : store'.Extends larger') :
    ∀ {ids ids'}, MirrorsAll near store store' ids ids' → MirrorsAll near larger larger' ids ids'
  | _, _, .nil => .nil
  | _, _, .cons head tail => .cons (head.mono hgrow hgrow') (tail.mono hgrow hgrow')

end

/-- Both expressions are in their stores, and their spans are related. -/
theorem Mirrors.exists_expr (h : Mirrors near store store' id id') :
    ∃ expr expr', store.get? id = some expr ∧ store'.get? id' = some expr' ∧
      near expr.span expr'.span := by
  cases h with
  | call expr expr' spans => exact ⟨_, _, expr, expr', spans⟩
  | access expr expr' spans => exact ⟨_, _, expr, expr', spans⟩
  | index expr expr' spans => exact ⟨_, _, expr, expr', spans⟩

theorem Mirrors.lt_size (h : Mirrors near store store' id id') :
    id.index < store.size ∧ id'.index < store'.size := by
  obtain ⟨expr, expr', hexpr, hexpr', -⟩ := h.exists_expr
  exact ⟨lt_size_of_get? hexpr, lt_size_of_get? hexpr'⟩

theorem MirrorsAll.length_eq :
    ∀ {ids ids'}, MirrorsAll near store store' ids ids' → ids'.length = ids.length
  | _, _, .nil => rfl
  | _, _, .cons _ tail => congrArg (· + 1) tail.length_eq

/-- Calls that mirror each other have equally many arguments. -/
theorem MirrorsAll.range_eq {range range' : ArgRange} {ids ids' : List ExprId}
    (h : MirrorsAll near store store' ids ids') (hlist : store.args? range = some ids)
    (hlist' : store'.args? range' = some ids') : range'.length = range.length := by
  rw [← length_of_args? hlist, ← length_of_args? hlist', h.length_eq]

namespace Term

mutual

/-- A term, and the same term further on, are written as expressions that mirror each other. -/
theorem store_mirrors (n : Nat) : (term : Term Name) → (into into' : ExprStore) →
    Mirrors (Span.Later n) (term.store into).2 ((term.shift n).store into').2 (term.store into).1
      ((term.shift n).store into').1
  | call name args span, into, into' => by
    have hparts := storeAll_mirrors n args into into'
    have hself := extends_call (storeAll args into).2 none name (storeAll args into).1 span
    have hself' := extends_call (storeAll (shiftAll n args) into').2 none name
      (storeAll (shiftAll n args) into').1 (span.shift n)
    exact .call (get?_push_self ..) (get?_push_self ..) rfl (args?_pushArgs_self ..)
      (args?_pushArgs_self ..) (hparts.mono hself hself')
  | access receiver name args span, into, into' => by
    have hparts := storeAll_mirrors n args (receiver.store into).2 ((receiver.shift n).store into').2
    have hself := extends_call (storeAll args (receiver.store into).2).2
      (some (receiver.store into).1) name (storeAll args (receiver.store into).2).1 span
    have hself' := extends_call (storeAll (shiftAll n args) ((receiver.shift n).store into').2).2
      (some ((receiver.shift n).store into').1) name
      (storeAll (shiftAll n args) ((receiver.shift n).store into').2).1 (span.shift n)
    have hargs := (storeAll_spec args (receiver.store into).2).1
    have hargs' := (storeAll_spec (shiftAll n args) ((receiver.shift n).store into').2).1
    have hcalled := (store_mirrors n receiver into into').mono hargs hargs'
    exact .access (get?_push_self ..) (get?_push_self ..) rfl hcalled.lt_size.1 hcalled.lt_size.2
      (hcalled.mono hself hself') (args?_pushArgs_self ..) (args?_pushArgs_self ..)
      (hparts.mono hself hself')
  | index array field fieldSpan span, into, into' => by
    have hfield := extends_push (array.store into).2 ⟨.field field, fieldSpan⟩
    have hfield' := extends_push ((array.shift n).store into').2 ⟨.field field, fieldSpan.shift n⟩
    have hself := extends_push ((array.store into).2.push ⟨.field field, fieldSpan⟩).2
      ⟨.index (array.store into).1 ((array.store into).2.push ⟨.field field, fieldSpan⟩).1, span⟩
    have hself' := extends_push
      (((array.shift n).store into').2.push ⟨.field field, fieldSpan.shift n⟩).2
      ⟨.index ((array.shift n).store into').1
        (((array.shift n).store into').2.push ⟨.field field, fieldSpan.shift n⟩).1, span.shift n⟩
    have hindexed := (store_mirrors n array into into').mono hfield hfield'
    exact .index (get?_push_self ..) (get?_push_self ..) rfl hindexed.lt_size.1 hindexed.lt_size.2
      (hindexed.mono hself hself') (hself.expr (get?_push_self ..))
      (hself'.expr (get?_push_self ..)) rfl

theorem storeAll_mirrors (n : Nat) : (terms : List (Term Name)) → (into into' : ExprStore) →
    MirrorsAll (Span.Later n) (storeAll terms into).2 (storeAll (shiftAll n terms) into').2
      (storeAll terms into).1 (storeAll (shiftAll n terms) into').1
  | [], into, into' => .nil
  | term :: terms, into, into' => by
    have hhead := store_mirrors n term into into'
    have htail := storeAll_mirrors n terms (term.store into).2 ((term.shift n).store into').2
    have hterms := (storeAll_spec terms (term.store into).2).1
    have hterms' := (storeAll_spec (shiftAll n terms) ((term.shift n).store into').2).1
    exact .cons (hhead.mono hterms hterms') htail

end

end Term

end Document

end InputDetail
