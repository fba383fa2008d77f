import InputDetail.Proofs.Document.Phrase

/-!
# Unfolding a store

Writing a term into a store changes nothing that is there. From the number under which the term is
written, following receivers, arguments and indices gives back what the term says.
-/
namespace InputDetail

namespace ExprStore

variable {store store' store'' : ExprStore}

/-- All expressions and all argument lists are kept. -/
structure Extends (store store' : ExprStore) : Prop where
  expr : ∀ {id expr}, store.get? id = some expr → store'.get? id = some expr
  list : ∀ {range ids}, store.args? range = some ids → store'.args? range = some ids

namespace Extends

theorem refl (store : ExprStore) : store.Extends store := ⟨id, id⟩

theorem trans (h : store.Extends store') (h' : store'.Extends store'') : store.Extends store'' :=
  ⟨fun hexpr => h'.expr (h.expr hexpr), fun hlist => h'.list (h.list hlist)⟩

end Extends

theorem extends_push (store : ExprStore) (expr : Expr) : store.Extends (store.push expr).2 :=
  ⟨fun h => get?_push_of_some h expr, fun h => h⟩

theorem extends_pushArgs (store : ExprStore) (ids : List ExprId) :
    store.Extends (store.pushArgs ids).2 :=
  ⟨fun h => h, fun h => args?_pushArgs_of_some h ids⟩

end ExprStore

namespace Document

open ExprStore

mutual

/-- The expression is the phrase, with everything that it refers to. -/
inductive Unfolds (store : ExprStore) : ExprId → Phrase Name → Prop
  | call {id name range span ids args}
      (expr : store.get? id = some ⟨.call none name range, span⟩)
      (list : store.args? range = some ids) (parts : UnfoldsAll store ids args) :
      Unfolds store id (.call name args)
  | access {id target receiver name range span ids args}
      (expr : store.get? id = some ⟨.call (some target) name range, span⟩)
      (called : Unfolds store target receiver) (list : store.args? range = some ids)
      (parts : UnfoldsAll store ids args) : Unfolds store id (.access receiver name args)
  | index {id target array place field span span'}
      (expr : store.get? id = some ⟨.index target place, span⟩)
      (indexed : Unfolds store target array)
      (bare : store.get? place = some ⟨.field field, span'⟩) : Unfolds store id (.index array field)

inductive UnfoldsAll (store : ExprStore) : List ExprId → List (Phrase Name) → Prop
  | nil : UnfoldsAll store [] []
  | cons {id ids phrase phrases} (head : Unfolds store id phrase)
      (tail : UnfoldsAll store ids phrases) : UnfoldsAll store (id :: ids) (phrase :: phrases)

end

variable {store store' : ExprStore}

mutual

theorem Unfolds.mono (hgrow : store.Extends store') :
    ∀ {id phrase}, Unfolds store id phrase → Unfolds store' id phrase
  | _, _, .call expr list parts => .call (hgrow.expr expr) (hgrow.list list) (parts.mono hgrow)
  | _, _, .access expr called list parts =>
    .access (hgrow.expr expr) (called.mono hgrow) (hgrow.list list) (parts.mono hgrow)
  | _, _, .index expr indexed bare => .index (hgrow.expr expr) (indexed.mono hgrow) (hgrow.expr bare)

theorem UnfoldsAll.mono (hgrow : store.Extends store') :
    ∀ {ids phrases}, UnfoldsAll store ids phrases → UnfoldsAll store' ids phrases
  | _, _, .nil => .nil
  | _, _, .cons head tail => .cons (head.mono hgrow) (tail.mono hgrow)

end

theorem Unfolds.exists_expr {id : ExprId} {phrase : Phrase Name} (h : Unfolds store id phrase) :
    ∃ expr, store.get? id = some expr := by
  cases h <;> exact ⟨_, by assumption⟩

theorem UnfoldsAll.exists_of_mem {id : ExprId} : ∀ {ids phrases}, UnfoldsAll store ids phrases →
    id ∈ ids → ∃ phrase, Unfolds store id phrase
  | _, _, .cons head tail, hmem => by
    obtain rfl | hmem := List.mem_cons.1 hmem
    · exact ⟨_, head⟩
    · exact tail.exists_of_mem hmem

mutual

/-- An expression unfolds in one way at most, as its arguments do. -/
theorem Unfolds.unique :
    ∀ {id phrase other}, Unfolds store id phrase → Unfolds store id other → phrase = other
  | _, _, _, .call expr list parts, .call expr' list' parts' => by
    cases expr.symm.trans expr'
    cases list.symm.trans list'
    rw [UnfoldsAll.unique parts parts']
  | _, _, _, .access expr called list parts, .access expr' called' list' parts' => by
    cases expr.symm.trans expr'
    cases list.symm.trans list'
    rw [Unfolds.unique called called', UnfoldsAll.unique parts parts']
  | _, _, _, .index expr indexed bare, .index expr' indexed' bare' => by
    cases expr.symm.trans expr'
    cases bare.symm.trans bare'
    rw [Unfolds.unique indexed indexed']
  | _, _, _, .call expr _ _, .access expr' _ _ _ => by cases expr.symm.trans expr'
  | _, _, _, .call expr _ _, .index expr' _ _ => by cases expr.symm.trans expr'
  | _, _, _, .access expr _ _ _, .call expr' _ _ => by cases expr.symm.trans expr'
  | _, _, _, .access expr _ _ _, .index expr' _ _ => by cases expr.symm.trans expr'
  | _, _, _, .index expr _ _, .call expr' _ _ => by cases expr.symm.trans expr'
  | _, _, _, .index expr _ _, .access expr' _ _ _ => by cases expr.symm.trans expr'

/-- Expressions unfold in one way at most, as each of them does. -/
theorem UnfoldsAll.unique :
    ∀ {ids phrases others}, UnfoldsAll store ids phrases → UnfoldsAll store ids others → phrases = others
  | _, _, _, .nil, .nil => rfl
  | _, _, _, .cons head tail, .cons head' tail' => by
    rw [Unfolds.unique head head', UnfoldsAll.unique tail tail']

end

namespace Term

/-- The last step of writing a call: its list of arguments, and the call itself. -/
theorem extends_call (into : ExprStore) (target : Option ExprId) (name : Name)
    (ids : List ExprId) (span : Span) :
    into.Extends
      ((into.pushArgs ids).2.push ⟨.call target name (into.pushArgs ids).1, span⟩).2 :=
  (extends_pushArgs into ids).trans (extends_push _ _)

mutual

/-- Writing a term keeps the store, and the term can be read back from it. -/
theorem store_spec : (term : Term Name) → (into : ExprStore) →
    into.Extends (term.store into).2 ∧ Unfolds (term.store into).2 (term.store into).1 term.phrase
  | call name args span, into => by
    obtain ⟨hargs, hparts⟩ := storeAll_spec args into
    have hself := extends_call (storeAll args into).2 none name (storeAll args into).1 span
    refine ⟨hargs.trans hself, ?_⟩
    exact Unfolds.call (get?_push_self ..) (args?_pushArgs_self ..) (hparts.mono hself)
  | access receiver name args span, into => by
    obtain ⟨hreceiver, hcalled⟩ := store_spec receiver into
    obtain ⟨hargs, hparts⟩ := storeAll_spec args (receiver.store into).2
    have hself := extends_call (storeAll args (receiver.store into).2).2
      (some (receiver.store into).1) name (storeAll args (receiver.store into).2).1 span
    refine ⟨(hreceiver.trans hargs).trans hself, ?_⟩
    exact Unfolds.access (get?_push_self ..) (hcalled.mono (hargs.trans hself))
      (args?_pushArgs_self ..) (hparts.mono hself)
  | index array field fieldSpan span, into => by
    obtain ⟨harray, hindexed⟩ := store_spec array into
    have hfield := extends_push (array.store into).2 ⟨.field field, fieldSpan⟩
    have hself := extends_push ((array.store into).2.push ⟨.field field, fieldSpan⟩).2
      ⟨.index (array.store into).1 ((array.store into).2.push ⟨.field field, fieldSpan⟩).1, span⟩
    refine ⟨(harray.trans hfield).trans hself, ?_⟩
    exact Unfolds.index (get?_push_self ..) (hindexed.mono (hfield.trans hself))
      (hself.expr (get?_push_self ..))

theorem storeAll_spec : (terms : List (Term Name)) → (into : ExprStore) →
    into.Extends (storeAll terms into).2 ∧
      UnfoldsAll (storeAll terms into).2 (storeAll terms into).1 (phrases terms)
  | [], into => ⟨.refl into, .nil⟩
  | term :: terms, into => by
    obtain ⟨hterm, hhead⟩ := store_spec term into
    obtain ⟨hterms, htail⟩ := storeAll_spec terms (term.store into).2
    exact ⟨hterm.trans hterms, .cons (hhead.mono hterms) htail⟩

end

end Term

end Document

end InputDetail
