import InputDetail.Proofs.Analysis.Places
import InputDetail.Proofs.Document.Rows
import Mathlib.Data.List.Nodup

/-!
# Stores of trees

A term is written into a store once, and so is each of its parts. So every expression of a store is either
one of those that nothing refers to yet, or it is referred to once. As references lead to older
expressions, every expression is part of exactly one of those that nothing refers to: a store is the
trees of its statements and holds nothing else.
-/
namespace InputDetail

open Relation (ReflTransGen)

namespace ExprStore

variable {store : ExprStore} {roots rest : List ExprId} {id next : ExprId} {expr : Expr}

/-- All expressions in the order of their numbers. -/
def ids (store : ExprStore) : List ExprId := (List.range store.size).map ExprId.mk

/-- Whatever expressions refer to, once for each reference. -/
def references (store : ExprStore) : List ExprId :=
  store.exprs.toList.flatMap fun expr => store.parts expr.kind

/-- All argument lists are there, and every expression is either one of the roots or referred to,
once and not both. -/
structure Rooted (store : ExprStore) (roots : List ExprId) : Prop where
  lists : ∀ {id receiver name range span},
    store.get? id = some ⟨.call receiver name range, span⟩ → (store.args? range).isSome = true
  once : (roots ++ store.references).Perm store.ids

theorem mem_ids : id ∈ store.ids ↔ id.index < store.size := by
  obtain ⟨index⟩ := id
  simp [ids]

theorem nodup_ids (store : ExprStore) : store.ids.Nodup :=
  List.nodup_range.map fun _ _ => ExprId.mk.inj

theorem mem_references : next ∈ store.references ↔ ∃ id, store.Refers id next := by
  rw [references, List.mem_flatMap]
  simp only [refers_iff]
  constructor
  · rintro ⟨expr, hexpr, hpart⟩
    obtain ⟨index, hget⟩ := List.mem_iff_getElem?.1 hexpr
    exact ⟨⟨index⟩, expr, by rw [get?, ← hget, Array.getElem?_toList], hpart⟩
  · rintro ⟨id, expr, hget, hpart⟩
    exact ⟨expr, Array.mem_toList_iff.2 (Array.mem_of_getElem? hget), hpart⟩

namespace Rooted

theorem empty : ExprStore.empty.Rooted [] where
  lists h := by simp [ExprStore.empty, get?] at h
  once := .refl _

theorem perm (h : store.Rooted roots) (hroots : rest.Perm roots) : store.Rooted rest where
  lists := h.lists
  once := (hroots.append_right _).trans h.once

theorem pushArgs (h : store.Rooted roots) (ids : List ExprId) :
    (store.pushArgs ids).2.Rooted roots where
  lists hexpr := by
    obtain ⟨known, hknown⟩ := Option.isSome_iff_exists.1 (h.lists hexpr)
    rw [args?_pushArgs_of_some hknown]
    rfl
  once := by
    have hparts : (store.pushArgs ids).2.references = store.references := by
      refine List.flatMap_congr fun expr hexpr => ?_
      obtain ⟨index, hget⟩ := List.mem_iff_getElem?.1 hexpr
      rw [Array.getElem?_toList] at hget
      obtain ⟨kind, span⟩ := expr
      cases kind with
      | call receiver name range =>
        have hexpr : store.get? ⟨index⟩ = some ⟨.call receiver name range, span⟩ := hget
        obtain ⟨known, hknown⟩ := Option.isSome_iff_exists.1 (h.lists hexpr)
        rw [parts, parts, hknown, args?_pushArgs_of_some hknown]
      | index array position => rfl
      | field name => rfl
    rw [hparts]
    exact h.once

/-- A new expression is a root, and what it refers to is a root no longer. -/
theorem push (h : store.Rooted (store.parts expr.kind ++ roots))
    (hlists : ∀ {receiver name range}, expr.kind = .call receiver name range →
      (store.args? range).isSome = true) :
    (store.push expr).2.Rooted ((store.push expr).1 :: roots) where
  lists hother := by
    obtain hold | ⟨-, heq⟩ := get?_push_cases hother
    · exact h.lists hold
    · exact hlists (by rw [← heq])
  once := by
    have hids : (store.push expr).2.ids = store.ids ++ [(store.push expr).1] := by
      simp [ids, ExprStore.push, size, List.range_succ]
    have hreferences : (store.push expr).2.references =
        store.references ++ store.parts expr.kind := by
      simp only [references, ExprStore.push, Array.toList_push, List.flatMap_append,
        List.flatMap_singleton]
      rfl
    rw [hids, hreferences]
    refine (List.perm_append_comm.trans ?_).symm
    rw [List.singleton_append, List.cons_append, List.perm_cons]
    refine h.once.symm.trans ?_
    rw [List.append_assoc]
    exact List.perm_append_comm.trans (by rw [List.append_assoc])

/-- A new call takes its receiver and its arguments. -/
theorem call {receiver : Option ExprId} {ids : List ExprId}
    (h : store.Rooted (receiver.toList ++ ids ++ roots)) (name : Name) (span : Span) :
    ((store.pushArgs ids).2.push ⟨.call receiver name (store.pushArgs ids).1, span⟩).2.Rooted
      (((store.pushArgs ids).2.push
        ⟨.call receiver name (store.pushArgs ids).1, span⟩).1 :: roots) := by
  have hlist : (store.pushArgs ids).2.args? (store.pushArgs ids).1 = some ids :=
    args?_pushArgs_self store ids
  refine push ?_ fun hkind => ?_
  · rw [parts, hlist]
    exact h.pushArgs ids
  · cases hkind
    rw [hlist]
    rfl

variable (h : store.Rooted roots)
include h

theorem nodup : (roots ++ store.references).Nodup := h.once.nodup_iff.2 store.nodup_ids

theorem mem_iff : id ∈ roots ∨ (∃ parent, store.Refers parent id) ↔ id.index < store.size := by
  rw [← mem_ids, ← h.once.mem_iff, List.mem_append, mem_references]

/-- Nothing refers to a root. -/
theorem not_refers (hid : id ∈ roots) (parent : ExprId) : ¬ store.Refers parent id :=
  fun hrefers => (List.nodup_append.1 h.nodup).2.2 id hid id (mem_references.2 ⟨parent, hrefers⟩) rfl

/-- No expression is referred to twice. -/
theorem refers_unique {parent other : ExprId} (hparent : store.Refers parent id)
    (hother : store.Refers other id) : parent = other := by
  have hdisjoint := (List.nodup_flatMap.1 (List.nodup_append.1 h.nodup).2.1).2
  rw [List.pairwise_iff_getElem] at hdisjoint
  obtain ⟨expr, hget, hpart⟩ := refers_iff.1 hparent
  obtain ⟨expr', hget', hpart'⟩ := refers_iff.1 hother
  obtain ⟨hlt, rfl⟩ := Array.getElem?_eq_some_iff.1 hget
  obtain ⟨hlt', rfl⟩ := Array.getElem?_eq_some_iff.1 hget'
  have hle : ¬ parent.index < other.index := fun hindex =>
    hdisjoint parent.index other.index hlt hlt' hindex hpart hpart'
  have hge : ¬ other.index < parent.index := fun hindex =>
    hdisjoint other.index parent.index hlt' hlt hindex hpart' hpart
  obtain ⟨parent⟩ := parent
  obtain ⟨other⟩ := other
  exact congrArg ExprId.mk (by dsimp only at hle hge; omega)

/-- Every expression is part of a root: of itself, or of the root that what refers to it is part of.
Going up along references, numbers grow. -/
theorem exists_root (holder : store.Ordered) (hid : id.index < store.size) :
    ∃ root ∈ roots, store.IsPart root id := by
  induction hleft : store.size - id.index using Nat.strongRecOn generalizing id with
  | ind left ih =>
    obtain hroot | ⟨parent, hrefers⟩ := h.mem_iff.2 hid
    · exact ⟨id, hroot, .refl⟩
    · obtain ⟨expr, hget, -⟩ := refers_iff.1 hrefers
      have hlt := lt_size_of_get? hget
      have hup := holder.older hrefers
      obtain ⟨root, hroot, hpart⟩ := ih (store.size - parent.index) (by omega) hlt rfl
      exact ⟨root, hroot, hpart.tail hrefers⟩

theorem root_unique {root other : ExprId} (hroot : root ∈ roots) (hother : other ∈ roots)
    (hpart : store.IsPart root id) (hpart' : store.IsPart other id) : root = other := by
  induction hpart with
  | refl =>
    obtain heq | ⟨parent, -, hrefers⟩ := ReflTransGen.cases_tail hpart'
    · exact heq
    · exact absurd hrefers (h.not_refers hroot parent)
  | tail _ hrefers ih =>
    obtain rfl | ⟨parent, hway, hrefers'⟩ := ReflTransGen.cases_tail hpart'
    · exact absurd hrefers (h.not_refers hother _)
    · exact ih (h.refers_unique hrefers' hrefers ▸ hway)

end Rooted

end ExprStore

namespace Document.Term

open ExprStore

mutual

/-- A term that is written is a new root. -/
theorem rooted_store : (term : Term Name) → (into : ExprStore) → (roots : List ExprId) →
    into.Rooted roots → (term.store into).2.Rooted ((term.store into).1 :: roots)
  | .call name args span, into, roots, hinto =>
    (rooted_storeAll args into roots hinto).call name span
  | .access receiver name args span, into, roots, hinto => by
    have htarget := rooted_store receiver into roots hinto
    refine Rooted.call (Rooted.perm (rooted_storeAll args _ _ htarget) ?_) name span
    exact List.perm_middle.symm
  | .index array field fieldSpan span, into, roots, hinto => by
    have htarget := rooted_store array into roots hinto
    have hbare : ((array.store into).2.push ⟨.field field, fieldSpan⟩).2.Rooted _ :=
      Rooted.push htarget (by intros; contradiction)
    exact Rooted.push (hbare.perm (.swap _ _ _)) (by intros; contradiction)

theorem rooted_storeAll : (terms : List (Term Name)) → (into : ExprStore) →
    (roots : List ExprId) → into.Rooted roots →
    (storeAll terms into).2.Rooted ((storeAll terms into).1 ++ roots)
  | [], _, _, hinto => hinto
  | term :: terms, into, roots, hinto => by
    have hhead := rooted_store term into roots hinto
    exact (rooted_storeAll terms _ _ hhead).perm List.perm_middle.symm

end

/-- What is written has the spans of the terms. -/
theorem spans_storeAll (terms : List (Term Name)) (into : ExprStore) :
    (storeAll terms into).1.map (fun id => ((storeAll terms into).2.get? id).map (·.span)) =
      (terms.map (·.span)).map some := by
  induction terms generalizing into with
  | nil => rfl
  | cons term terms ih =>
    obtain ⟨expr, hget, hspan⟩ := get?_store term into
    have hlater := (storeAll_spec terms (term.store into).2).1.expr hget
    rw [storeAll, List.map_cons, ih (term.store into).2, hlater, Option.map_some, hspan]
    rfl

theorem spans_mapAll {α β : Type} (f : α → β) (terms : List (Term α)) :
    (mapAll f terms).map (·.span) = terms.map (·.span) := by
  induction terms with
  | nil => rfl
  | cons term terms ih => rw [mapAll, List.map_cons, List.map_cons, span_map, ih]

end Document.Term

namespace Document

open ExprStore

variable {names : NameTable} {document : Document} {source : String}

theorem rooted_of_parse (h : (parse source names).1 = .ok document) :
    document.store.Rooted document.roots := by
  obtain ⟨terms, hread⟩ := Accepted.exists_terms ⟨names, document, h⟩
  rw [parse_of_ok hread] at h
  obtain rfl := Except.ok.inj h
  have hroots := Term.rooted_storeAll (named (internAll names (words source)) terms) _ [] .empty
  rwa [List.append_nil] at hroots

/-- The roots are the statements in the order of the text, with their spans. -/
theorem spans_of_parse (h : (parse source names).1 = .ok document) :
    ∃ spans : List Span, document.roots.map (fun root => (document.store.get? root).map (·.span)) =
        spans.map some ∧ (∀ span ∈ spans, span.start < span.stop) ∧
      spans.Pairwise fun span later => span.stop ≤ later.start := by
  obtain ⟨terms, hread⟩ := Accepted.exists_terms ⟨names, document, h⟩
  obtain ⟨floor, hrow⟩ := inRow_of_readTerms hread
  rw [parse_of_ok hread] at h
  obtain rfl := Except.ok.inj h
  refine ⟨terms.map (·.span), ?_, ?_, ?_⟩
  · have hspans := Term.spans_storeAll (named (internAll names (words source)) terms) .empty
    rw [hspans, named, Term.spans_mapAll]
  · exact List.forall_mem_map.2 fun term hterm => (hrow.before term hterm).1
  · exact List.pairwise_map.2 hrow.row

/-- What a document holds that is parsed from a text. References lead to older expressions, and all
argument lists are inside the storage. Every expression is either a statement or referred to by one
expression and once there, so it is part of one statement. The span of an expression is a range of the
text and reaches over those of its parts; the statements lie one behind the other. -/
theorem trees_of_parse (h : (parse source names).1 = .ok document) :
    let store := document.store
    (∀ id next, store.Refers id next → next.index < id.index) ∧
      (∀ id receiver name range span, store.get? id = some ⟨.call receiver name range, span⟩ →
        range.start + range.length ≤ store.args.size) ∧
      (document.roots ++ store.references).Perm store.ids ∧
      (∀ id, id.index < store.size → ∃! root, root ∈ document.roots ∧ store.IsPart root id) ∧
      (∀ id expr, store.get? id = some expr → expr.span.start ≤ expr.span.stop ∧
        expr.span.stop ≤ source.utf8ByteSize ∧ ∀ next, store.Refers id next →
          ∃ part, store.get? next = some part ∧ expr.span.Covers part.span) ∧
      ∃ spans : List Span, document.roots.map (fun root => (store.get? root).map (·.span)) =
          spans.map some ∧ (∀ span ∈ spans, span.start < span.stop) ∧
        spans.Pairwise fun span later => span.stop ≤ later.start := by
  intro store
  have hnested := nested_of_parse h
  have hrooted := rooted_of_parse h
  refine ⟨fun id next hrefers => hnested.older hrefers, fun id receiver name range span hexpr => ?_,
    hrooted.once, fun id hid => ?_, fun id expr hexpr => ?_, spans_of_parse h⟩
  · have hlist := hnested.lists hexpr
    unfold args? at hlist
    split at hlist
    · assumption
    · cases hlist
  · obtain ⟨root, hroot, hpart⟩ := hrooted.exists_root hnested.toOrdered hid
    exact ⟨root, ⟨hroot, hpart⟩, fun other hother =>
      hrooted.root_unique hother.1 hroot hother.2 hpart⟩
  · exact ⟨(hnested.within hexpr).1, (hnested.within hexpr).2, fun next hrefers =>
      hnested.covers hexpr hrefers⟩

theorem trees_of_parse_sample :
    ∃ document, (parse "vm(id()).disk()[each] ;host()" .initial).1 = .ok document ∧
      (document.roots ++ document.store.references).Perm document.store.ids := by
  have hrenders : Renders
      [.index (.access (.call "vm" [.call "id" []]) "disk" []) "each", .call "host" []]
      "vm(id()).disk()[each] ;host()" := by
    rw [renders_iff, show (scan 0 _).map (·.symbol) = _ from rfl]
    exact .statement _ (.semicolon (.statement _ .nil))
  obtain ⟨document, hparse, -⟩ := parse_of_renders hrenders .initial
  have hdocument : (parse "vm(id()).disk()[each] ;host()" .initial).1 = .ok document := by
    rw [hparse]
  exact ⟨document, hdocument, (trees_of_parse hdocument).2.2.1⟩

end Document

end InputDetail
