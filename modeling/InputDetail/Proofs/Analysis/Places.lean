import InputDetail.Proofs.Analysis.Mirror
import InputDetail.Proofs.Analysis.Safety
import InputDetail.Proofs.Document.Spans

/-!
# Where documentation is refused

An expression of an ordered store mirrors itself, and every span that is met in doing so is that of
one of its parts. So a statement is refused at one of its parts. The parts of a statement lie inside
it, and all statements of a block inside the text.
-/
namespace InputDetail

open Relation (ReflTransGen)

namespace ExprStore

variable {store : ExprStore} {limit : Nat} {root part : ExprId}

/-- The expression itself, and what is reached from it by references. -/
def IsPart (store : ExprStore) (root part : ExprId) : Prop := ReflTransGen store.Refers root part

/-- In a nested store, an expression reaches over its parts. -/
theorem Nested.covers_part (h : store.Nested limit) {outer inner : Expr}
    (houter : store.get? root = some outer) (hpart : store.IsPart root part)
    (hinner : store.get? part = some inner) : outer.span.Covers inner.span := by
  induction hpart generalizing inner with
  | refl =>
    obtain rfl := Option.some.inj (houter.symm.trans hinner)
    exact .refl _
  | tail _ hrefers ih =>
    obtain ⟨middle, hmiddle⟩ := Option.isSome_iff_exists.1 hrefers.known
    obtain ⟨_, hget, hover⟩ := h.covers hmiddle hrefers
    obtain rfl := Option.some.inj (hinner.symm.trans hget)
    exact (ih hmiddle).trans hover

end ExprStore

namespace Document

open ExprStore

variable {store : ExprStore} {root : ExprId}

/-- The span is that of a part of the expression. -/
def PartSpan (store : ExprStore) (root : ExprId) (span : Span) : Prop :=
  ∃ part expr, store.IsPart root part ∧ store.get? part = some expr ∧ expr.span = span

mutual

/-- A part of an expression mirrors itself, with spans of parts of the expression. -/
theorem Unfolds.mirrors_self (hordered : store.Ordered) : ∀ {id phrase}, Unfolds store id phrase →
    store.IsPart root id → Mirrors (fun span _ => PartSpan store root span) store store id id
  | id, _, .call expr list parts, hway =>
    .call expr expr ⟨id, _, hway, expr, rfl⟩ list list
      (parts.mirrors_self hordered fun _ hmem => hway.tail (.argument expr list hmem))
  | id, _, .access expr called list parts, hway =>
    .access expr expr ⟨id, _, hway, expr, rfl⟩ (hordered.older (.receiver expr))
      (hordered.older (.receiver expr)) (called.mirrors_self hordered (hway.tail (.receiver expr)))
      list list (parts.mirrors_self hordered fun _ hmem => hway.tail (.argument expr list hmem))
  | id, _, .index expr indexed bare, hway =>
    .index expr expr ⟨id, _, hway, expr, rfl⟩ (hordered.older (.array expr))
      (hordered.older (.array expr)) (indexed.mirrors_self hordered (hway.tail (.array expr)))
      bare bare ⟨_, _, hway.tail (.index expr), bare, rfl⟩

theorem UnfoldsAll.mirrors_self (hordered : store.Ordered) : ∀ {ids phrases},
    UnfoldsAll store ids phrases → (∀ id ∈ ids, store.IsPart root id) →
    MirrorsAll (fun span _ => PartSpan store root span) store store ids ids
  | _, _, .nil, _ => .nil
  | _, _, .cons head tail, hway =>
    .cons (head.mirrors_self hordered (hway _ List.mem_cons_self))
      (tail.mirrors_self hordered fun _ hmem => hway _ (List.mem_cons_of_mem _ hmem))

end

end Document

namespace Analysis

open Document

variable {model : Model} {store : ExprStore} {parameters left : List Parameter} {root : ExprId}
  {halt : Halt} {source : String} {names : NameTable}

/-- A statement of an ordered store is refused at one of its parts. Planned in step with itself, it is
refused at a span that its mirror relates. -/
theorem refused_at_part (hordered : store.Ordered) {phrase : Phrase Name}
    (hunfolds : Unfolds store root phrase)
    (hplan : planStatement model store parameters root = .error halt) :
    ∃ error span, halt = .refused error ∧ error.span? = some span ∧ PartSpan store root span := by
  have hparallel : Parallel (fun span _ => PartSpan store root span) Eq
      (planStatement model store parameters root) (planStatement model store parameters root) :=
    parallel_planStatement (hunfolds.mirrors_self hordered .refl)
  rw [hplan] at hparallel
  cases hparallel with
  | refused _ place _ places => exact ⟨_, _, rfl, place, places⟩

/-- A block whose analysis comes to a halt is refused at a part of the first statement that fails. The
place of the error is the span of that part. It lies inside the span of the statement, and in the
text. -/
theorem analyzeText_refused_within (haccepted : Accepted source) (hbuilt : Built parameters)
    (h : (analyzeText model source names parameters).1 = .error halt left) :
    ∃ document k root error, (parse source names).1 = .ok document ∧
      document.roots[k]? = some root ∧
      analyze model ⟨document.store, document.roots.take k⟩ parameters = .ok () left ∧
      analyzeStatement model document.store root left = .error halt left ∧ halt = .refused error ∧
      ∃ statement part expr, document.store.get? root = some statement ∧
        document.store.IsPart root part ∧ document.store.get? part = some expr ∧
        error.span? = some expr.span ∧ statement.span.Covers expr.span ∧
        expr.span.Within source.utf8ByteSize := by
  obtain ⟨statements, hrenders⟩ := accepted_iff.1 haccepted
  obtain ⟨document, hparse, hunfolds⟩ := parse_of_renders hrenders names
  have hdocument : (parse source names).1 = .ok document := by rw [hparse]
  have hnested := nested_of_parse hdocument
  have hhalt : analyze model document parameters = .error halt left := by
    simpa only [analyzeText, hparse, analyzeParsed] using h
  obtain ⟨k, root, hroot, hbefore, hplan⟩ := plan_of_error hbuilt hhalt
  obtain ⟨phrase, hphrase⟩ := hunfolds.exists_of_mem (List.mem_of_getElem? hroot)
  obtain ⟨error, span, rfl, hspan, part, expr, hpart, hexpr, rfl⟩ :=
    refused_at_part hnested.toOrdered hphrase hplan
  obtain ⟨statement, hstatement⟩ := hphrase.exists_expr
  exact ⟨document, k, root, error, hdocument, hroot, hbefore, by simp only [analyzeStatement, hplan],
    rfl, statement, part, expr, hstatement, hpart, hexpr, hspan,
    hnested.covers_part hstatement hpart hexpr, hnested.within hexpr⟩

/-- After a member is recorded, a statement about all elements of a list is refused at its index. -/
theorem analyzeText_refused_within_sample :
    let source := "p().b() mandatory(p().a()[x].b())"
    let halt : Halt := .refused (.invalidCollectionIndex ⟨26, 27⟩)
    Accepted source ∧ Built Sample.parameters ∧ ∃ left,
      (analyzeText Sample.model source Sample.names Sample.parameters).1 = .error halt left ∧
      ∃ (document : Document) (k : Nat) (root : ExprId),
        (parse source Sample.names).1 = .ok document ∧ document.roots[k]? = some root ∧
        analyzeStatement Sample.model document.store root left = .error halt left ∧
        ∃ statement part expr, document.store.get? root = some statement ∧
          document.store.IsPart root part ∧ document.store.get? part = some expr ∧
          expr.span = ⟨26, 27⟩ ∧ statement.span.Covers expr.span := by
  have hrenders : Renders [.access (.call "p" []) "b" [],
      .call "mandatory" [.access (.index (.access (.call "p" []) "a" []) "x") "b" []]]
      "p().b() mandatory(p().a()[x].b())" := by
    rw [renders_iff, show (scan 0 _).map (·.symbol) = _ from rfl]
    exact .statement _ (.statement _ .nil)
  have haccepted := accepted_iff.2 ⟨_, hrenders⟩
  have hbuilt : Built Sample.parameters := (Reachable.start Sample.nothing_recorded).built
  have hrefused : (parse "p().b() mandatory(p().a()[x].b())" Sample.names).1.toOption.bind
      (halt? Sample.model · Sample.parameters) =
        some (.refused (.invalidCollectionIndex ⟨26, 27⟩)) := by decide +kernel
  obtain ⟨document, hparse, -⟩ := parse_of_renders hrenders Sample.names
  rw [hparse] at hrefused
  have hhalt : (analyzeText Sample.model "p().b() mandatory(p().a()[x].b())" Sample.names
      Sample.parameters).1 = .error (.refused (.invalidCollectionIndex ⟨26, 27⟩))
        (stateAfter Sample.model document Sample.parameters) := by
    rw [analyzeText, hparse]
    exact analyze_of_halt?_some hrefused
  obtain ⟨document', k, root, error, hparse', hroot, -, hfails, herror, statement, part, expr,
    hstatement, hpart, hexpr, hspan, hcovers, -⟩ := analyzeText_refused_within haccepted hbuilt hhalt
  obtain rfl := Halt.refused.inj herror
  exact ⟨haccepted, hbuilt, _, hhalt, document', k, root, hparse', hroot, hfails, statement, part, expr,
    hstatement, hpart, hexpr, (Option.some.inj hspan).symm, hcovers⟩

end Analysis

end InputDetail
