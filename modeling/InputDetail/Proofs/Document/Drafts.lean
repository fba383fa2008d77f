import InputDetail.Expr.Draft
import InputDetail.Proofs.Analysis.References
import InputDetail.Proofs.Document.Exactness
import InputDetail.Proofs.Document.Mirror

/-!
# Expressions written by hand

An expression that is written by hand says a phrase, in whatever order its parts were written and
whatever else was written in between. It mirrors every expression of an ordered store that unfolds
to the phrase, if the names come from one table.
-/
namespace InputDetail

namespace Draft

open Document ExprStore

variable {draft later last : Draft} {id : ExprId} {phrase : Phrase String}

/-- Writes a call of the marker. -/
def mark : Status → ExprId → Write
  | .mandatory => mandatory
  | .optional => optional

/-- The name of the marker. -/
def marker : Status → Name
  | .mandatory => .mandatory
  | .optional => .optional

/-- More has been written. Expressions, argument lists and names are kept. -/
structure Grows (draft later : Draft) : Prop where
  store : draft.store.Extends later.store
  names : draft.names.Extends later.names

theorem Grows.refl (draft : Draft) : draft.Grows draft := ⟨.refl _, .refl _⟩

theorem Grows.trans (h : draft.Grows later) (h' : later.Grows last) : draft.Grows last :=
  ⟨h.store.trans h'.store, h.names.trans h'.names⟩

/-- An expression of the kind has been added. -/
structure Added (draft : Draft) (kind : ExprKind) (id : ExprId) (later : Draft) : Prop where
  grows : draft.Grows later
  expr : later.store.get? id = some ⟨kind, draft.span⟩
  new : draft.store.size ≤ id.index

theorem added_call (draft : Draft) (identifier : String) :
    draft.Added (.call none (draft.names.internWords identifier).1 .empty)
      ((call identifier).run draft).1 ((call identifier).run draft).2 :=
  ⟨⟨extends_push _ _, NameTable.extends_internWords _ _⟩, get?_push_self .., Nat.le_refl _⟩

theorem added_access (draft : Draft) (target : ExprId) (identifier : String) :
    draft.Added (.call (some target) (draft.names.internWords identifier).1 .empty)
      ((access target identifier).run draft).1 ((access target identifier).run draft).2 :=
  ⟨⟨extends_push _ _, NameTable.extends_internWords _ _⟩, get?_push_self .., Nat.le_refl _⟩

theorem added_collection (draft : Draft) (target : ExprId) : ∃ place,
    draft.Added (.index target place) ((collection target).run draft).1
        ((collection target).run draft).2 ∧
      ((collection target).run draft).2.store.get? place = some ⟨.field .collection, draft.span⟩ := by
  have hfield := extends_push draft.store ⟨.field .collection, draft.span⟩
  have hself := extends_push (draft.store.push ⟨.field .collection, draft.span⟩).2
    ⟨.index target (draft.store.push ⟨.field .collection, draft.span⟩).1, draft.span⟩
  refine ⟨_, ⟨⟨hfield.trans hself, .refl _⟩, get?_push_self .., ?_⟩,
    hself.expr (get?_push_self ..)⟩
  exact Nat.le_of_lt (lt_size_of_get? (get?_push_self draft.store _))

theorem added_apply (draft : Draft) (name : Name) (args : List ExprId) : ∃ range,
    draft.Added (.call none name range) ((apply name args).run draft).1
        ((apply name args).run draft).2 ∧
      ((apply name args).run draft).2.store.args? range = some args :=
  ⟨_, ⟨⟨(extends_pushArgs _ _).trans (extends_push _ _), .refl _⟩, get?_push_self ..,
    Nat.le_refl _⟩, args?_pushArgs_self ..⟩

theorem mark_eq_apply (status : Status) (target : ExprId) :
    mark status target = apply (marker status) [target] := by
  cases status <;> rfl

/-- The expression has been written into the draft and says the phrase. -/
inductive Wrote : Draft → ExprId → Phrase String → Prop
  | call (draft : Draft) (identifier : String) :
      Wrote ((Draft.call identifier).run draft).2 ((Draft.call identifier).run draft).1
        (.call identifier [])
  | access {draft : Draft} {target receiver} (called : Wrote draft target receiver)
      (identifier : String) :
      Wrote ((Draft.access target identifier).run draft).2
        ((Draft.access target identifier).run draft).1 (.access receiver identifier [])
  | collection {draft : Draft} {target array} (indexed : Wrote draft target array) :
      Wrote ((Draft.collection target).run draft).2 ((Draft.collection target).run draft).1
        (.index array "COLLECTION")
  | mark {draft : Draft} {target path} (status : Status) (inner : Wrote draft target path) :
      Wrote ((Draft.mark status target).run draft).2 ((Draft.mark status target).run draft).1
        (.call status.word [path])
  | or {draft : Draft} {target target' path path'} (first : Wrote draft target path)
      (second : Wrote draft target' path') :
      Wrote ((Draft.or target target').run draft).2 ((Draft.or target target').run draft).1
        (.call "or" [path, path'])
  | later {before after : Draft} {id phrase} (h : Wrote before id phrase)
      (grows : before.Grows after) : Wrote after id phrase

/-- The expressions have been written into the draft, and say the phrases. -/
inductive WroteAll (draft : Draft) : List ExprId → List (Phrase String) → Prop
  | nil : WroteAll draft [] []
  | cons {id : ExprId} {ids : List ExprId} {phrase : Phrase String} {phrases : List (Phrase String)}
      (head : Wrote draft id phrase) (tail : WroteAll draft ids phrases) :
      WroteAll draft (id :: ids) (phrase :: phrases)

section

variable {final : NameTable} (hinitial : NameTable.initial.Extends final)
include hinitial

theorem internWords_word (status : Status) : (final.internWords status.word).1 = marker status := by
  have hname : NameTable.initial.name? (Text.canonical status.word) = some (marker status) := by
    cases status <;> decide +kernel
  rw [NameTable.internWords_of_name? (hinitial _ _ hname)]

theorem internWords_or : (final.internWords "or").1 = .or := by
  have hname : NameTable.initial.name? (Text.canonical "or") = some .or := by decide +kernel
  rw [NameTable.internWords_of_name? (hinitial _ _ hname)]

theorem internWords_collection : (final.internWords "COLLECTION").1 = .collection := by
  have hname : NameTable.initial.name? (Text.canonical "COLLECTION") = some .collection := by
    decide +kernel
  rw [NameTable.internWords_of_name? (hinitial _ _ hname)]

end

variable {final : NameTable} {store : ExprStore} {id' : ExprId}

/-- What has been written mirrors every expression that unfolds to the same phrase. The names of both
come from one table, of which `final` is a later state. -/
theorem Wrote.mirrors (h : Wrote draft id phrase) (hinitial : NameTable.initial.Extends final)
    (hnames : draft.names.Extends final) (hordered : store.Ordered)
    (hunfolds : Unfolds store id' (phrase.map fun text => (final.internWords text).1)) :
    Mirrors (fun _ _ => True) draft.store store id id' := by
  induction h generalizing id' with
  | call draft identifier =>
    have hadded := added_call draft identifier
    have hname := NameTable.Extends.internWords_eq hnames
    rw [Phrase.map, hname] at hunfolds
    cases hunfolds with
    | call expr list parts =>
      cases parts with
      | nil => exact .call hadded.expr expr trivial rfl list .nil
  | @access draft target receiver _ identifier ih =>
    have hadded := added_access draft target identifier
    have hname := NameTable.Extends.internWords_eq hnames
    rw [Phrase.map, hname] at hunfolds
    cases hunfolds with
    | access expr called' list parts =>
      cases parts with
      | nil =>
        have hcalled := ih (hadded.grows.names.trans hnames) called'
        have hage := Nat.lt_of_lt_of_le hcalled.lt_size.1 hadded.new
        exact .access hadded.expr expr trivial hage (hordered.older (.receiver expr))
          (hcalled.mono hadded.grows.store (.refl _)) rfl list .nil
  | @collection draft target array _ ih =>
    obtain ⟨place, hadded, hbare⟩ := added_collection draft target
    rw [Phrase.map, internWords_collection hinitial] at hunfolds
    cases hunfolds with
    | index expr indexed' bare =>
      have hindexed := ih (hadded.grows.names.trans hnames) indexed'
      have hage := Nat.lt_of_lt_of_le hindexed.lt_size.1 hadded.new
      exact .index hadded.expr expr trivial hage (hordered.older (.array expr))
        (hindexed.mono hadded.grows.store (.refl _)) hbare bare trivial
  | @mark draft target path status _ ih =>
    rw [mark_eq_apply] at hnames ⊢
    obtain ⟨range, hadded, hlist⟩ := added_apply draft (marker status) [target]
    rw [Phrase.map, internWords_word hinitial] at hunfolds
    cases hunfolds with
    | call expr list parts =>
      cases parts with
      | cons head tail =>
        cases tail with
        | nil =>
          have hinner := ih (hadded.grows.names.trans hnames) head
          exact .call hadded.expr expr trivial hlist list
            (.cons (hinner.mono hadded.grows.store (.refl _)) .nil)
  | @or draft target target' path path' _ _ ih ih' =>
    obtain ⟨range, hadded, hlist⟩ := added_apply draft .or [target, target']
    have hgrown := hadded.grows.names.trans hnames
    rw [Phrase.map, internWords_or hinitial] at hunfolds
    cases hunfolds with
    | call expr list parts =>
      cases parts with
      | cons head tail =>
        cases tail with
        | cons next rest =>
          cases rest with
          | nil =>
            exact .call hadded.expr expr trivial hlist list
              (.cons ((ih hgrown head).mono hadded.grows.store (.refl _))
                (.cons ((ih' hgrown next).mono hadded.grows.store (.refl _)) .nil))
  | later _ grows ih => exact (ih (grows.names.trans hnames) hunfolds).mono grows.store (.refl _)

theorem WroteAll.mirrors {ids ids' : List ExprId} {phrases : List (Phrase String)}
    (h : WroteAll draft ids phrases) (hinitial : NameTable.initial.Extends final)
    (hnames : draft.names.Extends final) (hordered : store.Ordered)
    (hunfolds : UnfoldsAll store ids'
      (phrases.map (Phrase.map fun text => (final.internWords text).1))) :
    MirrorsAll (fun _ _ => True) draft.store store ids ids' := by
  induction h generalizing ids' with
  | nil =>
    cases hunfolds with
    | nil => exact .nil
  | cons head _ ih =>
    cases hunfolds with
    | cons head' tail' => exact .cons (head.mirrors hinitial hnames hordered head') (ih tail')

end Draft

end InputDetail
