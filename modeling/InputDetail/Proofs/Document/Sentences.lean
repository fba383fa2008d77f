import InputDetail.Proofs.Document.Drafts

/-!
# Statements written by hand

The statements of the documentation language as data: chains of calls, in markers or not, and
alternatives of two. Each can be written into any draft, from the inside outwards.
-/
namespace InputDetail.Draft

open Document

/-- A call of a chain, with `[COLLECTION]` behind it or not. -/
structure Link where
  identifier : String
  each : Bool

/-- `first()` and the calls behind it, from the inside outwards. -/
structure PlainChain where
  first : Link
  later : List Link

/-- A chain, a chain in a marker, or two chains of which exactly one is supplied. -/
inductive Sentence where
  | bare (chain : PlainChain)
  | marked (status : Status) (chain : PlainChain)
  | either (status : Status) (chain : PlainChain) (status' : Status) (chain' : PlainChain)

namespace Link

def phrase (link : Link) (called : Phrase String) : Phrase String :=
  if link.each then .index called "COLLECTION" else called

/-- Writes what stands behind the call. -/
def write (link : Link) (called : ExprId) : Write :=
  if link.each then collection called else pure called

end Link

namespace PlainChain

def phrase (chain : PlainChain) : Phrase String :=
  chain.later.foldl (fun receiver link => link.phrase (.access receiver link.identifier []))
    (chain.first.phrase (.call chain.first.identifier []))

def write (chain : PlainChain) : Write := do
  let first ← chain.first.write (← call chain.first.identifier)
  chain.later.foldlM (fun target link => do link.write (← access target link.identifier)) first

end PlainChain

namespace Sentence

def phrase : Sentence → Phrase String
  | bare chain => chain.phrase
  | marked status chain => .call status.word [chain.phrase]
  | either status chain status' chain' =>
    .call "or" [.call status.word [chain.phrase], .call status'.word [chain'.phrase]]

def write : Sentence → Write
  | bare chain => chain.write
  | marked status chain => do mark status (← chain.write)
  | either status chain status' chain' => do
    let first ← mark status (← chain.write)
    let second ← mark status' (← chain'.write)
    or first second

/-- Writes the sentences one after the other. -/
def writeAll (sentences : List Sentence) : StateM Draft (List ExprId) := sentences.mapM write

end Sentence

/-- The step keeps what the draft holds, and writes the phrase. -/
def Writes (step : Write) (phrase : Phrase String) (draft : Draft) : Prop :=
  draft.Grows (step.run draft).2 ∧ Wrote (step.run draft).2 (step.run draft).1 phrase

variable {draft : Draft} {id : ExprId} {phrase : Phrase String}

theorem Link.writes (link : Link) (h : Wrote draft id phrase) :
    Writes (link.write id) (link.phrase phrase) draft := by
  unfold Link.write Link.phrase
  split
  · obtain ⟨_, hadded, -⟩ := added_collection draft id
    exact ⟨hadded.grows, h.collection⟩
  · exact ⟨.refl _, h⟩

/-- Continues a step whose expression says `phrase`. -/
theorem Writes.bind {step : Write} {next : ExprId → Write} {phrase' : Phrase String}
    (h : Writes step phrase draft)
    (hnext : ∀ id later, draft.Grows later → Wrote later id phrase →
      Writes (next id) phrase' later) :
    Writes (step >>= next) phrase' draft := by
  have hlater := hnext _ _ h.1 h.2
  exact ⟨h.1.trans hlater.1, hlater.2⟩

theorem writes_call (draft : Draft) (identifier : String) :
    Writes (call identifier) (.call identifier []) draft :=
  ⟨(added_call draft identifier).grows, .call draft identifier⟩

theorem writes_access (h : Wrote draft id phrase) (identifier : String) :
    Writes (access id identifier) (.access phrase identifier []) draft :=
  ⟨(added_access draft id identifier).grows, h.access identifier⟩

theorem writes_mark (h : Wrote draft id phrase) (status : Status) :
    Writes (mark status id) (.call status.word [phrase]) draft := by
  obtain ⟨_, hadded, -⟩ := added_apply draft (marker status) [id]
  rw [← mark_eq_apply] at hadded
  exact ⟨hadded.grows, h.mark status⟩

theorem writes_or {id' : ExprId} {phrase' : Phrase String} (h : Wrote draft id phrase)
    (h' : Wrote draft id' phrase') : Writes (or id id') (.call "or" [phrase, phrase']) draft := by
  obtain ⟨_, hadded, -⟩ := added_apply draft .or [id, id']
  exact ⟨hadded.grows, h.or h'⟩

/-- Writes the calls behind a chain. -/
theorem writes_links (links : List Link) (h : Wrote draft id phrase) :
    Writes (links.foldlM (fun target link => do link.write (← access target link.identifier)) id)
      (links.foldl (fun receiver link => link.phrase (.access receiver link.identifier [])) phrase)
      draft := by
  induction links generalizing draft id phrase with
  | nil => exact ⟨.refl _, h⟩
  | cons link links ih =>
    rw [List.foldlM_cons, List.foldl_cons]
    refine Writes.bind ?_ fun _ _ _ hlink => ih hlink
    exact (writes_access h link.identifier).bind fun _ _ _ hcall => link.writes hcall

theorem PlainChain.writes (chain : PlainChain) (draft : Draft) :
    Writes chain.write chain.phrase draft := by
  refine (writes_call draft chain.first.identifier).bind fun _ _ _ hcall => ?_
  exact (chain.first.writes hcall).bind fun _ _ _ hfirst => writes_links chain.later hfirst

theorem Sentence.writes (sentence : Sentence) (draft : Draft) :
    Writes sentence.write sentence.phrase draft := by
  cases sentence with
  | bare chain => exact chain.writes draft
  | marked status chain =>
    exact (chain.writes draft).bind fun _ _ _ hchain => writes_mark hchain status
  | either status chain status' chain' =>
    refine (chain.writes draft).bind fun _ _ _ hchain => ?_
    refine (writes_mark hchain status).bind fun _ _ _ hfirst => ?_
    refine (chain'.writes _).bind fun _ _ hgrows hchain' => ?_
    refine (writes_mark hchain' status').bind fun _ _ hgrows' hsecond => ?_
    exact writes_or (hfirst.later (hgrows.trans hgrows')) hsecond

/-- Any statements can be written into any draft. -/
theorem writeAll_spec (sentences : List Sentence) (draft : Draft) :
    draft.Grows ((Sentence.writeAll sentences).run draft).2 ∧
      WroteAll ((Sentence.writeAll sentences).run draft).2
        ((Sentence.writeAll sentences).run draft).1 (sentences.map Sentence.phrase) := by
  unfold Sentence.writeAll
  induction sentences generalizing draft with
  | nil => exact ⟨.refl _, .nil⟩
  | cons sentence sentences ih =>
    obtain ⟨hgrows, hhead⟩ := sentence.writes draft
    obtain ⟨hgrows', htail⟩ := ih (sentence.write.run draft).2
    rw [List.mapM_cons]
    exact ⟨hgrows.trans hgrows', .cons (hhead.later hgrows') htail⟩

end InputDetail.Draft
