import InputDetail.Proofs.Name.Requests
import Mathlib.Data.List.Forall2

/-!
# Names by text

A table of names looks through its texts to find the name of one. Here a table keeps its names by text as
well, and adds to both sides when a text is new. It starts with the reserved names and gives the same
answers. So its two sides stay inverse to each other: names are numbers without gaps, each stands for
one text, and each text that was asked for has one name.
-/
namespace InputDetail

namespace Name

/-- The reserved names with their texts. -/
def reservedEntries : List (Name × String) :=
  [(empty, ""), (mandatory, "mandatory"), (optional, "optional"), (collection, "collection"),
    (or, "or")]

end Name

namespace NameTable

/-- Texts by number and names by text. -/
structure Indexed where
  texts : Array String
  names : Std.HashMap String Name

namespace Indexed

/-- Gives the next number to a text. -/
def push (indexed : Indexed) (text : String) : Indexed :=
  ⟨indexed.texts.push text, indexed.names.insert text ⟨indexed.texts.size⟩⟩

/-- The table that holds the reserved names alone. -/
def initial : Indexed := Name.reserved.foldl push ⟨#[], ∅⟩

/-- The name of a text. A new text is refused when every number is taken. -/
def tryIntern (indexed : Indexed) (text : String) : Except CapacityError (Name × Indexed) :=
  match indexed.names[text]? with
  | some name => .ok (name, indexed)
  | none =>
    if lastIndex < indexed.texts.size then .error (.overflow indexed.texts.size)
    else .ok (⟨indexed.texts.size⟩, indexed.push text)

/-- The answer to a request, and the table after it. -/
def answer (indexed : Indexed) (request : Request) : Except CapacityError Name × Indexed :=
  match indexed.tryIntern request.text with
  | .ok (name, indexed') => (.ok name, indexed')
  | .error e => (.error e, indexed)

def afterAll (indexed : Indexed) (requests : List Request) : Indexed :=
  requests.foldl (fun indexed request => (indexed.answer request).2) indexed

def answers : Indexed → List Request → List (Except CapacityError Name)
  | _, [] => []
  | indexed, request :: requests =>
    (indexed.answer request).1 :: (indexed.answer request).2.answers requests

variable {indexed : Indexed} {table : NameTable} {request : Request} {requests : List Request}
  {texts : List String}

/-- Both tables hold the same texts, and have the same names for them. -/
structure Agrees (indexed : Indexed) (table : NameTable) : Prop where
  texts : indexed.texts = table.texts
  names : ∀ text, indexed.names[text]? = table.name? text

theorem Agrees.push (h : indexed.Agrees table) {text : String} (hnew : table.name? text = none) :
    (indexed.push text).Agrees ⟨table.texts.push text⟩ := by
  refine ⟨by rw [Indexed.push, h.texts], fun other => ?_⟩
  rw [Indexed.push, Std.HashMap.getElem?_insert, h.texts, h.names]
  have hpush : (NameTable.mk (table.texts.push text)).name? other =
      (table.name? other).or (if text == other then some ⟨table.texts.size⟩ else none) := by
    rw [name?, Array.findIdx?_push, Option.map_or, name?]
    split <;> rfl
  rw [hpush]
  split
  · next heq => rw [← beq_iff_eq.1 heq, hnew, Option.none_or]
  · rw [Option.or_none]

/-- Each reserved text is new when it is added. -/
theorem agrees_initial : initial.Agrees NameTable.initial := by
  have hempty : Agrees ⟨#[], ∅⟩ ⟨#[]⟩ := ⟨rfl, fun text => by simp [name?]⟩
  exact ((((hempty.push (by cbv)).push (by cbv)).push (by cbv)).push (by cbv)).push (by cbv)

/-- A table that has room gives the same name as if it looked through its texts. -/
theorem Agrees.answer (h : indexed.Agrees table)
    (hroom : (table.name? request.text).isSome ∨ table.size ≤ lastIndex) :
    (indexed.answer request).1 = .ok (table.intern request.text).1 ∧
      (indexed.answer request).2.Agrees (table.intern request.text).2 := by
  rw [Indexed.answer, tryIntern, h.names]
  cases hname : table.name? request.text with
  | some name =>
    rw [intern_of_name? hname]
    exact ⟨rfl, h⟩
  | none =>
    rw [hname] at hroom
    have hsize : ¬ lastIndex < indexed.texts.size := by
      rw [h.texts]
      exact Nat.not_lt.2 (hroom.resolve_left Bool.false_ne_true)
    rw [intern_of_new hname]
    simp only [if_neg hsize]
    exact ⟨by rw [h.texts]; rfl, h.push hname⟩

/-- As long as there are no more different texts than numbers, both tables give the same answers. -/
theorem Agrees.answers (h : indexed.Agrees table) (hheld : table.Holds texts)
    (hroom : (texts ++ requests.map Request.text).dedup.length ≤ lastIndex + 1) :
    indexed.answers requests = table.answers requests ∧
      (indexed.afterAll requests).Agrees (table.afterAll requests) := by
  induction requests generalizing indexed table texts with
  | nil => exact ⟨rfl, h⟩
  | cons request requests ih =>
    rw [List.map_cons, List.append_cons] at hroom
    have hfirst := hheld.room (Nat.le_trans (length_dedup_le _ _) hroom)
    have htable := answer_of_room hfirst
    obtain ⟨hname, hagrees⟩ := h.answer hfirst
    obtain ⟨hanswers, hafter⟩ := ih hagrees (hheld.intern request.text) hroom
    rw [Indexed.answers, NameTable.answers, Indexed.afterAll, NameTable.afterAll, List.foldl_cons,
      List.foldl_cons, hname, htable]
    exact ⟨congrArg _ hanswers, hafter⟩

end Indexed

variable {requests : List Request}

theorem text?_initial : ∀ entry ∈ Name.reservedEntries, initial.text? entry.1 = some entry.2 := by
  decide

/-- Whatever names are asked for, as long as there are no more different texts than numbers, every
request is answered by a name, also by a table that keeps its names by text. Together with the reserved
ones these names are the numbers without gaps, and two of them are the same if and only if their texts
are. A name stands for the text that it was asked for, at once and whatever is asked later, and the
words of an identifier have a reserved name if and only if they are its text. Names that exist keep
their texts, and both sides of the table stay inverse to each other. -/
theorem names_of_requests
    (hroom : (Name.reserved ++ requests.map Request.text).dedup.length ≤ lastIndex + 1) :
    let table := initial.afterAll requests
    let indexed := Indexed.initial.afterAll requests
    ∃ names : List Name, initial.answers requests = names.map .ok ∧
      Indexed.initial.answers requests = names.map .ok ∧
      (let given := Name.reservedEntries ++ names.zip (requests.map Request.text)
      (∀ name : Name, name.index < table.size ↔ name ∈ given.map (·.1)) ∧
        ∀ entry ∈ given, ∀ other ∈ given, entry.1 = other.1 ↔ entry.2 = other.2) ∧
      (∀ earlier request later, requests = earlier ++ request :: later → ∃ name,
        names[earlier.length]? = some name ∧
        (initial.afterAll earlier).answer request =
          (.ok name, initial.afterAll (earlier ++ [request])) ∧
        (initial.afterAll (earlier ++ [request])).text? name = some request.text ∧
        table.text? name = some request.text ∧
        ∀ identifier, request = .internWords identifier → ∀ entry ∈ Name.reservedEntries,
          name = entry.1 ↔ Text.canonical identifier = entry.2) ∧
      (∀ earlier later, requests = earlier ++ later → ∀ (name : Name) (text : String),
        (initial.afterAll earlier).text? name = some text → table.text? name = some text) ∧
      indexed.texts = table.texts ∧
      ∀ (text : String) (name : Name),
        indexed.names[text]? = some name ↔ indexed.texts[name.index]? = some text := by
  intro table indexed
  obtain ⟨hheld, names, hnames, htexts⟩ := Holds.initial.answers hroom
  obtain ⟨hanswers, hagrees⟩ := Indexed.agrees_initial.answers Holds.initial hroom
  have hdistinct := hheld.distinct
  have hgiven : ∀ entry ∈ Name.reservedEntries ++ names.zip (requests.map Request.text),
      table.text? entry.1 = some entry.2 := by
    intro entry hentry
    obtain hreserved | hasked := List.mem_append.1 hentry
    · exact text?_afterAll (text?_initial entry hreserved) requests
    · exact (List.forall₂_iff_zip.1 htexts).2 hasked
  refine ⟨names, hnames, hanswers.trans hnames, ⟨?_, ?_⟩, ?_, ?_, hagrees.texts, ?_⟩
  · refine Holds.lt_size_iff ?_ hgiven
    rwa [List.map_append, List.map_snd_zip (Nat.le_of_eq htexts.length_eq.symm)]
  · intro entry hentry other hother
    exact hdistinct.eq_iff (hgiven entry hentry) (hgiven other hother)
  · rintro earlier request later rfl
    obtain ⟨name, hget, hanswer, htext⟩ := Holds.initial.answer_between hroom
    have hlater : table.text? name = some request.text := by
      have hsplit : table = (initial.afterAll (earlier ++ [request])).afterAll later := by
        rw [← afterAll_append, ← List.append_cons]
      exact hsplit ▸ text?_afterAll htext later
    refine ⟨name, ?_, hanswer, htext, hlater, ?_⟩
    · rw [hnames, List.getElem?_map] at hget
      obtain ⟨given, hgiven, heq⟩ := Option.map_eq_some_iff.1 hget
      rw [hgiven, Except.ok.inj heq]
    · rintro identifier rfl entry hentry
      exact hdistinct.eq_iff hlater (hgiven entry (List.mem_append_left _ hentry))
  · rintro earlier later rfl name text htext
    simp only [table, afterAll_append]
    exact text?_afterAll htext later
  · intro text name
    rw [hagrees.names, hdistinct.name?_eq_some_iff, hagrees.texts]
    rfl

theorem names_of_requests_sample :
    let requests : List Request :=
      [.internWords "dataCenter", .tryIntern "", .intern "data_center", .internWords "OR"]
    (Name.reserved ++ requests.map Request.text).dedup.length ≤ lastIndex + 1 ∧
      ∃ names : List Name, initial.answers requests = names.map .ok ∧
        (initial.afterAll requests).text? ⟨5⟩ = some "data_center" := by
  intro requests
  have hroom : (Name.reserved ++ requests.map Request.text).dedup.length ≤ lastIndex + 1 := by
    decide +kernel
  obtain ⟨names, hnames, -⟩ := names_of_requests hroom
  exact ⟨hroom, names, hnames, by decide +kernel⟩

end NameTable

end InputDetail
