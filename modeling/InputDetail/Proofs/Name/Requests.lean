import InputDetail.Proofs.Name.Interning
import Mathlib.Data.List.Dedup
import Mathlib.Data.List.Perm.Subperm

/-!
# Names by request

A table of names is asked for one name after the other. What it holds is always the reserved texts and
the texts it was asked for, each once; so it never has more texts than that, and it refuses a request
only if there are more different texts than numbers.
-/
namespace InputDetail.NameTable

/-- Asks for the name of a text, or of an identifier. -/
inductive Request where
  | tryIntern (text : String)
  | intern (text : String)
  | internWords (identifier : String)

/-- The text that gets the name. -/
def Request.text : Request → String
  | tryIntern text => text
  | intern text => text
  | internWords identifier => Text.canonical identifier

/-- The answer to a request, and the table after it. -/
def answer (table : NameTable) : Request → Except CapacityError Name × NameTable
  | .tryIntern text => match table.tryIntern text with
    | .ok (name, table') => (.ok name, table')
    | .error e => (.error e, table)
  | .intern text => ((table.intern text).map .ok id)
  | .internWords identifier => ((table.internWords identifier).map .ok id)

/-- The table after several requests. -/
def afterAll (table : NameTable) (requests : List Request) : NameTable :=
  requests.foldl (fun table request => (table.answer request).2) table

/-- The answers to several requests. -/
def answers : NameTable → List Request → List (Except CapacityError Name)
  | _, [] => []
  | table, request :: requests =>
    (table.answer request).1 :: (table.answer request).2.answers requests

variable {table : NameTable} {request : Request} {requests : List Request} {texts : List String}

/-- A table that has room answers as if it were unbounded. -/
theorem answer_of_room (h : (table.name? request.text).isSome ∨ table.size ≤ lastIndex) :
    table.answer request = (table.intern request.text).map .ok id := by
  have hroom : ((table.name? request.text).isNone && decide (lastIndex < table.size)) = false := by
    obtain hknown | hsize := h
    · rw [← Option.not_isSome, hknown, Bool.not_true, Bool.false_and]
    · rw [decide_eq_false (by omega), Bool.and_false]
  cases request with
  | tryIntern text =>
    rw [Request.text] at hroom
    rw [answer, tryIntern, hroom]
    rfl
  | intern text => rfl
  | internWords identifier => rfl

/-- The table holds the texts of the list, each once. -/
structure Holds (table : NameTable) (texts : List String) : Prop where
  nodup : table.texts.toList.Nodup
  mem : ∀ text, text ∈ table.texts.toList ↔ text ∈ texts

namespace Holds

theorem distinct (h : table.Holds texts) : table.Distinct := distinct_of_nodup h.nodup

theorem size_eq (h : table.Holds texts) : table.size = texts.dedup.length := by
  have hperm : table.texts.toList.Perm texts.dedup := by
    rw [List.perm_ext_iff_of_nodup h.nodup texts.nodup_dedup]
    intro text
    rw [h.mem, List.mem_dedup]
  rw [← hperm.length_eq, Array.length_toList]
  rfl

theorem initial : initial.Holds Name.reserved := ⟨by decide, fun _ => Iff.rfl⟩

/-- If there is a name for every text, then these are all names. -/
theorem lt_size_iff {entries : List (Name × String)} (h : table.Holds (entries.map (·.2)))
    (hentries : ∀ entry ∈ entries, table.text? entry.1 = some entry.2) (name : Name) :
    name.index < table.size ↔ name ∈ entries.map (·.1) := by
  constructor
  · intro hname
    have htext : table.texts[name.index] ∈ entries.map (·.2) := by
      rw [← h.mem, Array.mem_toList_iff]
      exact Array.getElem_mem hname
    obtain ⟨entry, hentry, heq⟩ := List.mem_map.1 htext
    have hknown : table.text? name = some entry.2 := by
      rw [heq]
      exact Array.getElem?_eq_getElem hname
    exact List.mem_map.2 ⟨entry, hentry, h.distinct (hentries entry hentry) hknown⟩
  · intro hname
    obtain ⟨entry, hentry, rfl⟩ := List.mem_map.1 hname
    exact (Array.getElem?_eq_some_iff.1 (hentries entry hentry)).1

theorem mem_iff_name? (h : table.Holds texts) {text : String} :
    text ∈ texts ↔ (table.name? text).isSome := by
  rw [← h.mem, Array.mem_toList_iff, Array.mem_iff_getElem?, Option.isSome_iff_exists]
  simp only [h.distinct.name?_eq_some_iff]
  exact ⟨fun ⟨index, hindex⟩ => ⟨⟨index⟩, hindex⟩, fun ⟨name, hname⟩ => ⟨name.index, hname⟩⟩

theorem intern (h : table.Holds texts) (text : String) :
    (table.intern text).2.Holds (texts ++ [text]) := by
  cases hname : table.name? text with
  | some name =>
    have hmem : text ∈ texts := h.mem_iff_name?.2 (by rw [hname]; rfl)
    rw [intern_of_name? hname]
    refine ⟨h.nodup, fun other => ?_⟩
    rw [h.mem, List.mem_append, List.mem_singleton]
    exact ⟨Or.inl, fun hother => hother.elim id fun heq => heq ▸ hmem⟩
  | none =>
    have hfresh : text ∉ table.texts.toList := by
      rw [h.mem, h.mem_iff_name?, hname]
      simp
    rw [intern_of_new hname]
    constructor
    · rw [Array.toList_push, List.nodup_append_comm, List.singleton_append, List.nodup_cons]
      exact ⟨hfresh, h.nodup⟩
    · intro other
      rw [Array.toList_push, List.mem_append, List.mem_append, h.mem]

/-- As long as there are no more different texts than numbers, there is room for the next one. -/
theorem room (h : table.Holds texts) {text : String}
    (hroom : (texts ++ [text]).dedup.length ≤ lastIndex + 1) :
    (table.name? text).isSome ∨ table.size ≤ lastIndex := by
  rw [← h.mem_iff_name?]
  by_cases hmem : text ∈ texts
  · exact Or.inl hmem
  · right
    have hafter := (h.intern text).size_eq
    have hnone : table.name? text = none := by
      rwa [← Option.not_isSome_iff_eq_none, ← h.mem_iff_name?]
    rw [intern_of_new hnone] at hafter
    simp only [size, Array.size_push] at hafter ⊢
    omega

end Holds

theorem afterAll_append (table : NameTable) (earlier later : List Request) :
    table.afterAll (earlier ++ later) = (table.afterAll earlier).afterAll later :=
  List.foldl_append

theorem afterAll_snoc (table : NameTable) (earlier : List Request) (request : Request) :
    table.afterAll (earlier ++ [request]) = ((table.afterAll earlier).answer request).2 :=
  table.afterAll_append earlier [request]

/-- An answer depends on the requests before it. -/
theorem answers_append (table : NameTable) (earlier later : List Request) :
    table.answers (earlier ++ later) =
      table.answers earlier ++ (table.afterAll earlier).answers later := by
  induction earlier generalizing table with
  | nil => rfl
  | cons request earlier ih => exact congrArg _ (ih (table.answer request).2)

theorem length_answers (table : NameTable) (requests : List Request) :
    (table.answers requests).length = requests.length := by
  induction requests generalizing table with
  | nil => rfl
  | cons request requests ih => exact congrArg _ (ih (table.answer request).2)

/-- No answer takes a name back. -/
theorem text?_answer {name : Name} {text : String} (h : table.text? name = some text)
    (request : Request) : (table.answer request).2.text? name = some text := by
  cases request with
  | tryIntern other =>
    rw [answer, tryIntern]
    split_ifs
    · exact h
    · exact text?_intern_of_some h other
  | intern other => exact text?_intern_of_some h other
  | internWords identifier => exact text?_intern_of_some h _

theorem text?_afterAll {name : Name} {text : String} (h : table.text? name = some text)
    (requests : List Request) : (table.afterAll requests).text? name = some text := by
  induction requests generalizing table with
  | nil => exact h
  | cons request requests ih => exact ih (text?_answer h request)

theorem extends_answer (table : NameTable) (request : Request) :
    table.Extends (table.answer request).2 := by
  cases request with
  | tryIntern text =>
    rw [answer, tryIntern]
    split_ifs
    · exact .refl table
    · exact fun _ _ hname => name?_intern_of_some hname text
  | intern text => exact fun _ _ hname => name?_intern_of_some hname text
  | internWords identifier => exact extends_internWords table identifier

theorem extends_afterAll (table : NameTable) (requests : List Request) :
    table.Extends (table.afterAll requests) := by
  induction requests generalizing table with
  | nil => exact .refl table
  | cons request requests ih => exact (extends_answer table request).trans (ih _)

/-- An identifier that is asked for later has the name of an earlier one if and only if its canonical
spelling is the same. -/
theorem internWords_afterAll_eq_iff (table : NameTable) (requests : List Request)
    (earlier identifier : String) :
    (((table.internWords earlier).2.afterAll requests).internWords identifier).1 =
      (table.internWords earlier).1 ↔ Text.canonical identifier = Text.canonical earlier := by
  have hname : (table.internWords earlier).2.name? (Text.canonical earlier) =
      some (table.internWords earlier).1 := name?_intern table _
  exact internWords_eq_iff (extends_afterAll _ requests _ _ hname)

/-- The texts of requests that come first are not more than those of all requests. -/
theorem length_dedup_le (texts more : List String) :
    texts.dedup.length ≤ (texts ++ more).dedup.length := by
  refine (List.subperm_of_subset texts.nodup_dedup fun text htext => ?_).length_le
  rw [List.mem_dedup] at htext ⊢
  exact List.mem_append_left more htext

/-- As long as there are no more different texts than numbers, every request is answered by a name. It
is the name of the text in every table that follows. -/
theorem Holds.answers (h : table.Holds texts)
    (hroom : (texts ++ requests.map Request.text).dedup.length ≤ lastIndex + 1) :
    (table.afterAll requests).Holds (texts ++ requests.map Request.text) ∧
      ∃ names : List Name, table.answers requests = names.map .ok ∧
        List.Forall₂ (fun name text => (table.afterAll requests).text? name = some text) names
          (requests.map Request.text) := by
  induction requests generalizing table texts with
  | nil => exact ⟨by rwa [List.map_nil, List.append_nil], [], rfl, .nil⟩
  | cons request requests ih =>
    rw [List.map_cons, List.append_cons] at hroom
    have hanswer := answer_of_room (h.room (Nat.le_trans (length_dedup_le _ _) hroom))
    obtain ⟨hafter, names, hnames, htexts⟩ := ih (h.intern request.text) hroom
    have hfirst := text?_afterAll (table.text?_intern request.text) requests
    have hrest : table.afterAll (request :: requests) =
        (table.intern request.text).2.afterAll requests := by
      rw [afterAll, List.foldl_cons, hanswer]
      rfl
    refine ⟨?_, (table.intern request.text).1 :: names, ?_, ?_⟩
    · rwa [hrest, List.map_cons, List.append_cons]
    · rw [NameTable.answers, hanswer, List.map_cons]
      exact congrArg _ hnames
    · rw [hrest]
      exact .cons hfirst htexts

/-- A request between others is answered by a name that stands for its text. -/
theorem Holds.answer_between {earlier later : List Request} (h : table.Holds texts)
    (hroom : (texts ++ (earlier ++ request :: later).map Request.text).dedup.length ≤
      lastIndex + 1) :
    ∃ name, (table.answers (earlier ++ request :: later))[earlier.length]? = some (.ok name) ∧
      (table.afterAll earlier).answer request = (.ok name, table.afterAll (earlier ++ [request])) ∧
      (table.afterAll (earlier ++ [request])).text? name = some request.text := by
  rw [List.append_cons, List.map_append, ← List.append_assoc, List.map_append,
    ← List.append_assoc] at hroom
  have hfirst := Nat.le_trans (length_dedup_le _ _) hroom
  obtain ⟨hbefore, -⟩ := h.answers (Nat.le_trans (length_dedup_le _ _) hfirst)
  have hanswer := answer_of_room (hbefore.room hfirst)
  have hsnoc := table.afterAll_snoc earlier request
  rw [hanswer] at hsnoc
  refine ⟨((table.afterAll earlier).intern request.text).1, ?_, ?_, ?_⟩
  · rw [answers_append, List.getElem?_append_right (Nat.le_of_eq (table.length_answers earlier)),
      table.length_answers, Nat.sub_self, NameTable.answers, hanswer]
    rfl
  · rw [hanswer, hsnoc]
    rfl
  · rw [hsnoc]
    exact text?_intern _ _

end InputDetail.NameTable
