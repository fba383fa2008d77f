import InputDetail.Proofs.Types.Consistency
import Mathlib.Data.List.Nodup

/-!
# Types by name and by element type

A table of types looks through its definitions for the type with a name, or for the list of an element
type. Here a pool has a map for either, and a struct holds its members beside a mark that they have been
defined. So a construction that adds a type writes it twice, one that defines members changes the types
alone, and one that is refused changes neither the types nor the maps. Still the pool gives the answers
of the table along every history, and its maps lead to exactly the types that belong there.
-/
namespace InputDetail.TypeTable

/-- A type as a pool holds it. A struct has a list of members from the beginning. -/
inductive Entry where
  | primitive (kind : Primitive)
  | enum (name : Name) (values : List Name)
  | struct (name : Name) (members : List Member) (defined : Bool)
  | list (element : TypeId)
deriving DecidableEq

namespace Entry

/-- The name of an enum or a struct. -/
def name? : Entry → Option Name
  | enum name _ => some name
  | struct name _ _ => some name
  | _ => none

/-- The members of a struct, whether they have been defined or not. -/
def members : Entry → List Member
  | struct _ members _ => members
  | _ => []

/-- The entry for a definition. -/
def of : TypeDef → Entry
  | .primitive kind => primitive kind
  | .enum name values => enum name values
  | .struct name none => struct name [] false
  | .struct name (some members) => struct name members true
  | .list element => list element

@[simp] theorem name?_of (definition : TypeDef) : (of definition).name? = definition.name? := by
  rcases definition with _ | _ | ⟨_, _ | _⟩ | _ <;> rfl

@[simp] theorem members_of (definition : TypeDef) : (of definition).members = definition.members := by
  rcases definition with _ | _ | ⟨_, _ | _⟩ | _ <;> rfl

theorem of_injective {definition other : TypeDef} (h : of definition = of other) :
    definition = other := by
  rcases definition with _ | _ | ⟨_, _ | _⟩ | _ <;> rcases other with _ | _ | ⟨_, _ | _⟩ | _ <;>
    cases h <;> rfl

theorem eq_nil_of_undefined {definition : TypeDef} {name : Name} {members : List Member}
    (h : of definition = struct name members false) : members = [] := by
  rcases definition with _ | _ | ⟨_, _ | _⟩ | _ <;> cases h
  rfl

end Entry

/-- Types by number, lists by element type, enums and structs by name. -/
structure Indexed where
  items : Array Entry
  lists : Std.HashMap TypeId TypeId
  named : Std.HashMap Name TypeId

namespace Indexed

/-- The pool that holds the primitive types alone. -/
def initial : Indexed := ⟨(Primitive.all.map Entry.primitive).toArray, ∅, ∅⟩

def get? (pool : Indexed) (type : TypeId) : Option Entry := pool.items[type.index]?

/-- The type of a struct's member. -/
def member? (pool : Indexed) (type : TypeId) (name : Name) : Option TypeId :=
  (pool.get? type).bind fun entry => (entry.members.find? (·.name == name)).map (·.type)

/-- The list type with that element type, which is added if there is none. -/
def list (pool : Indexed) (element : TypeId) : TypeId × Indexed :=
  match pool.lists[element]? with
  | some type => (type, pool)
  | none =>
    let type : TypeId := ⟨pool.items.size⟩
    (type, ⟨pool.items.push (.list element), pool.lists.insert element type, pool.named⟩)

/-- Appends an enum or a struct, whose name must be new. -/
def pushNamed (pool : Indexed) (name : Name) (entry : Entry) : Except TypeError (TypeId × Indexed) :=
  if pool.named.contains name then .error (.duplicateType name)
  else
    let type : TypeId := ⟨pool.items.size⟩
    .ok (type, ⟨pool.items.push entry, pool.lists, pool.named.insert name type⟩)

def enum (pool : Indexed) (name : Name) (values : List Name) : Except TypeError (TypeId × Indexed) :=
  pool.pushNamed name (.enum name values)

/-- Adds a struct whose members are defined later. -/
def declare (pool : Indexed) (name : Name) : Except TypeError (TypeId × Indexed) :=
  pool.pushNamed name (.struct name [] false)

/-- Defines the members of a declared struct. A repeated member is refused before the type is
looked at. -/
def define (pool : Indexed) (type : TypeId) (members : List Member) : Except TypeError Indexed :=
  match repeatedName? [] members with
  | some member => .error (.duplicateMember type member)
  | none => match pool.get? type with
    | some (.struct name _ defined) =>
      if defined then .error (.alreadyDefined type)
      else .ok { pool with items := pool.items.setIfInBounds type.index (.struct name members true) }
    | _ => .error (.notAStruct type)

/-- Declares a struct and defines its members. The declaration stays when the members are refused. -/
def struct (pool : Indexed) (name : Name) (members : List Member) :
    Except TypeError TypeId × Indexed :=
  match pool.declare name with
  | .error e => (.error e, pool)
  | .ok (type, declared) => match declared.define type members with
    | .error e => (.error e, declared)
    | .ok defined => (.ok type, defined)

/-- The pool after an addition. It stays as it was if the addition is refused. -/
def settle (pool : Indexed) :
    Except TypeError (TypeId × Indexed) → Except TypeError (Option TypeId) × Indexed
  | .ok (type, pool') => (.ok type, pool')
  | .error e => (.error e, pool)

/-- The answer to a construction, and the pool after it. Where members are defined, the answer is no
type. -/
def answer (pool : Indexed) : Construction → Except TypeError (Option TypeId) × Indexed
  | .list element => (.ok (pool.list element).1, (pool.list element).2)
  | .enum name values => pool.settle (pool.enum name values)
  | .declare name => pool.settle (pool.declare name)
  | .define type members => match pool.define type members with
    | .ok pool' => (.ok none, pool')
    | .error e => (.error e, pool)
  | .struct name members => ((pool.struct name members).1.map some, (pool.struct name members).2)

def answers : Indexed → List Construction → List (Except TypeError (Option TypeId))
  | _, [] => []
  | pool, construction :: history =>
    (pool.answer construction).1 :: (pool.answer construction).2.answers history

/-- The pool that constructions leave, one after the other. -/
def constructAll (pool : Indexed) (history : List Construction) : Indexed :=
  history.foldl (fun pool construction => (pool.answer construction).2) pool

end Indexed

/-- The answer of a table to a construction. -/
def answer (table : TypeTable) : Construction → Except TypeError (Option TypeId)
  | .list element => .ok (table.list element).1
  | .enum name values => (table.enum name values).map fun added => some added.1
  | .declare name => (table.declare name).map fun added => some added.1
  | .define type members => (table.define type members).map fun _ => none
  | .struct name members => (table.struct name members).1.map some

def answers : TypeTable → List Construction → List (Except TypeError (Option TypeId))
  | _, [] => []
  | table, construction :: history =>
    table.answer construction :: (table.construct construction).answers history

variable {table : TypeTable} {type element : TypeId} {name : Name} {definition : TypeDef}
  {members : List Member}

/-- Defining members changes no search that does not look at them. -/
theorem find?_members {p : TypeDef → Bool} (declared : table.get? type = some (.struct name none))
    (hp : p (.struct name (some members)) = p (.struct name none)) :
    find? ⟨table.defs.setIfInBounds type.index (.struct name (some members))⟩ p = table.find? p := by
  have hmap : (table.defs.setIfInBounds type.index (.struct name (some members))).map p =
      table.defs.map p := by
    refine Array.ext_getElem? fun index => ?_
    have hget : get? ⟨table.defs.setIfInBounds type.index (.struct name (some members))⟩ ⟨index⟩ = _ :=
      get?_members declared ⟨index⟩
    simp only [get?] at hget declared
    rw [Array.getElem?_map, Array.getElem?_map, hget]
    split
    · next hindex =>
      obtain rfl := hindex
      rw [declared, Option.map_some, Option.map_some, hp]
    · rfl
  have hsearch : ∀ defs : Array TypeDef, defs.findIdx? p = (defs.map p).findIdx? id := fun defs => by
    rw [Array.findIdx?_map, Function.id_comp]
  rw [find?, find?, hsearch, hmap, ← hsearch]

namespace Indexed

variable {pool : Indexed}

/-- The pool holds the types of the table, and its maps lead where the searches do. -/
structure Agrees (pool : Indexed) (table : TypeTable) : Prop where
  items : pool.items = table.defs.map Entry.of
  lists : ∀ element, pool.lists[element]? = table.find? (· == .list element)
  named : ∀ name, pool.named[name]? = table.byName? name

theorem agrees_initial : initial.Agrees TypeTable.initial := by
  refine ⟨by simp [initial, TypeTable.initial, Entry.of, Function.comp_def], fun element => ?_,
    fun name => ?_⟩
  · rw [initial, Std.HashMap.getElem?_empty, eq_comm, find?_eq_none_iff]
    intro type known hget
    obtain ⟨kind, rfl⟩ := exists_primitive_of_initial hget
    rfl
  · rw [initial, Std.HashMap.getElem?_empty, eq_comm, byName?, find?_eq_none_iff]
    intro type known hget
    obtain ⟨kind, rfl⟩ := exists_primitive_of_initial hget
    rfl

namespace Agrees

theorem get? (h : pool.Agrees table) (type : TypeId) :
    pool.get? type = (table.get? type).map Entry.of := by
  rw [Indexed.get?, h.items, Array.getElem?_map]
  rfl

theorem size (h : pool.Agrees table) : pool.items.size = table.size := by
  rw [h.items, Array.size_map]
  rfl

theorem get?_eq_some_iff (h : pool.Agrees table) (definition : TypeDef) :
    pool.get? type = some (.of definition) ↔ table.get? type = some definition := by
  rw [h.get?, Option.map_eq_some_iff]
  constructor
  · rintro ⟨known, hget, hknown⟩
    rwa [Entry.of_injective hknown] at hget
  · intro hget
    exact ⟨definition, hget, rfl⟩

theorem member? (h : pool.Agrees table) (type : TypeId) (name : Name) :
    pool.member? type name = table.member? type name := by
  rw [Indexed.member?, h.get?, TypeTable.member?]
  cases table.get? type with
  | none => rfl
  | some definition => rw [Option.map_some, Option.bind_some, Option.bind_some, Entry.members_of]

theorem push_items (h : pool.Agrees table) (definition : TypeDef) :
    pool.items.push (.of definition) = (table.push definition).2.defs.map Entry.of := by
  rw [push, Array.map_push, h.items]

theorem list (h : pool.Agrees table) (element : TypeId) :
    (pool.list element).1 = (table.list element).1 ∧
      (pool.list element).2.Agrees (table.list element).2 := by
  rw [Indexed.list, TypeTable.list, h.lists]
  cases hfind : table.find? (· == .list element) with
  | some type => exact ⟨rfl, h⟩
  | none =>
    refine ⟨congrArg TypeId.mk h.size, h.push_items (.list element), fun other => ?_, fun name => ?_⟩
    · rw [find?_push, Std.HashMap.getElem?_insert, h.lists, h.size]
      by_cases hother : element = other
      · subst hother
        simp [hfind]
      · simp [hother]
    · rw [h.named, byName?, byName?, find?_push]
      simp [TypeDef.name?]

end Agrees

/-- Both are refused for the same reason, or both give what is related. -/
inductive Alike {α β : Type} (related : α → β → Prop) : Except TypeError α → Except TypeError β → Prop
  | refused (e : TypeError) : Alike related (.error e) (.error e)
  | given {a : α} {b : β} (h : related a b) : Alike related (.ok a) (.ok b)

/-- The same type, in a pool and in a table that agree. -/
def AgreesAt (added : TypeId × Indexed) (added' : TypeId × TypeTable) : Prop :=
  added.1 = added'.1 ∧ added.2.Agrees added'.2

namespace Agrees

theorem pushNamed (h : pool.Agrees table) (definition : TypeDef)
    (hname : definition.name? = some name) :
    Alike AgreesAt (pool.pushNamed name (.of definition)) (table.pushNamed name definition) := by
  have hlist : ∀ element, definition ≠ .list element := by
    rintro element rfl
    cases hname
  rw [Indexed.pushNamed, TypeTable.pushNamed, Std.HashMap.contains_eq_isSome_getElem?, h.named]
  cases htaken : table.byName? name with
  | some type => exact .refused _
  | none =>
    refine .given ⟨congrArg TypeId.mk h.size, h.push_items definition, fun element => ?_, fun other => ?_⟩
    · rw [h.lists, find?_push, beq_false_of_ne (hlist element)]
      simp
    · rw [Std.HashMap.getElem?_insert, h.named, h.size, byName?, byName?, find?_push, hname]
      by_cases hother : name = other
      · subst hother
        rw [byName?] at htaken
        simp [htaken]
      · simp [hother]

theorem settle (h : pool.Agrees table) {added : Except TypeError (TypeId × Indexed)}
    {added' : Except TypeError (TypeId × TypeTable)} : Alike AgreesAt added added' →
    (pool.settle added).1 = added'.map (fun added => some added.1) ∧
      (pool.settle added).2.Agrees (match added' with
        | .ok (_, table') => table'
        | .error _ => table) := by
  intro hadded
  cases hadded with
  | refused e => exact ⟨rfl, h⟩
  | given hadded => exact ⟨congrArg (Except.ok ∘ some) hadded.1, hadded.2⟩

theorem define (h : pool.Agrees table) (type : TypeId) (members : List Member) :
    Alike Agrees (pool.define type members) (table.define type members) := by
  rw [Indexed.define, TypeTable.define]
  cases repeatedName? [] members with
  | some member => exact .refused _
  | none =>
    rw [h.get?]
    rcases hget : table.get? type with _ | _ | _ | ⟨name, _ | known⟩ | _
    case some.struct.none =>
      refine .given ⟨?_, fun element => ?_, fun other => ?_⟩
      · rw [Array.map_setIfInBounds, h.items]
        rfl
      · rw [h.lists, find?_members hget rfl]
      · rw [h.named, byName?, byName?, find?_members hget rfl]
    all_goals exact .refused _

theorem struct (h : pool.Agrees table) (name : Name) (members : List Member) :
    (pool.struct name members).1 = (table.struct name members).1 ∧
      (pool.struct name members).2.Agrees (table.struct name members).2 := by
  have hdeclare : Alike AgreesAt (pool.declare name) (table.declare name) :=
    h.pushNamed (.struct name none) rfl
  rw [Indexed.struct, TypeTable.struct]
  generalize pool.declare name = declared, table.declare name = declared' at hdeclare
  cases hdeclare with
  | refused e => exact ⟨rfl, h⟩
  | @given added added' hadded =>
    obtain ⟨type, pool'⟩ := added
    obtain ⟨type', table'⟩ := added'
    obtain ⟨rfl, hagrees⟩ := hadded
    have hdefine := Agrees.define hagrees type members
    dsimp only
    generalize pool'.define type members = defined, table'.define type members = defined' at hdefine
    cases hdefine with
    | refused e => exact ⟨rfl, hagrees⟩
    | given hdefined => exact ⟨rfl, hdefined⟩

/-- A construction gives the same answer in both, and they agree after it. -/
theorem answer (h : pool.Agrees table) (construction : Construction) :
    (pool.answer construction).1 = table.answer construction ∧
      (pool.answer construction).2.Agrees (table.construct construction) := by
  cases construction with
  | list element =>
    obtain ⟨htype, hagrees⟩ := h.list element
    refine ⟨?_, hagrees⟩
    rw [Indexed.answer, TypeTable.answer, htype]
  | enum name values => exact h.settle (h.pushNamed (.enum name values) rfl)
  | declare name => exact h.settle (h.pushNamed (.struct name none) rfl)
  | define type members =>
    have hdefine := h.define type members
    rw [Indexed.answer, TypeTable.answer, construct]
    generalize pool.define type members = defined, table.define type members = defined' at hdefine
    cases hdefine with
    | refused e => exact ⟨rfl, h⟩
    | given hdefined => exact ⟨rfl, hdefined⟩
  | struct name members =>
    obtain ⟨htype, hagrees⟩ := h.struct name members
    exact ⟨congrArg (Except.map some) htype, hagrees⟩

/-- Along every history both give the same answers. -/
theorem answers (h : pool.Agrees table) (history : List Construction) :
    pool.answers history = table.answers history ∧
      (pool.constructAll history).Agrees (table.constructAll history) := by
  induction history generalizing pool table with
  | nil => exact ⟨rfl, h⟩
  | cons construction history ih =>
    obtain ⟨hanswer, hagrees⟩ := h.answer construction
    obtain ⟨hanswers, hafter⟩ := ih hagrees
    rw [Indexed.answers, TypeTable.answers, hanswer, hanswers]
    exact ⟨rfl, hafter⟩

theorem get?_eq_list_iff (h : pool.Agrees table) :
    pool.get? type = some (.list element) ↔ table.get? type = some (.list element) :=
  h.get?_eq_some_iff (.list element)

/-- The map of names leads to exactly the enums and structs. -/
theorem named_eq_some_iff (h : pool.Agrees table) (hconsistent : table.Consistent) :
    pool.named[name]? = some type ↔
      ∃ entry, pool.get? type = some entry ∧ entry.name? = some name := by
  rw [h.named, hconsistent.byName?_eq_some_iff, h.get?]
  simp [Option.map_eq_some_iff]

/-- The map of element types leads to exactly the lists. -/
theorem lists_eq_some_iff (h : pool.Agrees table) (hconsistent : table.Consistent) :
    pool.lists[element]? = some type ↔ pool.get? type = some (.list element) := by
  rw [h.lists, hconsistent.find?_list_eq_some_iff, h.get?_eq_list_iff]

/-- There is one list type with an element type, once there is any. -/
theorem list_fst_eq_iff (h : pool.Agrees table) (hconsistent : table.Consistent) :
    (pool.list element).1 = type ↔ (pool.list element).2.get? type = some (.list element) := by
  obtain ⟨htype, hagrees⟩ := h.list element
  rw [htype, hagrees.get?_eq_list_iff, hconsistent.list_fst_eq_iff]

/-- A list type that is there is used again. -/
theorem list_eq_iff (h : pool.Agrees table) (hconsistent : table.Consistent) :
    pool.list element = (type, pool) ↔ pool.get? type = some (.list element) := by
  constructor
  · intro hlist
    have hself : (pool.list element).2.get? (pool.list element).1 = some (.list element) :=
      (h.list_fst_eq_iff hconsistent).1 rfl
    rwa [hlist] at hself
  · intro hget
    rw [Indexed.list, (h.lists_eq_some_iff hconsistent).2 hget]

/-- Whatever is constructed, an entry stays as it is, or a struct gets its members. -/
theorem get?_constructAll (h : pool.Agrees table) {entry : Entry} (hget : pool.get? type = some entry)
    (later : List Construction) : ∃ entry', (pool.constructAll later).get? type = some entry' ∧
      (entry' = entry ∨ ∃ name members, entry = .struct name [] false ∧
        entry' = .struct name members true) := by
  rw [h.get?] at hget
  obtain ⟨definition, hdefinition, rfl⟩ := Option.map_eq_some_iff.1 hget
  obtain ⟨definition', hget', hgrows⟩ := extends_of_adds (table.adds_constructAll later) hdefinition
  refine ⟨.of definition', ((h.answers later).2.get?_eq_some_iff _).2 hget', ?_⟩
  cases hgrows with
  | same => exact Or.inl rfl
  | defined name members => exact Or.inr ⟨name, members, rfl, rfl⟩

end Agrees

end Indexed

/-- Whatever was constructed, and whatever was refused, the pool has given the answers of the table. Its
map of names leads to exactly the enums and structs, and its map of element types to exactly the lists, so
that no two types have the same name and no two lists the same elements. A struct has different members,
and none as long as they are not defined. Whatever is constructed later, a type stays what it is; only a
struct whose members are not defined may get them, once. -/
theorem lookups_of_history (history later : List Construction) :
    let pool := Indexed.initial.constructAll history
    let table := initial.constructAll history
    Indexed.initial.answers history = initial.answers history ∧ pool.Agrees table ∧
      (∀ type name, pool.member? type name = table.member? type name) ∧
      (∀ kind : Primitive, pool.get? kind.type = some (.primitive kind)) ∧
      (∀ name type, pool.named[name]? = some type ↔
        ∃ entry, pool.get? type = some entry ∧ entry.name? = some name) ∧
      (∀ name type other known entry, pool.get? type = some known → pool.get? other = some entry →
        known.name? = some name → entry.name? = some name → type = other) ∧
      (∀ element type,
        (pool.lists[element]? = some type ↔ pool.get? type = some (.list element)) ∧
        ((pool.list element).1 = type ↔
          (pool.list element).2.get? type = some (.list element)) ∧
        (pool.list element = (type, pool) ↔ pool.get? type = some (.list element))) ∧
      (∀ element type other, pool.get? type = some (.list element) →
        pool.get? other = some (.list element) → type = other) ∧
      (∀ type entry, pool.get? type = some entry → (entry.members.map (·.name)).Nodup) ∧
      (∀ type name members, pool.get? type = some (.struct name members false) → members = []) ∧
      ∀ type entry, pool.get? type = some entry →
        ∃ entry', (pool.constructAll later).get? type = some entry' ∧
          (entry' = entry ∨ ∃ name members, entry = .struct name [] false ∧
            entry' = .struct name members true) := by
  intro pool table
  have hconsistent : table.Consistent := consistent_constructAll history
  obtain ⟨hanswers, h⟩ : _ ∧ pool.Agrees table := Indexed.agrees_initial.answers history
  refine ⟨hanswers, h, h.member?, ?_, fun name type => h.named_eq_some_iff hconsistent, ?_,
    fun element type => ⟨h.lists_eq_some_iff hconsistent, h.list_fst_eq_iff hconsistent,
      h.list_eq_iff hconsistent⟩, ?_, ?_, ?_, fun type entry hget => h.get?_constructAll hget later⟩
  · intro kind
    exact (h.get?_eq_some_iff _).2 (hconsistent.primitive kind)
  · intro name type other known entry hknown hentry hname hname'
    have htype := (h.named_eq_some_iff hconsistent).2 ⟨known, hknown, hname⟩
    rw [(h.named_eq_some_iff hconsistent).2 ⟨entry, hentry, hname'⟩] at htype
    exact (Option.some.inj htype).symm
  · intro element type other hget hget'
    have htype := (h.lists_eq_some_iff hconsistent).2 hget
    rw [(h.lists_eq_some_iff hconsistent).2 hget'] at htype
    exact (Option.some.inj htype).symm
  · intro type entry hget
    rw [h.get?] at hget
    obtain ⟨definition, hdefinition, rfl⟩ := Option.map_eq_some_iff.1 hget
    rw [Entry.members_of]
    exact hconsistent.distinct hdefinition
  · intro type name members hget
    rw [h.get?] at hget
    obtain ⟨definition, -, hof⟩ := Option.map_eq_some_iff.1 hget
    exact Entry.eq_nil_of_undefined hof

/-- A list is made before its elements, a struct is declared, another one is refused because a member is
named twice, and the first one gets its members. Later the refused one gets members too. -/
theorem lookups_of_history_sample :
    let history : List Construction := [
      .list ⟨6⟩, .declare ⟨8⟩, .struct ⟨7⟩ [⟨⟨5⟩, ⟨3⟩⟩, ⟨⟨5⟩, ⟨1⟩⟩], .define ⟨6⟩ [⟨⟨5⟩, ⟨6⟩⟩, ⟨⟨9⟩, ⟨5⟩⟩]]
    let later : List Construction := [.define ⟨7⟩ [⟨⟨5⟩, ⟨3⟩⟩]]
    let pool := Indexed.initial.constructAll history
    Indexed.initial.answers history =
      [.ok (some ⟨5⟩), .ok (some ⟨6⟩), .error (.duplicateMember ⟨7⟩ ⟨5⟩), .ok none] ∧
    pool.named[(⟨8⟩ : Name)]? = some ⟨6⟩ ∧ pool.lists[(⟨6⟩ : TypeId)]? = some ⟨5⟩ ∧
      pool.list ⟨6⟩ = (⟨5⟩, pool) ∧ pool.get? ⟨7⟩ = some (.struct ⟨7⟩ [] false) ∧
      ∃ entry', (pool.constructAll later).get? ⟨7⟩ = some entry' ∧
        (entry' = .struct ⟨7⟩ [] false ∨ ∃ name members,
          Entry.struct ⟨7⟩ [] false = .struct name [] false ∧
            entry' = .struct name members true) := by
  intro history later pool
  obtain ⟨hanswers, hagrees, -, -, hname, -, hlist, -, -, -, hlater⟩ :=
    lookups_of_history history later
  have hlisted : pool.get? ⟨5⟩ = some (.of (.list ⟨6⟩)) :=
    (hagrees.get?_eq_some_iff _).2 (by decide +kernel)
  have hdefined : pool.get? ⟨6⟩ = some (.of (.struct ⟨8⟩ (some [⟨⟨5⟩, ⟨6⟩⟩, ⟨⟨9⟩, ⟨5⟩⟩]))) :=
    (hagrees.get?_eq_some_iff _).2 (by decide +kernel)
  have hdeclared : pool.get? ⟨7⟩ = some (.of (.struct ⟨7⟩ none)) :=
    (hagrees.get?_eq_some_iff _).2 (by decide +kernel)
  exact ⟨hanswers.trans (by decide +kernel), (hname _ _).2 ⟨_, hdefined, rfl⟩, (hlist _ _).1.2 hlisted,
    (hlist _ _).2.2.2 hlisted, hdeclared, hlater _ _ hdeclared⟩

end InputDetail.TypeTable
