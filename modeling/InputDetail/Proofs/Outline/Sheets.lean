import InputDetail.Proofs.Analysis.Completeness
import InputDetail.Proofs.Outline.Render
import InputDetail.Proofs.Types.Acyclic

/-!
# Sheets

A sheet tells in texts what an outline shows of a parameter: its type and status, or a row for every path
of member names. Nothing in it is a number, of a node, a name or a type. One sheet is printed in only
one way, with the rows in the order of their paths: as in a dictionary, a path stands before the
paths that go on from it, and siblings stand in the order of their texts.
-/
namespace InputDetail

namespace Outline

open Analysis Parameter

/-- A type and a status. -/
structure Mark where
  type : String
  status : Status

def Mark.text (mark : Mark) : String := s!" ({mark.type}, {mark.status.word})"

/-- A member that is excluded, with its parameter if that is another one. -/
structure Rival where
  parameter : Option String
  path : List String
  mark : Mark

def Rival.text (rival : Rival) : String :=
  " or " ++ rival.parameter.elim "" (· ++ ".") ++ String.intercalate "." rival.path ++ rival.mark.text

/-- What stands behind the name of a member. -/
structure Row where
  own : Option Mark
  other : Option Rival

def Row.text (row : Row) : String := row.own.elim "" Mark.text ++ row.other.elim "" Rival.text

inductive Sheet where
  | simple (name : String) (mark : Mark)
  | structured (name : String) (row? : List String → Option Row)

/-- The lines of a sheet. A structured parameter has a line for itself and one for every row. -/
inductive Sheet.Prints : Sheet → List String → Prop
  | simple (name : String) (mark : Mark) : Prints (.simple name mark) [name ++ mark.text]
  | structured (name : String) (row? : List String → Option Row) (rows : List (List String × Row))
      (sorted : rows.Pairwise fun row later => row.1 < later.1)
      (listed : ∀ path row, (path, row) ∈ rows ↔ row? path = some row) :
      Prints (.structured name row?) (name :: rows.map fun (path, row) =>
        indent path.length ++ path.getLastD "" ++ row.text)

/-- A sheet is printed in only one way. -/
theorem Sheet.Prints.unique {sheet : Sheet} {lines lines' : List String} (h : sheet.Prints lines)
    (h' : sheet.Prints lines') : lines = lines' := by
  cases h with
  | simple name mark =>
    cases h'
    rfl
  | structured name row? rows sorted listed =>
    cases h' with
    | structured _ _ rows' sorted' listed' =>
      have hnodup : ∀ rows : List (List String × Row),
          (rows.Pairwise fun row later => row.1 < later.1) → rows.Nodup := by
        refine fun rows hsorted => hsorted.imp fun {row later} hlt heq => ?_
        rw [heq] at hlt
        exact List.lt_irrefl _ hlt
      have hperm : rows.Perm rows' := by
        rw [List.perm_ext_iff_of_nodup (hnodup _ sorted) (hnodup _ sorted')]
        rintro ⟨path, row⟩
        rw [listed, listed']
      rw [hperm.eq_of_pairwise (fun _ _ _ _ hlt hgt => absurd hgt (List.lt_asymm hlt)) sorted sorted']

variable (outline : Outline)

def mark? (type : Option TypeId) (status : Option Status) : Option Mark := do
  return ⟨← outline.types.write? outline.names (← type), ← status⟩

/-- The text of a parameter, if it is another one than `owner`. -/
def foreign? (owner parameter : Name) : Option (Option String) :=
  if parameter = owner then some none else (outline.names.text? parameter).map some

/-- The member that a link leads to. -/
def rival? (owner : Name) (link : Link) : Option Rival := do
  let parameter ← outline.foreign? owner link.parameter
  let target ← target? outline.parameters link
  let path ← target.1.path? link.node
  return ⟨parameter, ← path.mapM outline.names.text?,
    ← outline.mark? target.2.type target.2.status⟩

def row (owner : Name) (node : Node) : Row :=
  ⟨outline.mark? node.type node.status, node.link.bind (outline.rival? owner)⟩

/-- The row of the member at the end of a path. -/
def rowAt? (owner : Name) (forest : Forest) (path : List String) : Option Row := do
  let path ← path.mapM outline.names.name?
  let id ← forest.find? path
  return outline.row owner (← forest.node? id)

def sheet? (parameter : Parameter) : Option Sheet := do
  let name ← outline.names.text? parameter.name
  if outline.types.isSimple parameter.type then
    return .simple name (← outline.mark? (some parameter.type) (some parameter.status))
  return .structured name (outline.rowAt? parameter.name parameter.forest)

variable {outline} {owner : Name} {node : Node}

theorem annotation_of_mark? {mark : Mark} (h : outline.mark? node.type node.status = some mark) :
    outline.annotation node = some mark.text := by
  obtain ⟨type, htype, hrest⟩ := Option.bind_eq_some_iff.1 h
  obtain ⟨text, htext, hrest⟩ := Option.bind_eq_some_iff.1 hrest
  obtain ⟨status, hstatus, heq⟩ := Option.bind_eq_some_iff.1 hrest
  cases heq
  unfold annotation
  simp only [htype, htext, hstatus]
  show some (" (" ++ text ++ (", " ++ status.word) ++ ")") =
    some (" (" ++ text ++ ", " ++ status.word ++ ")")
  rw [← String.append_assoc]

theorem alternative_of_rival? {link : Link} {rival : Rival} (h : outline.rival? owner link = some rival) :
    outline.alternative owner link = some rival.text := by
  obtain ⟨parameter, hparameter, hrest⟩ := Option.bind_eq_some_iff.1 h
  obtain ⟨⟨forest, node⟩, htarget, hrest⟩ := Option.bind_eq_some_iff.1 hrest
  obtain ⟨path, hpath, hrest⟩ := Option.bind_eq_some_iff.1 hrest
  obtain ⟨texts, htexts, hrest⟩ := Option.bind_eq_some_iff.1 hrest
  obtain ⟨mark, hmark, heq⟩ := Option.bind_eq_some_iff.1 hrest
  cases heq
  have hshown : (if link.parameter = owner then some ""
      else (outline.names.text? link.parameter).map (· ++ ".")) =
        some (parameter.elim "" (· ++ ".")) := by
    rw [foreign?] at hparameter
    split_ifs at hparameter ⊢
    · cases hparameter
      rfl
    · obtain ⟨text, htext, rfl⟩ := Option.map_eq_some_iff.1 hparameter
      rw [htext]
      rfl
  have hjoined : outline.path path = some (String.intercalate "." texts) := by
    rw [Outline.path, htexts]
    rfl
  rw [alternative_eq, hshown]
  simp only [Option.bind_some, htarget, hpath, hjoined, annotation_of_mark? hmark]
  rfl

/-- The line of a node is its name and its row, if nothing is missing in the row. -/
theorem line_eq {name : String} (hname : outline.names.text? node.name = some name)
    (hown : (outline.row owner node).own.isSome = node.isLeaf)
    (hother : (outline.row owner node).other.isSome = node.link.isSome) :
    outline.line owner node = some (name ++ (outline.row owner node).text) := by
  have hownText : (if node.isLeaf then outline.annotation node else some "") =
      some ((outline.row owner node).own.elim "" Mark.text) := by
    rw [← hown]
    cases hmark : outline.mark? node.type node.status with
    | none => simp [row, hmark]
    | some mark => simp [row, hmark, annotation_of_mark? hmark]
  rw [line_eq_bind, hname, hownText, Row.text, ← String.append_assoc]
  simp only [Option.bind_some]
  cases hlink : node.link with
  | none => simp [row, hlink]
  | some link =>
    have hfound : (outline.row owner node).other = outline.rival? owner link := by rw [row, hlink]; rfl
    rw [hlink, hfound, Option.isSome_some, Option.isSome_iff_exists] at hother
    obtain ⟨rival, hrival⟩ := hother
    simp only [alternative_of_rival? hrival, hfound, hrival, Option.bind_some, Option.elim_some]

/-- All names have one text each and all texts one name, and no list contains itself. -/
structure Known (types : TypeTable) (names : NameTable) (parameters : List Parameter) : Prop where
  distinct : names.Distinct
  lists : types.Acyclic
  type : types.Named names
  parameter : ∀ parameter ∈ parameters, (names.text? parameter.name).isSome
  member : ∀ parameter ∈ parameters, ∀ id node, parameter.forest.node? id = some node →
    (names.text? node.name).isSome

namespace Known

variable {types : TypeTable} {names : NameTable} {parameters : List Parameter}
  (h : Known types names parameters)
include h

theorem mark?_isSome {type : Option TypeId} (htype : type.isSome) (status : Option Status) :
    (mark? ⟨types, names, parameters⟩ type status).isSome = status.isSome := by
  obtain ⟨known, rfl⟩ := Option.isSome_iff_exists.1 htype
  obtain ⟨text, htext⟩ := Option.isSome_iff_exists.1 (h.lists.write?_isSome h.type known)
  cases status <;> simp [mark?, htext]

/-- A link of a reachable state leads to a member that can be named, and that has type and status. -/
theorem rival?_isSome (hreach : Reachable parameters) {position : Nat} {id : NodeId} {node : Node}
    (hnode : nodeAt? parameters position id = some node) {link : Link} (hlink : node.link = some link)
    (owner : Name) : (rival? ⟨types, names, parameters⟩ owner link).isSome := by
  have hcomplete := hreach.complete
  obtain ⟨target, held, hlinks, hheld, hlinked, -⟩ := hcomplete.exists_linked hnode hlink
  obtain ⟨parameter, hparam, hat⟩ := Option.bind_eq_some_iff.1 hlinked
  have hmem : parameter ∈ parameters := List.mem_of_find?_eq_some hparam
  have hname : parameter.name = link.parameter := by simpa using List.find?_some hparam
  have htarget : target? parameters link = some (parameter.forest, held) := by
    rw [target?, hparam, Option.bind_some, hat, Option.map_some]
  have hforeign : (foreign? ⟨types, names, parameters⟩ owner link.parameter).isSome := by
    rw [foreign?]
    split_ifs
    · rfl
    · rw [Option.isSome_map, ← hname]
      exact h.parameter parameter hmem
  have hwf := (hreach.built parameter hmem).wellFormed
  obtain ⟨path, hpath⟩ := Option.isSome_iff_exists.1 (hwf.path?_isSome (by rw [hat]; rfl))
  have htexts : (path.mapM names.text?).isSome := by
    refine mapM_isSome fun name hmember => ?_
    obtain ⟨other, known, hknown, rfl⟩ := Forest.exists_node_of_climb hpath name hmember
    exact h.member parameter hmem other known hknown
  have hmark : (mark? ⟨types, names, parameters⟩ held.type held.status).isSome := by
    rw [h.mark?_isSome (hcomplete.typed hheld)]
    exact hcomplete.marked hlinks hheld
  obtain ⟨foreign, hforeign⟩ := Option.isSome_iff_exists.1 hforeign
  obtain ⟨texts, htexts⟩ := Option.isSome_iff_exists.1 htexts
  obtain ⟨mark, hmark⟩ := Option.isSome_iff_exists.1 hmark
  simp [rival?, hforeign, htarget, hpath, htexts, hmark]

/-- A row says what its node is: type and status of a leaf, and the member that it excludes. -/
theorem row_isSome (hreach : Reachable parameters) {position : Nat} {id : NodeId} {node : Node}
    (hnode : nodeAt? parameters position id = some node) (owner : Name) :
    (row ⟨types, names, parameters⟩ owner node).own.isSome = node.isLeaf ∧
      (row ⟨types, names, parameters⟩ owner node).other.isSome = node.link.isSome := by
  refine ⟨h.mark?_isSome (hreach.complete.typed hnode) node.status, ?_⟩
  rw [row]
  cases hlink : node.link with
  | none => rfl
  | some link => exact h.rival?_isSome hreach hnode hlink owner

end Known

end Outline

end InputDetail
