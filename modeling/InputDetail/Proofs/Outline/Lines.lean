import InputDetail.Proofs.Outline.Render
import Mathlib.Algebra.GroupWithZero.Nat
import Mathlib.Algebra.Order.BigOperators.Group.List
import Mathlib.Algebra.Order.Group.Nat

/-!
# Counting in outlines

Indentation aside, an outline is made of one line for each node of the walks. So the number of times
that a character other than a blank stands in an outline is a sum over the walks; in particular there
are as many line feeds as there are lines.
-/
namespace InputDetail.Outline

/-- How often a character stands in a text. -/
def occurrences (c : Char) (text : String) : Nat := text.toList.count c

theorem occurrences_append (c : Char) (a b : String) :
    occurrences c (a ++ b) = occurrences c a + occurrences c b := by
  rw [occurrences, String.toList_append, List.count_append]
  rfl

theorem occurrences_intercalate {c : Char} {separator : String} (hc : occurrences c separator = 0)
    {texts : List String} (h : ∀ text ∈ texts, occurrences c text = 0) :
    occurrences c (separator.intercalate texts) = 0 := by
  induction texts with
  | nil => rw [String.intercalate_nil, occurrences, String.toList_empty, List.count_nil]
  | cons text texts ih =>
    rw [List.forall_mem_cons] at h
    cases texts with
    | nil => rw [String.intercalate_singleton, h.1]
    | cons next texts =>
      rw [String.intercalate_cons_cons, occurrences_append, occurrences_append, h.1, hc, ih h.2]

/-- How often a character stands in a line and its end. -/
def weight (c : Char) (line : String) : Nat := occurrences c (line ++ "\n")

theorem occurrences_indent {c : Char} (hc : c ≠ ' ') (depth : Nat) :
    occurrences c (indent depth) = 0 := by
  rw [occurrences, indent, String.toList_ofList, List.count_replicate, if_neg]
  simpa using hc.symm

theorem weight_indent {c : Char} (hc : c ≠ ' ') (depth : Nat) (line : String) :
    weight c (indent depth ++ line) = weight c line := by
  rw [weight, weight, String.append_assoc, occurrences_append, occurrences_indent hc, Nat.zero_add]

/-- How often a character stands in some lines. -/
def weights (c : Char) (lines : List String) : Nat := (lines.map (weight c)).sum

theorem weights_cons (c : Char) (line : String) (lines : List String) :
    weights c (line :: lines) = weight c line + weights c lines := List.sum_cons

theorem weights_eq_zero {c : Char} (hc : occurrences c "\n" = 0) {lines : List String}
    (h : ∀ line ∈ lines, occurrences c line = 0) : weights c lines = 0 := by
  refine List.sum_eq_zero fun count hcount => ?_
  obtain ⟨line, hline, rfl⟩ := List.mem_map.1 hcount
  rw [weight, occurrences_append, h line hline, hc, Nat.add_zero]

theorem occurrences_text (c : Char) (lines : List String) :
    occurrences c (text lines) = weights c lines := by
  rw [occurrences, text, String.toList_join, List.count_flatMap, List.map_map]
  rfl

theorem weights_flatten (c : Char) (blocks : List (List String)) :
    weights c blocks.flatten = (blocks.map (weights c)).sum := by
  rw [weights, List.map_flatten, List.sum_flatten, List.map_map]
  rfl

theorem forall₂_of_mapM {α β : Type} {f : α → Option β} {as : List α} {bs : List β}
    (h : as.mapM f = some bs) : List.Forall₂ (fun a b => f a = some b) as bs := by
  induction as generalizing bs with
  | nil =>
    cases h
    exact .nil
  | cons a as ih =>
    rw [List.mapM_cons] at h
    obtain ⟨b, hb, hrest⟩ := Option.bind_eq_some_iff.1 h
    obtain ⟨bs', hbs, heq⟩ := Option.bind_eq_some_iff.1 hrest
    cases heq
    exact .cons hb (ih hbs)

/-- Results that lead back to their arguments give these back. -/
theorem mapM_symm {α β : Type} {f : α → Option β} {g : β → Option α}
    (hfg : ∀ a b, f a = some b → g b = some a) {as : List α} {bs : List β} (h : as.mapM f = some bs) :
    bs.mapM g = some as := by
  have hpairs := forall₂_of_mapM h
  clear h
  induction hpairs with
  | nil => rfl
  | cons hab _ ih =>
    rw [List.mapM_cons, hfg _ _ hab, ih]
    rfl

theorem exists_of_forall₂ {α β : Type} {r : α → β → Prop} {as : List α} {bs : List β}
    (h : List.Forall₂ r as bs) {a : α} (ha : a ∈ as) : ∃ b, r a b := by
  induction h with
  | nil => cases ha
  | cons hab _ ih =>
    obtain rfl | ha := List.mem_cons.1 ha
    · exact ⟨_, hab⟩
    · exact ih ha

theorem map_eq_of_forall₂ {α β γ : Type} {r : α → β → Prop} {f : α → γ} {g : β → γ} {as : List α}
    {bs : List β} (h : List.Forall₂ r as bs) (hfg : ∀ a b, r a b → f a = g b) :
    as.map f = bs.map g := by
  induction h with
  | nil => rfl
  | cons hab _ ih => rw [List.map_cons, List.map_cons, hfg _ _ hab, ih]

/-- If no number is smaller than its counterpart, but the sum is not greater, then all numbers are
equal. -/
theorem eq_of_sum_le {as bs : List Nat} (h : List.Forall₂ (· ≤ ·) as bs) (hsum : bs.sum ≤ as.sum) :
    as = bs := by
  induction h with
  | nil => rfl
  | cons hab hrest ih =>
    have hrest' := hrest.sum_le_sum
    rw [List.sum_cons, List.sum_cons] at hsum
    rw [ih (by omega), Nat.le_antisymm hab (by omega)]

/-- The line of a node, or nothing if it cannot be written. -/
def lineAt (outline : Outline) (owner : Name) (forest : Forest) (id : NodeId) : String :=
  ((forest.node? id).bind (outline.line owner)).getD ""

variable {outline : Outline} {owner : Name} {forest : Forest} {position : Option NodeId}

theorem siblings_perm {ids : List NodeId} (h : outline.siblings forest position = some ids) :
    ids.Perm (forest.below position) := by
  obtain ⟨labelled, hlabelled, heq⟩ := Option.bind_eq_some_iff.1 h
  cases heq
  have hids : labelled.map (·.2) = (forest.entries position).map (·.2) := by
    refine (map_eq_of_forall₂ (forall₂_of_mapM hlabelled) fun entry label hlabel => ?_).symm
    obtain ⟨text, -, rfl⟩ := Option.map_eq_some_iff.1 hlabel
    rfl
  refine ((List.mergeSort_perm _ _).map _).trans ?_
  rw [hids]
  exact (Forest.below_perm forest position).symm

/-- The lines below a position are those of the nodes that are walked through. -/
theorem linesBelow_spec {c : Char} (hc : c ≠ ' ') {fuel depth : Nat} {lines : List String}
    (h : outline.linesBelow owner forest fuel depth position = some lines) :
    weights c lines = ((forest.walkBelow fuel position).map fun id =>
        weight c (outline.lineAt owner forest id)).sum ∧
      ∀ id ∈ forest.walkBelow fuel position,
        ((forest.node? id).bind (outline.line owner)).isSome := by
  induction fuel generalizing depth position lines with
  | zero =>
    cases h
    exact ⟨rfl, by simp [Forest.walkBelow]⟩
  | succ fuel ih =>
    rw [linesBelow_succ] at h
    obtain ⟨ids, hids, hrest⟩ := Option.bind_eq_some_iff.1 h
    obtain ⟨blocks, hblocks, heq⟩ := Option.bind_eq_some_iff.1 hrest
    cases heq
    have hperm := siblings_perm hids
    have hblock : ∀ id lines, outline.block owner forest fuel depth id = some lines →
        weights c lines = weight c (outline.lineAt owner forest id) +
          ((forest.walkBelow fuel (some id)).map fun id =>
            weight c (outline.lineAt owner forest id)).sum ∧
        ∀ below ∈ id :: forest.walkBelow fuel (some id),
          ((forest.node? below).bind (outline.line owner)).isSome := by
      intro id lines hlines
      obtain ⟨node, hnode, hrest⟩ := Option.bind_eq_some_iff.1 hlines
      obtain ⟨line, hline, hrest⟩ := Option.bind_eq_some_iff.1 hrest
      obtain ⟨below, hbelow, heq⟩ := Option.bind_eq_some_iff.1 hrest
      cases heq
      obtain ⟨hsum, hsome⟩ := ih hbelow
      have hself : (forest.node? id).bind (outline.line owner) = some line := by
        rw [hnode, Option.bind_some, hline]
      constructor
      · rw [← hsum, lineAt, hself, Option.getD_some]
        rw [weights_cons, weight_indent hc]
      · rw [List.forall_mem_cons]
        exact ⟨by rw [hself]; rfl, hsome⟩
    have hblocks := forall₂_of_mapM hblocks
    constructor
    · rw [weights_flatten, Forest.walkBelow_succ, List.flatMap_def, List.map_flatten,
        List.sum_flatten, List.map_map, List.map_map,
        ← map_eq_of_forall₂ hblocks fun id lines hlines => (hblock id lines hlines).1.symm]
      exact (hperm.map _).sum_nat
    · intro id hid
      obtain ⟨child, hchild, hid⟩ := List.mem_flatMap.1 hid
      obtain ⟨lines, hlines⟩ := exists_of_forall₂ hblocks (hperm.mem_iff.2 hchild)
      exact (hblock child lines hlines).2 id hid

/-- The text of a type; a type that is not known is a question mark. -/
def typeText? (types : TypeTable) (names : NameTable) : Option TypeId → Option String
  | none => some "?"
  | some type => types.write? names type

def statusText : Option Status → String
  | none => ""
  | some status => ", " ++ status.word

theorem annotation_cases {node : Node} {text : String} (h : outline.annotation node = some text) :
    ∃ type, typeText? outline.types outline.names node.type = some type ∧
      text = " (" ++ type ++ statusText node.status ++ ")" := by
  unfold annotation at h
  cases hknown : node.type with
  | none =>
    simp only [hknown] at h
    cases h
    exact ⟨"?", rfl, by cases node.status <;> rfl⟩
  | some known =>
    simp only [hknown] at h
    obtain ⟨type, htype, heq⟩ := Option.bind_eq_some_iff.1 h
    cases heq
    exact ⟨type, htype, by cases node.status <;> rfl⟩

theorem alternative_cases {link : Link} {text : String}
    (h : outline.alternative owner link = some text) : ∃ parameter,
    (if link.parameter = owner then some "" else (outline.names.text? link.parameter).map (· ++ ".")) =
        some parameter ∧
      (target? outline.parameters link = none ∧ text = " or " ++ parameter ++ "?" ∨
        ∃ forest node path pathText annotation,
          target? outline.parameters link = some (forest, node) ∧
            forest.path? link.node = some path ∧ outline.path path = some pathText ∧
            outline.annotation node = some annotation ∧
            text = " or " ++ parameter ++ pathText ++ annotation) := by
  rw [alternative_eq] at h
  obtain ⟨parameter, hparameter, hrest⟩ := Option.bind_eq_some_iff.1 h
  refine ⟨parameter, hparameter, ?_⟩
  cases htarget : target? outline.parameters link with
  | none =>
    simp only [htarget] at hrest
    cases hrest
    exact Or.inl ⟨rfl, rfl⟩
  | some found =>
    obtain ⟨forest, node⟩ := found
    simp only [htarget] at hrest
    obtain ⟨path, hpath, hrest⟩ := Option.bind_eq_some_iff.1 hrest
    obtain ⟨pathText, hpathText, hrest⟩ := Option.bind_eq_some_iff.1 hrest
    obtain ⟨own, hannotation, heq⟩ := Option.bind_eq_some_iff.1 hrest
    cases heq
    exact Or.inr ⟨forest, node, path, pathText, own, rfl, hpath, hpathText, hannotation, rfl⟩

theorem line_cases {node : Node} {text : String} (h : outline.line owner node = some text) :
    ∃ name own other, outline.names.text? node.name = some name ∧
      (if node.isLeaf then outline.annotation node else some "") = some own ∧
      (match node.link with
        | none => some ""
        | some link => outline.alternative owner link) = some other ∧
      text = name ++ own ++ other := by
  rw [line_eq_bind] at h
  obtain ⟨name, hname, hrest⟩ := Option.bind_eq_some_iff.1 h
  obtain ⟨own, hown, hrest⟩ := Option.bind_eq_some_iff.1 hrest
  obtain ⟨other, hother, heq⟩ := Option.bind_eq_some_iff.1 hrest
  cases heq
  exact ⟨name, own, other, hname, hown, hother, rfl⟩

theorem parameterLines_cases {parameter : Parameter} {lines : List String}
    (h : outline.parameterLines parameter = some lines) : ∃ name,
    outline.names.text? parameter.name = some name ∧
      (outline.types.isSimple parameter.type = true ∧ (∃ type,
          outline.types.write? outline.names parameter.type = some type ∧
            lines = [s!"{name} ({type}, {parameter.status.word})"]) ∨
        outline.types.isSimple parameter.type = false ∧ ∃ below,
          outline.linesBelow parameter.name parameter.forest parameter.forest.size 1 none = some below ∧
            lines = name :: below) := by
  obtain ⟨name, hname, hrest⟩ := Option.bind_eq_some_iff.1 h
  refine ⟨name, hname, ?_⟩
  cases hsimple : outline.types.isSimple parameter.type with
  | true =>
    simp only [hsimple, if_true] at hrest
    obtain ⟨type, htype, heq⟩ := Option.bind_eq_some_iff.1 hrest
    cases heq
    exact Or.inl ⟨rfl, type, htype, rfl⟩
  | false =>
    simp only [hsimple, Bool.false_eq_true, if_false] at hrest
    obtain ⟨below, hbelow, heq⟩ := Option.bind_eq_some_iff.1 hrest
    cases heq
    exact Or.inr ⟨rfl, below, hbelow, rfl⟩

/-- An outline is made of the blocks of its parameters. -/
theorem render_spec {types : TypeTable} {names : NameTable} {parameters : List Parameter}
    {written : String} (h : render types names parameters = some written) :
    ∃ blocks, List.Forall₂ (fun parameter lines =>
        parameterLines ⟨types, names, parameters⟩ parameter = some lines) parameters blocks ∧
      ∀ c, occurrences c written = (blocks.map (weights c)).sum := by
  obtain ⟨blocks, hblocks, heq⟩ := Option.bind_eq_some_iff.1 h
  cases heq
  exact ⟨blocks, forall₂_of_mapM hblocks, fun c => by rw [occurrences_text, weights_flatten]⟩

/-- If a character stands in no block of the first outline more often than in its counterpart, but in
the whole as often, then it stands in all blocks as often. -/
theorem weights_eq {types : TypeTable} {names : NameTable} {parameters parameters' : List Parameter}
    {written written' : String} {c : Char} (h : render types names parameters = some written)
    (h' : render types names parameters' = some written')
    (hlength : parameters'.length = parameters.length)
    (hcount : occurrences c written' ≤ occurrences c written)
    (hle : ∀ {index : Nat} {parameter parameter' lines lines'}, parameters[index]? = some parameter →
      parameters'[index]? = some parameter' →
      parameterLines ⟨types, names, parameters⟩ parameter = some lines →
      parameterLines ⟨types, names, parameters'⟩ parameter' = some lines' →
      weights c lines ≤ weights c lines') {index : Nat} {parameter parameter' : Parameter}
    (hparam : parameters[index]? = some parameter) (hparam' : parameters'[index]? = some parameter') :
    ∃ lines lines', parameterLines ⟨types, names, parameters⟩ parameter = some lines ∧
      parameterLines ⟨types, names, parameters'⟩ parameter' = some lines' ∧
      weights c lines = weights c lines' := by
  obtain ⟨blocks, hblocks, hsum⟩ := render_spec h
  obtain ⟨blocks', hblocks', hsum'⟩ := render_spec h'
  obtain ⟨hlen, hat⟩ := List.forall₂_iff_get.1 hblocks
  obtain ⟨hlen', hat'⟩ := List.forall₂_iff_get.1 hblocks'
  rw [hsum, hsum'] at hcount
  have hpairs : List.Forall₂ (· ≤ ·) (blocks.map (weights c)) (blocks'.map (weights c)) := by
    rw [List.forall₂_iff_get]
    refine ⟨by rw [List.length_map, List.length_map, ← hlen, ← hlen', hlength], fun i hi hi' => ?_⟩
    rw [List.length_map] at hi hi'
    rw [List.get_eq_getElem, List.get_eq_getElem, List.getElem_map, List.getElem_map]
    exact hle (List.getElem?_eq_getElem (hlen ▸ hi)) (List.getElem?_eq_getElem (hlen' ▸ hi'))
      (hat i (hlen ▸ hi) hi) (hat' i (hlen' ▸ hi') hi')
  obtain ⟨hlt, rfl⟩ := List.getElem?_eq_some_iff.1 hparam
  obtain ⟨hlt', rfl⟩ := List.getElem?_eq_some_iff.1 hparam'
  have hsame := congrArg (·[index]?) (eq_of_sum_le hpairs hcount)
  simp only [List.getElem?_map, List.getElem?_eq_getElem (hlen ▸ hlt),
    List.getElem?_eq_getElem (hlen' ▸ hlt'), Option.map_some, Option.some.injEq] at hsame
  exact ⟨_, _, hat index hlt (hlen ▸ hlt), hat' index hlt' (hlen' ▸ hlt'), hsame⟩

end InputDetail.Outline

namespace InputDetail

/-- No text of a name goes over several lines. -/
def NameTable.SingleLine (names : NameTable) : Prop :=
  ∀ ⦃name : Name⦄ ⦃text : String⦄, names.text? name = some text → '\n' ∉ text.toList

namespace Outline

variable {names : NameTable} (hnames : names.SingleLine)
include hnames

theorem occurrences_name {name : Name} {text : String} (h : names.text? name = some text) :
    occurrences '\n' text = 0 := List.count_eq_zero.2 (hnames h)

omit hnames in
/-- A character that neither stands in the text of a name nor is part of the notation of types stands in
the text of no type. -/
theorem occurrences_writeWithin {c : Char} {types : TypeTable}
    (hname : ∀ name text, names.text? name = some text → occurrences c text = 0)
    (hword : ∀ kind : Primitive, occurrences c kind.word = 0)
    (hunknown : occurrences c "<unknown>" = 0) (hlist : occurrences c "[]" = 0) {fuel : Nat}
    {type : TypeId} {text : String} (h : types.writeWithin names fuel type = some text) :
    occurrences c text = 0 := by
  induction fuel generalizing type text with
  | zero => cases h
  | succ fuel ih =>
    rw [TypeTable.writeWithin] at h
    split at h
    · cases h
      exact hunknown
    · next kind _ =>
      cases h
      exact hword kind
    · exact hname _ _ h
    · exact hname _ _ h
    · obtain ⟨element, helement, rfl⟩ := Option.map_eq_some_iff.1 h
      rw [occurrences_append, ih helement, hlist]

theorem occurrences_write {types : TypeTable} {type : TypeId} {text : String}
    (h : types.write? names type = some text) : occurrences '\n' text = 0 :=
  occurrences_writeWithin (fun _ _ => occurrences_name hnames) (fun kind => by cases kind <;> decide)
    (by decide) (by decide) h

variable {outline : Outline} (houtline : outline.names = names)
include houtline

theorem occurrences_annotation {node : Node} {text : String}
    (h : outline.annotation node = some text) : occurrences '\n' text = 0 := by
  obtain ⟨type, htype, rfl⟩ := annotation_cases h
  have hzero : occurrences '\n' type = 0 := by
    cases hknown : node.type with
    | none =>
      rw [hknown] at htype
      cases htype
      decide
    | some known =>
      rw [hknown, houtline] at htype
      exact occurrences_write hnames htype
  have hstatus : occurrences '\n' (statusText node.status) = 0 := by
    cases node.status with
    | none => decide
    | some status => cases status <;> decide
  rw [occurrences_append, occurrences_append, occurrences_append, hzero, hstatus]
  decide

theorem occurrences_path {path : List Name} {text : String} (h : outline.path path = some text) :
    occurrences '\n' text = 0 := by
  obtain ⟨texts, htexts, heq⟩ := Option.bind_eq_some_iff.1 h
  cases heq
  have hzero : ∀ text ∈ texts, occurrences '\n' text = 0 := by
    intro text hmem
    obtain ⟨name, hname⟩ := exists_of_forall₂ (forall₂_of_mapM htexts).flip hmem
    exact occurrences_name hnames (houtline ▸ hname)
  exact occurrences_intercalate (by decide) hzero

theorem occurrences_line {owner : Name} {node : Node} {text : String}
    (h : outline.line owner node = some text) : occurrences '\n' text = 0 := by
  obtain ⟨name, own, other, hname, hown, hother, rfl⟩ := line_cases h
  rw [houtline] at hname
  have hown : occurrences '\n' own = 0 := by
    split_ifs at hown
    · exact occurrences_annotation hnames houtline hown
    · cases hown
      decide
  have hother : occurrences '\n' other = 0 := by
    split at hother
    · cases hother
      decide
    · next link _ =>
      obtain ⟨parameter, hparameter, hcase⟩ := alternative_cases hother
      have hzero : occurrences '\n' parameter = 0 := by
        split_ifs at hparameter
        · cases hparameter
          decide
        · obtain ⟨text, htext, rfl⟩ := Option.map_eq_some_iff.1 hparameter
          rw [houtline] at htext
          rw [occurrences_append, occurrences_name hnames htext]
          decide
      obtain ⟨-, rfl⟩ | ⟨forest, target, path, pathText, annotation, -, -, hpath, hannotation, rfl⟩ :=
        hcase
      · rw [occurrences_append, occurrences_append, hzero]
        decide
      · rw [occurrences_append, occurrences_append, occurrences_append, hzero,
          occurrences_path hnames houtline hpath, occurrences_annotation hnames houtline hannotation]
        decide
  rw [occurrences_append, occurrences_append, occurrences_name hnames hname, hown, hother]

omit hnames houtline in
theorem weight_of_line {line : String} (h : occurrences '\n' line = 0) : weight '\n' line = 1 := by
  rw [weight, occurrences_append, h]
  decide

/-- A parameter has a line for itself, and a structured one has a line for each node of the walk. -/
theorem weights_parameterLines {parameter : Parameter} {lines : List String}
    (h : outline.parameterLines parameter = some lines) : weights '\n' lines =
      1 + if outline.types.isSimple parameter.type then 0 else parameter.forest.walk.length := by
  obtain ⟨name, hname, ⟨hsimple, type, htype, rfl⟩ | ⟨hstructured, below, hbelow, rfl⟩⟩ :=
    parameterLines_cases h
  · rw [houtline] at hname htype
    rw [if_pos hsimple]
    have hstatus : occurrences '\n' parameter.status.word = 0 := by cases parameter.status <;> decide
    refine weight_of_line ?_
    show occurrences '\n' (name ++ " (" ++ type ++ ", " ++ parameter.status.word ++ ")") = 0
    simp only [occurrences_append, occurrences_name hnames hname, occurrences_write hnames htype,
      hstatus]
    decide
  · obtain ⟨hsum, hsome⟩ := linesBelow_spec (c := '\n') (by decide) hbelow
    have hone : ∀ id ∈ parameter.forest.walk,
        weight '\n' (outline.lineAt parameter.name parameter.forest id) = 1 := by
      intro id hid
      obtain ⟨line, hline⟩ := Option.isSome_iff_exists.1 (hsome id hid)
      obtain ⟨node, -, hwritten⟩ := Option.bind_eq_some_iff.1 hline
      rw [lineAt, hline, Option.getD_some]
      exact weight_of_line (occurrences_line hnames houtline hwritten)
    have hlength : weights '\n' below = parameter.forest.walk.length := by
      refine hsum.trans ?_
      rw [← Forest.walk, List.map_congr_left hone, List.map_const', List.sum_replicate_nat,
        Nat.mul_one]
    have hhead := weight_of_line (occurrences_name hnames (houtline ▸ hname))
    rw [if_neg (by simp [hstructured]), weights_cons, hhead, hlength]

end Outline

end InputDetail
