import InputDetail.Proofs.Forest.Walk
import InputDetail.Proofs.Outline.Sight

/-!
# Outlines up to numbers

Siblings are written in the order of their texts, so their order does not depend on their numbers;
and as many levels are written as there are nodes, which is enough for every path. By induction on
the levels, forests whose paths show the same are written alike.
-/
namespace InputDetail.Outline

open Parameter

theorem mapM_of_forall₂ {α β γ : Type} {r : α → β → Prop} {f : α → Option γ} {g : β → Option γ}
    {as : List α} {bs : List β} (h : List.Forall₂ r as bs) (hfg : ∀ a b, r a b → f a = g b) :
    as.mapM f = bs.mapM g := by
  induction h with
  | nil => rfl
  | cons hab _ ih => simp only [List.mapM_cons, hfg _ _ hab, ih]

theorem mapM_eq_some_map {α β : Type} {f : α → Option β} {g : α → β} {as : List α}
    (h : ∀ a ∈ as, f a = some (g a)) : as.mapM f = some (as.map g) := by
  induction as with
  | nil => rfl
  | cons a as ih =>
    rw [List.mapM_cons, h a List.mem_cons_self, ih fun a ha => h a (List.mem_cons_of_mem _ ha)]
    rfl

theorem mapM_isSome {α β : Type} {f : α → Option β} {as : List α} (h : ∀ a ∈ as, (f a).isSome) :
    (as.mapM f).isSome := by
  induction as with
  | nil => rfl
  | cons a as ih =>
    obtain ⟨b, hb⟩ := Option.isSome_iff_exists.1 (h a List.mem_cons_self)
    obtain ⟨bs, hbs⟩ := Option.isSome_iff_exists.1 (ih fun a ha => h a (List.mem_cons_of_mem _ ha))
    rw [List.mapM_cons, hb, hbs]
    rfl

/-- The text of a known name. -/
def textOf (names : NameTable) (name : Name) : String := (names.text? name).getD ""

variable {forest forest' : Forest} {position position' : Option NodeId}

/-- Children with their names, in the order of the texts. -/
def sortedEntries (names : NameTable) (forest : Forest) (position : Option NodeId) :
    List (Name × NodeId) :=
  (forest.entries position).mergeSort fun a b => textOf names a.1 ≤ textOf names b.1

theorem child?_of_mem_sortedEntries {names : NameTable} (hf : forest.WellFormed)
    {entry : Name × NodeId}
    (h : entry ∈ sortedEntries names forest position) :
    forest.child? position entry.1 = some entry.2 :=
  hf.child?_of_mem_entries (by simpa [sortedEntries] using h)

theorem siblings_eq {outline : Outline}
    (hknown : ∀ name, (forest.child? position name).isSome → (outline.names.text? name).isSome)
    (hf : forest.WellFormed) : outline.siblings forest position =
      some ((sortedEntries outline.names forest position).map (·.2)) := by
  unfold siblings
  rw [mapM_eq_some_map (g := fun entry => (textOf outline.names entry.1, entry.2))]
  · show some _ = some _
    rw [← List.map_mergeSort (r := fun a b => textOf outline.names a.1 ≤ textOf outline.names b.1),
      List.map_map]
    · rfl
    · intro a _ b _
      rfl
  · intro entry hentry
    have hsome := hknown entry.1 (by rw [hf.child?_of_mem_entries hentry]; rfl)
    obtain ⟨text, htext⟩ := Option.isSome_iff_exists.1 hsome
    simp only [textOf, htext, Option.map_some, Option.getD_some]

theorem pairwise_mergeSort_text {α : Type} (text : α → String) (list : List α) :
    (list.mergeSort fun a b => text a ≤ text b).Pairwise fun a b => text a ≤ text b := by
  have h := @List.pairwise_mergeSort α (fun a b => text a ≤ text b)
    (fun a b c hab hbc => by simpa using String.le_trans (by simpa using hab) (by simpa using hbc))
    (fun a b => by simpa using String.le_total (text a) (text b)) list
  simpa using h

/-- The order of siblings does not depend on their numbers. -/
theorem names_sortedEntries {names : NameTable} (hd : names.Distinct) (hf : forest.WellFormed)
    (hf' : forest'.WellFormed)
    (hknown : ∀ name, (forest.child? position name).isSome → (names.text? name).isSome)
    (hsame : ∀ name, (forest'.child? position' name).isSome ↔ (forest.child? position name).isSome) :
    (sortedEntries names forest' position').map (·.1) =
      (sortedEntries names forest position).map (·.1) := by
  have hmap : ∀ (forest : Forest) (position : Option NodeId),
      (sortedEntries names forest position).map (·.1) =
        ((forest.entries position).map (·.1)).mergeSort
          fun a b => textOf names a ≤ textOf names b := by
    intro forest position
    exact List.map_mergeSort fun a _ b _ => rfl
  have hperm : List.Perm ((forest'.entries position').map (·.1))
      ((forest.entries position).map (·.1)) := by
    rw [List.perm_ext_iff_of_nodup (hf'.nodup_childNames _) (hf.nodup_childNames _)]
    intro name
    rw [hf'.mem_childNames, hf.mem_childNames, hsame]
  have hsorted := pairwise_mergeSort_text (textOf names)
  rw [hmap, hmap]
  refine List.Perm.eq_of_pairwise (fun a b ha hb hab hba => ?_) (hsorted _) (hsorted _)
    ((List.mergeSort_perm _ _).trans (hperm.trans (List.mergeSort_perm _ _).symm))
  have hka := hknown a (by rw [← hf.mem_childNames]; exact hperm.subset (by simpa using ha))
  have hkb := hknown b (by rw [← hf.mem_childNames]; simpa using hb)
  obtain ⟨texta, hta⟩ := Option.isSome_iff_exists.1 hka
  obtain ⟨textb, htb⟩ := Option.isSome_iff_exists.1 hkb
  have heq := String.le_antisymm hab hba
  simp only [textOf, hta, htb, Option.getD_some] at heq
  exact hd hta (heq ▸ htb)

/-- Siblings correspond to each other by their names. -/
theorem siblings_congr (outline outline' : Outline) (hnames : outline'.names = outline.names)
    (hd : outline.names.Distinct) (hf : forest.WellFormed) (hf' : forest'.WellFormed)
    (hknown : ∀ name, (forest.child? position name).isSome → (outline.names.text? name).isSome)
    (hsame : ∀ name, (forest'.child? position' name).isSome ↔ (forest.child? position name).isSome) :
    ∃ ids ids', outline.siblings forest position = some ids ∧
      outline'.siblings forest' position' = some ids' ∧
      List.Forall₂ (fun id' id => ∃ name, forest'.child? position' name = some id' ∧
        forest.child? position name = some id) ids' ids := by
  refine ⟨_, _, siblings_eq hknown hf, siblings_eq (fun name h => ?_) hf', ?_⟩
  · rw [hnames]
    exact hknown name ((hsame name).1 h)
  · rw [hnames, List.forall₂_map_left_iff, List.forall₂_map_right_iff]
    have heq := names_sortedEntries hd hf hf' hknown hsame
    have hpairs : List.Forall₂ (fun a b : Name × NodeId => a.1 = b.1)
        (sortedEntries outline.names forest' position')
        (sortedEntries outline.names forest position) := by
      rw [← List.forall₂_eq_eq_eq, List.forall₂_map_left_iff, List.forall₂_map_right_iff] at heq
      exact heq
    rw [List.forall₂_iff_zip] at hpairs ⊢
    refine ⟨hpairs.1, fun {a b} hzip => ⟨b.1, ?_, ?_⟩⟩
    · rw [← hpairs.2 hzip]
      exact child?_of_mem_sortedEntries hf' (List.of_mem_zip hzip).1
    · exact child?_of_mem_sortedEntries hf (List.of_mem_zip hzip).2

/-- The number up to which nodes are too old to stand below a position. -/
def floor : Option NodeId → Nat
  | none => 0
  | some id => id.index + 1

theorem floor_le_of_child? (hf : forest.WellFormed) {name : Name} {id : NodeId}
    (h : forest.child? position name = some id) :
    floor position ≤ id.index ∧ id.index < forest.size := by
  obtain ⟨node, hnode, -, -, hpar⟩ := Forest.isChild_of_child? h
  refine ⟨?_, Forest.node?_lt hnode⟩
  cases position with
  | none => exact Nat.zero_le _
  | some parent => exact hf.parent_older hnode hpar

/-- The line of a node and the lines below it. -/
def block (outline : Outline) (owner : Name) (forest : Forest) (fuel depth : Nat) (id : NodeId) :
    Option (List String) :=
  (forest.node? id).bind fun node => (outline.line owner node).bind fun line =>
    (outline.linesBelow owner forest fuel (depth + 1) (some id)).bind fun below =>
      some ((indent depth ++ line) :: below)

theorem linesBelow_succ (outline : Outline) (owner : Name) (forest : Forest) (fuel depth : Nat)
    (position : Option NodeId) : outline.linesBelow owner forest (fuel + 1) depth position =
      (outline.siblings forest position).bind fun ids =>
        (ids.mapM (outline.block owner forest fuel depth)).bind fun blocks => some blocks.flatten :=
  rfl

theorem linesBelow_of_childless {outline : Outline} (hf : forest.WellFormed)
    (h : ∀ name, forest.child? position name = none) (owner : Name) (fuel depth : Nat) :
    outline.linesBelow owner forest fuel depth position = some [] := by
  have hentries : forest.entries position = [] := by
    rw [List.eq_nil_iff_forall_not_mem]
    intro entry hentry
    have hchild := hf.child?_of_mem_entries hentry
    rw [h entry.1] at hchild
    cases hchild
  cases fuel with
  | zero => rfl
  | succ fuel =>
    rw [linesBelow_succ, siblings_eq (fun name hname => by rw [h name] at hname; cases hname) hf,
      sortedEntries, hentries, List.mergeSort_nil]
    rfl

variable {types : TypeTable} {names : NameTable} {parameters parameters' : List Parameter}

theorem sight?_isSome {path : List Name} :
    (sight? parameters forest path).isSome ↔ (forest.find? path).isSome := by
  rw [sight?, Option.isSome_map]
  cases hfind : forest.find? path with
  | none => simp
  | some id =>
    obtain ⟨node, hnode, -⟩ := Forest.node?_of_find? hfind
    simp [hnode]

/-- Everything below corresponding positions is written alike, if there is fuel for it. -/
theorem linesBelow_congr (hd : names.Distinct) (hf : forest.WellFormed) (hf' : forest'.WellFormed)
    (hsight : ∀ path, sight? parameters' forest' path = sight? parameters forest path)
    (hknown : ∀ path name, (forest.find? (path ++ [name])).isSome → (names.text? name).isSome)
    (owner : Name) {fuel fuel' depth : Nat} {path : List Name} (hpos : forest.seek path = some position)
    (hpos' : forest'.seek path = some position') (hfuel : forest.size ≤ fuel + floor position)
    (hfuel' : forest'.size ≤ fuel' + floor position') :
    linesBelow ⟨types, names, parameters'⟩ owner forest' fuel' depth position' =
      linesBelow ⟨types, names, parameters⟩ owner forest fuel depth position := by
  have hfind : ∀ path, (forest'.find? path).isSome ↔ (forest.find? path).isSome := by
    intro path
    rw [← sight?_isSome, hsight, sight?_isSome]
  have hchild : ∀ {path position position'}, forest.seek path = some position →
      forest'.seek path = some position' → ∀ name,
      ((forest'.child? position' name).isSome ↔ (forest.child? position name).isSome) := by
    intro path position position' hpos hpos' name
    have hsame := hfind (path ++ [name])
    rwa [Forest.find?_concat, Forest.find?_concat, hpos, hpos'] at hsame
  induction fuel using Nat.strongRecOn generalizing fuel' depth path position position' with
  | ind fuel ih =>
    by_cases hnone : ∀ name, forest.child? position name = none
    · have hnone' : ∀ name, forest'.child? position' name = none := by
        intro name
        rw [← Option.not_isSome_iff_eq_none, hchild hpos hpos', hnone name]
        simp
      rw [linesBelow_of_childless hf hnone, linesBelow_of_childless hf' hnone']
    · simp only [not_forall, ← ne_eq, Option.ne_none_iff_isSome] at hnone
      obtain ⟨name, hname⟩ := hnone
      obtain ⟨id, hid⟩ := Option.isSome_iff_exists.1 hname
      obtain ⟨id', hid'⟩ := Option.isSome_iff_exists.1 ((hchild hpos hpos' name).2 hname)
      have hfloor := floor_le_of_child? hf hid
      have hfloor' := floor_le_of_child? hf' hid'
      obtain ⟨fuel, rfl⟩ : ∃ n, fuel = n + 1 := ⟨fuel - 1, by omega⟩
      obtain ⟨fuel', rfl⟩ : ∃ n, fuel' = n + 1 := ⟨fuel' - 1, by omega⟩
      obtain ⟨ids, ids', hids, hids', hpairs⟩ := siblings_congr ⟨types, names, parameters⟩
        ⟨types, names, parameters'⟩ rfl hd hf hf'
        (fun name h => hknown path name (by rwa [Forest.find?_concat, hpos])) (hchild hpos hpos')
      have hblocks : ∀ id' id, (∃ name, forest'.child? position' name = some id' ∧
          forest.child? position name = some id) →
          block ⟨types, names, parameters'⟩ owner forest' fuel' depth id' =
            block ⟨types, names, parameters⟩ owner forest fuel depth id := by
        rintro id' id ⟨name, hid', hid⟩
        have hfind : forest.find? (path ++ [name]) = some id := by
          rw [Forest.find?_concat, hpos, Option.bind_some, hid]
        have hfind' : forest'.find? (path ++ [name]) = some id' := by
          rw [Forest.find?_concat, hpos', Option.bind_some, hid']
        obtain ⟨node, hnode, hname, -⟩ := Forest.isChild_of_child? hid
        obtain ⟨node', hnode', hname', -⟩ := Forest.isChild_of_child? hid'
        have hsame := hsight (path ++ [name])
        simp only [sight?, hfind, hfind', Option.bind_some, hnode, hnode', Option.map_some,
          Option.some.injEq] at hsame
        have hfloor := floor_le_of_child? hf hid
        have hfloor' := floor_le_of_child? hf' hid'
        have hbelow : linesBelow ⟨types, names, parameters'⟩ owner forest' fuel' (depth + 1) (some id') =
            linesBelow ⟨types, names, parameters⟩ owner forest fuel (depth + 1) (some id) :=
          ih fuel (by omega) (Forest.seek_eq_some_some.2 hfind) (Forest.seek_eq_some_some.2 hfind')
            (by simp only [floor]; omega) (by simp only [floor]; omega)
        simp only [block, hnode, hnode', Option.bind_some, hbelow,
          line_congr (hname'.trans hname.symm) hsame]
      rw [linesBelow_succ, linesBelow_succ, hids, hids', Option.bind_some, Option.bind_some,
        mapM_of_forall₂ hpairs hblocks]

/-- What is shown at the end of a path of the parameter at position `owner`. -/
def shown? (parameters : List Parameter) (owner : Nat) (path : List Name) : Option Sight :=
  ((found? parameters owner path).bind (nodeAt? parameters owner)).map (nodeSight parameters)

theorem shown?_eq {owner : Nat} {parameter : Parameter} (h : parameters[owner]? = some parameter)
    (path : List Name) : shown? parameters owner path = sight? parameters parameter.forest path := by
  rw [shown?, sight?, found?_eq h]
  congr 2
  funext id
  exact nodeAt?_eq h id

theorem parameterLines_congr (hd : names.Distinct) {parameter parameter' : Parameter}
    (hblank : parameter'.blank = parameter.blank) (hf : parameter.forest.WellFormed)
    (hf' : parameter'.forest.WellFormed)
    (hsight : ∀ path, sight? parameters' parameter'.forest path =
      sight? parameters parameter.forest path)
    (hknown : ∀ path name, (parameter.forest.find? (path ++ [name])).isSome →
      (names.text? name).isSome) :
    parameterLines ⟨types, names, parameters'⟩ parameter' =
      parameterLines ⟨types, names, parameters⟩ parameter := by
  simp only [blank, Parameter.mk.injEq] at hblank
  obtain ⟨hname, htype, -, hstatus, -⟩ := hblank
  have hbelow : linesBelow ⟨types, names, parameters'⟩ parameter.name parameter'.forest
      parameter'.forest.size 1 none = linesBelow ⟨types, names, parameters⟩ parameter.name
        parameter.forest parameter.forest.size 1 none :=
    linesBelow_congr hd hf hf' hsight hknown parameter.name (Forest.seek_nil _) (Forest.seek_nil _)
      (Nat.le_refl _) (Nat.le_refl _)
  simp only [parameterLines, hname, htype, hstatus, hbelow]

/-- Parameters that show the same have the same outline, or both have none. -/
theorem render_congr (hd : names.Distinct) (hwf : WellFormed parameters)
    (hwf' : WellFormed parameters') (hblank : parameters'.map blank = parameters.map blank)
    (hshown : ∀ owner path, shown? parameters' owner path = shown? parameters owner path)
    (hknown : ∀ owner path name, (found? parameters owner (path ++ [name])).isSome →
      (names.text? name).isSome) :
    render types names parameters' = render types names parameters := by
  have hpairs : List.Forall₂ (fun parameter' parameter =>
      parameterLines ⟨types, names, parameters'⟩ parameter' =
        parameterLines ⟨types, names, parameters⟩ parameter) parameters' parameters := by
    rw [List.forall₂_iff_get]
    refine ⟨by simpa using congrArg List.length hblank, fun owner hlt' hlt => ?_⟩
    have hparam : parameters[owner]? = some (parameters.get ⟨owner, hlt⟩) :=
      List.getElem?_eq_getElem hlt
    have hparam' : parameters'[owner]? = some (parameters'.get ⟨owner, hlt'⟩) :=
      List.getElem?_eq_getElem hlt'
    obtain ⟨_, hsame, heq⟩ := getElem?_blank hblank hparam
    rw [hparam'] at hsame
    cases hsame
    refine parameterLines_congr hd heq (hwf hparam) (hwf' hparam') (fun path => ?_)
      (fun path name h => hknown owner path name ?_)
    · rw [← shown?_eq hparam', ← shown?_eq hparam, hshown]
    · rwa [found?_eq hparam]
  unfold render
  rw [mapM_of_forall₂ hpairs fun _ _ h => h]

/-- All names and types that are shown can be written. -/
structure Legible (types : TypeTable) (names : NameTable) (sight : Sight) : Prop where
  type : ∀ type ∈ sight.type, (types.write? names type).isSome
  link : ∀ link ∈ sight.link, (names.text? link.parameter).isSome ∧
    ∀ target ∈ link.target, ∃ path, target.1 = some path ∧
      (∀ name ∈ path, (names.text? name).isSome) ∧
      ∀ type ∈ target.2.1, (types.write? names type).isSome

theorem annotation_isSome {outline : Outline} {node : Node}
    (h : ∀ type ∈ node.type, (outline.types.write? outline.names type).isSome) :
    ( outline.annotation node).isSome := by
  unfold annotation
  cases htype : node.type with
  | none => rfl
  | some type =>
    obtain ⟨text, htext⟩ := Option.isSome_iff_exists.1 (h type htype)
    simp only [htext]
    rfl

theorem path_isSome {outline : Outline} {path : List Name}
    (h : ∀ name ∈ path, (outline.names.text? name).isSome) : (outline.path path).isSome := by
  obtain ⟨texts, htexts⟩ := Option.isSome_iff_exists.1 (mapM_isSome h)
  rw [Outline.path, htexts]
  rfl

theorem line_isSome {owner : Name} {node : Node} (hname : (names.text? node.name).isSome)
    (h : Legible types names (nodeSight parameters node)) :
    (line ⟨types, names, parameters⟩ owner node).isSome := by
  obtain ⟨text, htext⟩ := Option.isSome_iff_exists.1 hname
  have hannotation : ( annotation ⟨types, names, parameters⟩ node).isSome := annotation_isSome h.type
  obtain ⟨own, hown⟩ := Option.isSome_iff_exists.1 hannotation
  have hlink : ∀ link ∈ node.link,
      (alternative ⟨types, names, parameters⟩ owner link).isSome := by
    intro link hlink
    obtain ⟨hparameter, htarget⟩ := h.link (linkSight parameters link)
      (by simp [nodeSight, Option.mem_def.1 hlink])
    obtain ⟨shown, hshown⟩ : ∃ shown, (if link.parameter = owner then some ""
        else (names.text? link.parameter).map (· ++ ".")) = some shown := by
      obtain ⟨text, htext⟩ := Option.isSome_iff_exists.1 hparameter
      simp only [linkSight] at htext
      split_ifs
      · exact ⟨_, rfl⟩
      · exact ⟨_, by rw [htext, Option.map_some]⟩
    rw [alternative_eq]
    simp only [hshown, Option.bind_some]
    rw [target_linkSight] at htarget
    cases hfound : target? parameters link with
    | none => rfl
    | some found =>
      obtain ⟨forest, target⟩ := found
      rw [hfound] at htarget
      obtain ⟨path, hpath, hnames, htypes⟩ := htarget _ rfl
      have hwritten : (Outline.path ⟨types, names, parameters⟩ path).isSome := path_isSome hnames
      have hannotated : ( annotation ⟨types, names, parameters⟩ target).isSome :=
        annotation_isSome htypes
      obtain ⟨pathText, hpathText⟩ := Option.isSome_iff_exists.1 hwritten
      obtain ⟨annotationText, hannotation⟩ := Option.isSome_iff_exists.1 hannotated
      simp only at hpath
      simp only [hpath, hpathText, hannotation, Option.bind_some]
      rfl
  unfold line
  simp only [htext, hown]
  cases hlinked : node.link with
  | none => split_ifs <;> rfl
  | some link =>
    obtain ⟨other, hother⟩ := Option.isSome_iff_exists.1 (hlink link hlinked)
    simp only [hother]
    split_ifs <;> rfl

theorem linesBelow_isSome (hf : forest.WellFormed)
    (hknown : ∀ path name, (forest.find? (path ++ [name])).isSome → (names.text? name).isSome)
    (hlegible : ∀ path, ∀ sight ∈ sight? parameters forest path, Legible types names sight)
    (owner : Name) {fuel depth : Nat} {path : List Name} (hpos : forest.seek path = some position) :
    (linesBelow ⟨types, names, parameters⟩ owner forest fuel depth position).isSome := by
  induction fuel generalizing depth path position with
  | zero => rfl
  | succ fuel ih =>
    have hchild : ∀ name, (forest.child? position name).isSome → (names.text? name).isSome :=
      fun name h => hknown path name (by rwa [Forest.find?_concat, hpos])
    have hblocks : ∀ id ∈ (sortedEntries names forest position).map (·.2),
        (block ⟨types, names, parameters⟩ owner forest fuel depth id).isSome := by
      intro id hid
      obtain ⟨entry, hentry, rfl⟩ := List.mem_map.1 hid
      have hchild' := child?_of_mem_sortedEntries hf hentry
      have hfind : forest.find? (path ++ [entry.1]) = some entry.2 := by
        rw [Forest.find?_concat, hpos, Option.bind_some, hchild']
      obtain ⟨node, hnode, hname, -⟩ := Forest.isChild_of_child? hchild'
      have hsight := hlegible (path ++ [entry.1]) (nodeSight parameters node)
        (by simp [sight?, hfind, hnode])
      have hline : (line ⟨types, names, parameters⟩ owner node).isSome :=
        line_isSome (hname ▸ hchild entry.1 (by rw [hchild']; rfl)) hsight
      obtain ⟨text, htext⟩ := Option.isSome_iff_exists.1 hline
      have hdeeper : (linesBelow ⟨types, names, parameters⟩ owner forest fuel (depth + 1)
          (some entry.2)).isSome := ih (Forest.seek_eq_some_some.2 hfind)
      obtain ⟨below, hbelow⟩ := Option.isSome_iff_exists.1 hdeeper
      rw [block, hnode, Option.bind_some, htext, Option.bind_some, hbelow]
      rfl
    obtain ⟨blocks, hmap⟩ := Option.isSome_iff_exists.1 (mapM_isSome hblocks)
    rw [linesBelow_succ, siblings_eq hchild hf, Option.bind_some, hmap]
    rfl

/-- If everything shown can be written, then there is an outline. -/
theorem render_isSome (hwf : WellFormed parameters)
    (hname : ∀ parameter ∈ parameters, (names.text? parameter.name).isSome)
    (htype : ∀ parameter ∈ parameters, (types.write? names parameter.type).isSome)
    (hknown : ∀ owner path name, (found? parameters owner (path ++ [name])).isSome →
      (names.text? name).isSome)
    (hlegible : ∀ owner path, ∀ sight ∈ shown? parameters owner path, Legible types names sight) :
    (render types names parameters).isSome := by
  have hlines : ∀ parameter ∈ parameters,
      (parameterLines ⟨types, names, parameters⟩ parameter).isSome := by
    intro parameter hmem
    obtain ⟨owner, hparam⟩ := List.mem_iff_getElem?.1 hmem
    have hbelow : (linesBelow ⟨types, names, parameters⟩ parameter.name parameter.forest
        parameter.forest.size 1 none).isSome := by
      refine linesBelow_isSome (hwf hparam) (fun path name h => hknown owner path name ?_)
        (fun path => ?_) parameter.name (Forest.seek_nil _)
      · rwa [found?_eq hparam]
      · rw [← shown?_eq hparam]
        exact hlegible owner path
    obtain ⟨name, hname⟩ := Option.isSome_iff_exists.1 (hname parameter hmem)
    obtain ⟨type, htype⟩ := Option.isSome_iff_exists.1 (htype parameter hmem)
    obtain ⟨below, hbelow⟩ := Option.isSome_iff_exists.1 hbelow
    simp only [parameterLines, hname, htype, hbelow]
    split_ifs <;> rfl
  obtain ⟨blocks, hblocks⟩ := Option.isSome_iff_exists.1 (mapM_isSome hlines)
  rw [render, hblocks]
  rfl

end InputDetail.Outline
