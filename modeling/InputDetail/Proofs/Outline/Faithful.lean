import InputDetail.Proofs.Analysis.OrderIndependence
import InputDetail.Proofs.Outline.Dictionary
import InputDetail.Proofs.Outline.Sheets

/-!
# Outlines print sheets

The outline of a parameter lists the paths of its forest in the order of a dictionary, and prints the row
of each. So it is determined by what the sheets of the parameters say, and by nothing else; and as no row
lacks anything, no question mark stands for a type or a member that is missing.
-/
namespace InputDetail.Outline

open Analysis Parameter

variable {types : TypeTable} {names : NameTable} {parameters : List Parameter} {outline : Outline}
  {owner : Name} {forest : Forest}

/-- The rows of all members, in the order of the outline. -/
def rows (outline : Outline) (owner : Name) (forest : Forest) : List (List String × Row) :=
  (listing outline.names forest forest.size [] none).map fun entry => (texts outline.names entry.1,
    ((forest.node? entry.2).map (outline.row owner)).getD ⟨none, none⟩)

theorem length_rows (outline : Outline) (owner : Name) (forest : Forest) :
    (outline.rows owner forest).length = forest.walk.length := by
  rw [rows, List.length_map, Forest.walk,
    ← (listing_perm outline.names forest forest.size [] none).length_eq, List.length_map]

section Members

variable (hd : outline.names.Distinct) (hf : forest.WellFormed)
  (hmember : ∀ id node, forest.node? id = some node → (outline.names.text? node.name).isSome)
include hd hf hmember

theorem pairwise_rows : (outline.rows owner forest).Pairwise fun row later => row.1 < later.1 :=
  List.pairwise_map.2 (lt_listing hd hf hmember (Forest.seek_nil forest))

theorem rowAt?_of_find? {path : List Name} {id : NodeId} {node : Node}
    (hfind : forest.find? path = some id) (hnode : forest.node? id = some node) :
    outline.rowAt? owner forest (texts outline.names path) = some (outline.row owner node) := by
  have hback := mapM_symm (fun _ _ => hd.name?_eq_some_iff.2) (mapM_text?_of_find? hf hmember hfind)
  simp [rowAt?, hback, hfind, hnode]

/-- There is a row for every path that leads to a node. -/
theorem mem_rows {path : List String} {row : Row} :
    (path, row) ∈ outline.rows owner forest ↔ outline.rowAt? owner forest path = some row := by
  constructor
  · intro h
    obtain ⟨⟨found, id⟩, hlisted, heq⟩ := List.mem_map.1 h
    obtain ⟨rfl, rfl⟩ := Prod.mk.inj heq
    have hfind := (mem_listing hf).1 hlisted
    obtain ⟨node, hnode, -⟩ := Forest.node?_of_find? hfind
    rw [rowAt?_of_find? hd hf hmember hfind hnode, hnode, Option.map_some, Option.getD_some]
  · intro h
    obtain ⟨found, hfound, hrest⟩ := Option.bind_eq_some_iff.1 h
    obtain ⟨id, hfind, hrest⟩ := Option.bind_eq_some_iff.1 hrest
    obtain ⟨node, hnode, heq⟩ := Option.bind_eq_some_iff.1 hrest
    cases heq
    have hback := mapM_symm (fun _ _ => hd.name?_eq_some_iff.1) hfound
    rw [mapM_text?_of_find? hf hmember hfind, Option.some.injEq] at hback
    refine List.mem_map.2 ⟨(found, id), (mem_listing hf).2 hfind, ?_⟩
    rw [hback, hnode, Option.map_some, Option.getD_some]

omit hd in
/-- Below a parameter stand its rows. -/
theorem linesBelow_eq_rows (hrow : ∀ id node, forest.node? id = some node →
      (outline.row owner node).own.isSome = node.isLeaf ∧
        (outline.row owner node).other.isSome = node.link.isSome) :
    outline.linesBelow owner forest forest.size 1 none =
      some ((outline.rows owner forest).map fun (path, row) =>
        indent path.length ++ path.getLastD "" ++ row.text) := by
  have hline : ∀ path id, forest.find? path = some id → ∃ node, forest.node? id = some node ∧
      outline.line owner node =
        some ((texts outline.names path).getLastD "" ++ (outline.row owner node).text) := by
    intro path id hfind
    obtain ⟨above, name, rfl⟩ := List.eq_nil_or_concat' path |>.resolve_left
      (Forest.ne_nil_of_find? hfind)
    obtain ⟨node, hnode, rfl, -⟩ := Forest.node?_of_find?_concat hfind
    obtain ⟨text, htext⟩ := Option.isSome_iff_exists.1 (hmember id node hnode)
    refine ⟨node, hnode, ?_⟩
    rw [line_eq htext (hrow id node hnode).1 (hrow id node hnode).2, texts_append]
    simp [texts, textOf, htext]
  have hwritten : ∀ path id, forest.find? path = some id →
      ((forest.node? id).bind (outline.line owner)).isSome := by
    intro path id hfind
    obtain ⟨node, hnode, hline⟩ := hline path id hfind
    rw [hnode, Option.bind_some, hline]
    rfl
  have hlines : outline.linesBelow owner forest forest.size 1 none =
      some ((listing outline.names forest forest.size [] none).map fun entry =>
        indent entry.1.length ++ outline.lineAt owner forest entry.2) :=
    linesBelow_eq hf hmember rfl hwritten (Forest.seek_nil forest)
  rw [hlines, rows, List.map_map]
  refine congrArg some (List.map_congr_left fun entry hentry => ?_)
  obtain ⟨node, hnode, hline⟩ := hline entry.1 entry.2 ((mem_listing hf).1 hentry)
  simp only [lineAt, Function.comp, hnode, hline, Option.bind_some, Option.map_some, Option.getD_some,
    texts, List.length_map, String.append_assoc]

end Members

/-- The lines of a parameter print its sheet, with one line for every node of a structured parameter. The
row of a node has type and status if the node is a leaf, and an excluded member if it has a link. -/
structure Shows (outline : Outline) (parameter : Parameter) (lines : List String) : Prop where
  printed : ∃ sheet, outline.sheet? parameter = some sheet ∧ sheet.Prints lines
  length : lines.length =
    if outline.types.isSimple parameter.type then 1 else parameter.forest.walk.length + 1
  row : ∀ path id, parameter.forest.find? path = some id → ∃ labels node,
    path.mapM outline.names.text? = some labels ∧ parameter.forest.node? id = some node ∧
      outline.rowAt? parameter.name parameter.forest labels =
        some (outline.row parameter.name node) ∧
      (outline.row parameter.name node).own.isSome = node.isLeaf ∧
      (outline.row parameter.name node).other.isSome = node.link.isSome

section Parameters

variable (hreach : Reachable parameters) (h : Known types names parameters) {parameter : Parameter}
  (hmem : parameter ∈ parameters)
include hreach h hmem

theorem row_isSome_of_mem (id : NodeId) (node : Node) (hnode : parameter.forest.node? id = some node) :
    (row ⟨types, names, parameters⟩ parameter.name node).own.isSome = node.isLeaf ∧
      (row ⟨types, names, parameters⟩ parameter.name node).other.isSome = node.link.isSome := by
  obtain ⟨position, hparam⟩ := List.mem_iff_getElem?.1 hmem
  exact h.row_isSome hreach (by rw [nodeAt?_eq hparam, hnode]) parameter.name

theorem parameterLines_prints : ∃ sheet lines, sheet? ⟨types, names, parameters⟩ parameter = some sheet ∧
    parameterLines ⟨types, names, parameters⟩ parameter = some lines ∧ sheet.Prints lines ∧
    lines.length = if types.isSimple parameter.type then 1 else parameter.forest.walk.length + 1 := by
  obtain ⟨name, hname⟩ := Option.isSome_iff_exists.1 (h.parameter parameter hmem)
  cases hsimple : types.isSimple parameter.type with
  | true =>
    have hsome : (mark? ⟨types, names, parameters⟩ (some parameter.type)
        (some parameter.status)).isSome := h.mark?_isSome rfl _
    obtain ⟨mark, hmark⟩ := Option.isSome_iff_exists.1 hsome
    obtain ⟨type, htype, hrest⟩ := Option.bind_eq_some_iff.1 hmark
    cases hrest
    refine ⟨.simple name ⟨type, parameter.status⟩, [name ++ Mark.text ⟨type, parameter.status⟩],
      by simp [sheet?, hname, hsimple, hmark], ?_, .simple name _, rfl⟩
    have htype : types.write? names parameter.type = some type := htype
    simp only [parameterLines, hname, hsimple, htype, if_true, Mark.text, String.append_assoc]
    rfl
  | false =>
    have hwf := (hreach.built parameter hmem).wellFormed
    have hmember := h.member parameter hmem
    have hbelow := linesBelow_eq_rows hwf hmember (row_isSome_of_mem hreach h hmem)
    refine ⟨.structured name (rowAt? ⟨types, names, parameters⟩ parameter.name parameter.forest), _,
      by simp [sheet?, hname, hsimple], ?_, .structured name _ _ (pairwise_rows h.distinct hwf hmember)
        fun _ _ => mem_rows h.distinct hwf hmember, ?_⟩
    · simp [parameterLines, hname, hsimple, hbelow]
    · rw [if_neg Bool.false_ne_true, List.length_cons, List.length_map, length_rows]

theorem shows_of_known : ∃ lines, parameterLines ⟨types, names, parameters⟩ parameter = some lines ∧
    Shows ⟨types, names, parameters⟩ parameter lines := by
  obtain ⟨sheet, lines, hsheet, hlines, hprints, hlength⟩ := parameterLines_prints hreach h hmem
  refine ⟨lines, hlines, ⟨sheet, hsheet, hprints⟩, hlength, fun path id hfind => ?_⟩
  have hwf := (hreach.built parameter hmem).wellFormed
  have hmember := h.member parameter hmem
  obtain ⟨node, hnode, -⟩ := Forest.node?_of_find? hfind
  exact ⟨texts names path, node, mapM_text?_of_find? hwf hmember hfind, hnode,
    rowAt?_of_find? h.distinct hwf hmember hfind hnode, row_isSome_of_mem hreach h hmem id node hnode⟩

end Parameters

section QuestionMarks

variable (hnames : ∀ name text, outline.names.text? name = some text → occurrences '?' text = 0)
include hnames

theorem occurrences_mark {type : Option TypeId} {status : Option Status} {mark : Mark}
    (h : outline.mark? type status = some mark) : occurrences '?' mark.text = 0 := by
  obtain ⟨known, -, hrest⟩ := Option.bind_eq_some_iff.1 h
  obtain ⟨text, htext, hrest⟩ := Option.bind_eq_some_iff.1 hrest
  obtain ⟨status, -, heq⟩ := Option.bind_eq_some_iff.1 hrest
  cases heq
  have hwritten : occurrences '?' text = 0 :=
    occurrences_writeWithin hnames (fun kind => by cases kind <;> decide) (by decide) (by decide) htext
  show occurrences '?' (" (" ++ text ++ ", " ++ status.word ++ ")") = 0
  simp only [occurrences_append, hwritten]
  cases status <;> decide

theorem occurrences_rival {link : Link} {rival : Rival} (h : outline.rival? owner link = some rival) :
    occurrences '?' rival.text = 0 := by
  obtain ⟨parameter, hparameter, hrest⟩ := Option.bind_eq_some_iff.1 h
  obtain ⟨target, -, hrest⟩ := Option.bind_eq_some_iff.1 hrest
  obtain ⟨path, -, hrest⟩ := Option.bind_eq_some_iff.1 hrest
  obtain ⟨labels, hlabels, hrest⟩ := Option.bind_eq_some_iff.1 hrest
  obtain ⟨mark, hmark, heq⟩ := Option.bind_eq_some_iff.1 hrest
  cases heq
  have hforeign : occurrences '?' (parameter.elim "" (· ++ ".")) = 0 := by
    rw [foreign?] at hparameter
    split_ifs at hparameter
    · cases hparameter
      decide
    · obtain ⟨text, htext, rfl⟩ := Option.map_eq_some_iff.1 hparameter
      rw [Option.elim_some, occurrences_append, hnames _ _ htext]
      decide
  have hpath : occurrences '?' (String.intercalate "." labels) = 0 := by
    refine occurrences_intercalate (by decide) fun label hlabel => ?_
    obtain ⟨name, hname⟩ := exists_of_forall₂ (forall₂_of_mapM hlabels).flip hlabel
    exact hnames name label hname
  simp only [Rival.text, occurrences_append, hforeign, hpath, occurrences_mark hnames hmark]
  decide

theorem occurrences_row (owner : Name) (node : Node) :
    occurrences '?' (outline.row owner node).text = 0 := by
  have hown : occurrences '?' ((outline.row owner node).own.elim "" Mark.text) = 0 := by
    cases hmark : (outline.row owner node).own with
    | none => decide
    | some mark => exact occurrences_mark hnames hmark
  have hother : occurrences '?' ((outline.row owner node).other.elim "" Rival.text) = 0 := by
    cases hrival : (outline.row owner node).other with
    | none => decide
    | some rival =>
      obtain ⟨link, -, hlink⟩ := Option.bind_eq_some_iff.1 hrival
      exact occurrences_rival hnames hlink
  rw [Row.text, occurrences_append, hown, hother]

/-- No question mark is printed that no name has. -/
theorem occurrences_lines {parameter : Parameter} {sheet : Sheet}
    (hsheet : outline.sheet? parameter = some sheet) {lines : List String}
    (hprints : sheet.Prints lines) : ∀ line ∈ lines, occurrences '?' line = 0 := by
  obtain ⟨name, hname, hrest⟩ := Option.bind_eq_some_iff.1 hsheet
  have hhead := hnames _ _ hname
  split_ifs at hrest with hsimple
  · obtain ⟨mark, hmark, heq⟩ := Option.bind_eq_some_iff.1 hrest
    cases heq
    cases hprints
    rw [List.forall_mem_singleton, occurrences_append, hhead, occurrences_mark hnames hmark]
  · cases hrest
    cases hprints with
    | structured _ _ rows _ listed =>
      refine List.forall_mem_cons.2 ⟨hhead, fun line hline => ?_⟩
      obtain ⟨⟨path, row⟩, hmem, rfl⟩ := List.mem_map.1 hline
      obtain ⟨found, hfound, hrest⟩ := Option.bind_eq_some_iff.1 ((listed path row).1 hmem)
      obtain ⟨id, -, hrest⟩ := Option.bind_eq_some_iff.1 hrest
      obtain ⟨node, -, heq⟩ := Option.bind_eq_some_iff.1 hrest
      cases heq
      have hlast : occurrences '?' (path.getLastD "") = 0 := by
        rw [List.getLastD_eq_getLast?]
        cases hlabel : path.getLast? with
        | none => decide
        | some label =>
          obtain ⟨last, hlast⟩ := exists_of_forall₂ (forall₂_of_mapM hfound)
            (List.mem_of_getLast? hlabel)
          exact hnames last label (NameTable.text?_of_name? hlast)
      rw [occurrences_append, occurrences_append, hlast, occurrences_row hnames,
        occurrences_indent (by decide)]

end QuestionMarks

theorem exists_mapM {α β : Type} {f : α → Option β} {r : α → β → Prop} {as : List α}
    (h : ∀ a ∈ as, ∃ b, f a = some b ∧ r a b) :
    ∃ bs, as.mapM f = some bs ∧ List.Forall₂ r as bs := by
  induction as with
  | nil => exact ⟨[], rfl, .nil⟩
  | cons a as ih =>
    rw [List.forall_mem_cons] at h
    obtain ⟨b, hb, hab⟩ := h.1
    obtain ⟨bs, hbs, hpairs⟩ := ih h.2
    exact ⟨b :: bs, by rw [List.mapM_cons, hb, hbs]; rfl, .cons hab hpairs⟩

/-- Outlines of the same sheets have the same lines. -/
theorem lines_unique {outline outline' : Outline} {parameters parameters' : List Parameter}
    (hsheets : parameters'.mapM outline'.sheet? = parameters.mapM outline.sheet?)
    {blocks blocks' : List (List String)} (h : List.Forall₂ (Shows outline) parameters blocks)
    (h' : List.Forall₂ (Shows outline') parameters' blocks') : blocks' = blocks := by
  have hprinted : ∀ {outline : Outline} {parameters blocks},
      List.Forall₂ (Shows outline) parameters blocks → ∃ sheets,
        parameters.mapM outline.sheet? = some sheets ∧ List.Forall₂ Sheet.Prints sheets blocks := by
    intro outline parameters blocks h
    induction h with
    | nil => exact ⟨[], rfl, .nil⟩
    | cons hshows _ ih =>
      obtain ⟨sheet, hsheet, hprints⟩ := hshows.printed
      obtain ⟨sheets, hrest, hpairs⟩ := ih
      exact ⟨sheet :: sheets, by rw [List.mapM_cons, hsheet, hrest]; rfl, .cons hprints hpairs⟩
  obtain ⟨sheets, hread, hprints⟩ := hprinted h
  obtain ⟨sheets', hread', hprints'⟩ := hprinted h'
  rw [hsheets, hread] at hread'
  obtain rfl := Option.some.inj hread'
  have hunique : Relator.RightUnique Sheet.Prints := fun _ _ _ => Sheet.Prints.unique
  exact List.right_unique_forall₂' hunique hprints' hprints

theorem render_shows (hreach : Reachable parameters) (h : Known types names parameters) :
    ∃ blocks, render types names parameters = some (text blocks.flatten) ∧
      List.Forall₂ (Shows ⟨types, names, parameters⟩) parameters blocks := by
  obtain ⟨blocks, hblocks, hshows⟩ := exists_mapM fun _ hmem => shows_of_known hreach h hmem
  exact ⟨blocks, by rw [render, hblocks]; rfl, hshows⟩

/-- An outline shows the parameters one after the other. It has no question mark unless a name has one,
and it is the same for all states that have the same sheets, whatever their numbers. -/
theorem render_faithful (hreach : Reachable parameters) (h : Known types names parameters) :
    (∃ blocks, render types names parameters = some (text blocks.flatten) ∧
      List.Forall₂ (Shows ⟨types, names, parameters⟩) parameters blocks ∧
      ((∀ name text, names.text? name = some text → '?' ∉ text.toList) →
        '?' ∉ (text blocks.flatten).toList)) ∧
    ∀ types' names' parameters', Reachable parameters' → Known types' names' parameters' →
      parameters'.mapM (sheet? ⟨types', names', parameters'⟩) =
        parameters.mapM (sheet? ⟨types, names, parameters⟩) →
      render types' names' parameters' = render types names parameters := by
  obtain ⟨blocks, hrender, hshows⟩ := render_shows hreach h
  refine ⟨⟨blocks, hrender, hshows, fun hnames => List.count_eq_zero.1 ?_⟩, ?_⟩
  · show occurrences '?' (text blocks.flatten) = 0
    rw [occurrences_text]
    refine weights_eq_zero (by decide) fun line hline => ?_
    obtain ⟨lines, hlines, hline⟩ := List.mem_flatten.1 hline
    obtain ⟨parameter, hparameter⟩ := exists_of_forall₂ hshows.flip hlines
    obtain ⟨sheet, hsheet, hprints⟩ := hparameter.printed
    exact occurrences_lines (fun name text htext => List.count_eq_zero.2 (hnames name text htext))
      hsheet hprints line hline
  · intro types' names' parameters' hreach' h' hsheets
    obtain ⟨blocks', hrender', hshows'⟩ := render_shows hreach' h'
    rw [hrender, hrender', lines_unique hsheets hshows hshows']

example : render Sample.model.types Sample.names
    (stateAfter Sample.model ⟨Sample.store, [⟨5⟩, ⟨7⟩]⟩ Sample.parameters) =
      some "p\n    a (t, mandatory) or b (string, mandatory)\n        a (t, mandatory)\n" := by
  decide +kernel

/-- The alternation of `a` and `b`, and the member `a` of `a`. -/
theorem render_faithful_sample :
    let types := Sample.model.types
    let names := Sample.names
    let reached := stateAfter Sample.model ⟨Sample.store, [⟨5⟩, ⟨7⟩]⟩ Sample.parameters
    Reachable reached ∧ Known types names reached ∧
      (∃ blocks, render types names reached = some (text blocks.flatten) ∧
        List.Forall₂ (Shows ⟨types, names, reached⟩) reached blocks ∧
        ((∀ name text, names.text? name = some text → '?' ∉ text.toList) →
          '?' ∉ (text blocks.flatten).toList)) ∧
      ∀ types' names' parameters', Reachable parameters' → Known types' names' parameters' →
        parameters'.mapM (sheet? ⟨types', names', parameters'⟩) =
          reached.mapM (sheet? ⟨types, names, reached⟩) →
        render types' names' parameters' = render types names reached := by
  intro types names reached
  have hreach : Reachable reached := (Reachable.start Sample.nothing_recorded).analysis _ _
  have hnodes : ∀ parameter ∈ reached, ∀ node ∈ parameter.forest.nodes.toList,
      (names.text? node.name).isSome := by
    decide +kernel
  have hknown : Known types names reached :=
    { distinct := NameTable.distinct_of_nodup (by decide)
      lists := Sample.grounded_types.acyclic
      type := Sample.named_types
      parameter := by decide +kernel
      member := fun parameter hmem _ node hnode =>
        hnodes parameter hmem node (Array.mem_toList_iff.2 (Array.mem_of_getElem? hnode)) }
  exact ⟨hreach, hknown, render_faithful hreach hknown⟩

end InputDetail.Outline
