import InputDetail.Proofs.Analysis.Statuses
import InputDetail.Proofs.Outline.Lines

/-!
# What statuses add to an outline

A status is written behind a comma. If nodes get statuses and nothing else changes, then no line loses
a comma, and the line of a node that had no status has one more.
-/
namespace InputDetail.Outline

open Analysis Parameter

variable {types : TypeTable} {names : NameTable} {parameters parameters' : List Parameter}

/-- Links lead to the same nodes, up to their statuses. -/
theorem target?_cases (h : Alike parameters parameters') (hwf : WellFormed parameters) (link : Link) :
    target? parameters link = none ∧ target? parameters' link = none ∨
      ∃ owner forest forest' node node', target? parameters link = some (forest, node) ∧
        target? parameters' link = some (forest', node') ∧
        nodeAt? parameters owner link.node = some node ∧
        nodeAt? parameters' owner link.node = some node' ∧ node'.unmarked = node.unmarked ∧
        forest'.path? link.node = forest.path? link.node := by
  simp only [target?, byName?_eq, position?_congr (names_of_bare h.bare)]
  cases position? parameters link.parameter with
  | none => exact Or.inl ⟨rfl, rfl⟩
  | some owner =>
    simp only [Option.bind_some]
    obtain ⟨hparam, hparam'⟩ | ⟨parameter, parameter', hparam, hparam', -, hplaces⟩ := h.cases owner
    · rw [hparam, hparam']
      exact Or.inl ⟨rfl, rfl⟩
    · rw [hparam, hparam', Option.bind_some, Option.bind_some]
      cases hnode : parameter.forest.node? link.node with
      | none =>
        have hsame := h.unmarked owner link.node
        rw [nodeAt?_eq hparam, nodeAt?_eq hparam', hnode, Option.map_none,
          Option.map_eq_none_iff] at hsame
        exact Or.inl ⟨rfl, by rw [hsame]; rfl⟩
      | some node =>
        have hat : nodeAt? parameters owner link.node = some node := by rw [nodeAt?_eq hparam, hnode]
        obtain ⟨node', hat', hsame⟩ := h.node hat
        have hnode' := hat'
        rw [nodeAt?_eq hparam'] at hnode'
        have hpath := h.pathAt?_eq hwf hat
        rw [pathAt?_eq hparam, pathAt?_eq hparam'] at hpath
        exact Or.inr ⟨owner, _, _, node, node', rfl, by rw [hnode']; rfl, hat, hat', hsame, hpath⟩

theorem commas_statusText (status : Option Status) :
    occurrences ',' (statusText status) = if status.isSome then 1 else 0 := by
  cases status with
  | none => decide
  | some status => cases status <;> decide

theorem commas_annotation_pos {outline : Outline} {node : Node} {text : String}
    (h : outline.annotation node = some text) (hstatus : node.status.isSome) :
    0 < occurrences ',' text := by
  obtain ⟨type, -, rfl⟩ := annotation_cases h
  simp only [occurrences_append, commas_statusText, hstatus, if_true]
  omega

theorem commas_annotation_le {outline outline' : Outline} (htypes : outline'.types = outline.types)
    (hnames : outline'.names = outline.names) {node node' : Node}
    (hsame : node'.unmarked = node.unmarked)
    (hmark : node.status.isSome → node'.status.isSome) {text text' : String}
    (h : outline.annotation node = some text) (h' : outline'.annotation node' = some text') :
    occurrences ',' text ≤ occurrences ',' text' := by
  obtain ⟨type, htype, rfl⟩ := annotation_cases h
  obtain ⟨type', htype', rfl⟩ := annotation_cases h'
  obtain ⟨-, -, hknown, -⟩ := Node.unmarked_eq_iff.1 hsame
  rw [htypes, hnames, hknown, htype, Option.some.injEq] at htype'
  subst htype'
  simp only [occurrences_append, commas_statusText]
  by_cases hstatus : node.status.isSome
  · rw [if_pos hstatus, if_pos (hmark hstatus)]
  · rw [if_neg hstatus]
    omega

theorem commas_alternative_le (h : Fills parameters parameters') (hwf : WellFormed parameters)
    {owner : Name} {link : Link} {text text' : String}
    (hline : alternative ⟨types, names, parameters⟩ owner link = some text)
    (hline' : alternative ⟨types, names, parameters'⟩ owner link = some text') :
    occurrences ',' text ≤ occurrences ',' text' := by
  obtain ⟨parameter, hparameter, hcase⟩ := alternative_cases hline
  obtain ⟨parameter', hparameter', hcase'⟩ := alternative_cases hline'
  rw [hparameter, Option.some.injEq] at hparameter'
  subst hparameter'
  obtain ⟨hnone, hnone'⟩ | ⟨at_, forest, forest', node, node', htarget, htarget', hnode, hnode', hsame,
    hpath⟩ := target?_cases h.toAlike hwf link
  · obtain ⟨-, rfl⟩ | ⟨_, _, _, _, _, hsome, -⟩ := hcase
    · obtain ⟨-, rfl⟩ | ⟨_, _, _, _, _, hsome, -⟩ := hcase'
      · exact Nat.le_refl _
      · simp [hnone'] at hsome
    · simp [hnone] at hsome
  · obtain ⟨hnone, -⟩ | ⟨_, _, path, pathText, annotation, hsome, hread, hpathText, hannotation, rfl⟩ :=
      hcase
    · simp [htarget] at hnone
    · obtain ⟨hnone, -⟩ | ⟨_, _, _, _, annotation', hsome', hread', hpathText', hannotation', rfl⟩ :=
        hcase'
      · simp [htarget'] at hnone
      · simp only [htarget, Option.some.injEq, Prod.mk.injEq] at hsome
        simp only [htarget', Option.some.injEq, Prod.mk.injEq] at hsome'
        obtain ⟨rfl, rfl⟩ := hsome
        obtain ⟨rfl, rfl⟩ := hsome'
        rw [hpath, hread, Option.some.injEq] at hread'
        subst hread'
        change Outline.path ⟨types, names, parameters⟩ path = _ at hpathText'
        rw [hpathText, Option.some.injEq] at hpathText'
        subst hpathText'
        have hle : occurrences ',' annotation ≤ occurrences ',' annotation' :=
          commas_annotation_le rfl rfl hsame (h.status hnode hnode') hannotation hannotation'
        simp only [occurrences_append]
        omega

/-- The line of a node has no fewer commas, and more if the node got a status. -/
theorem commas_line (h : Fills parameters parameters') (hwf : WellFormed parameters)
    {owner : Name} {node node' : Node} (hsame : node'.unmarked = node.unmarked)
    (hmark : node.status.isSome → node'.status.isSome) {text text' : String}
    (hline : line ⟨types, names, parameters⟩ owner node = some text)
    (hline' : line ⟨types, names, parameters'⟩ owner node' = some text') :
    occurrences ',' text ≤ occurrences ',' text' ∧
      (occurrences ',' text' ≤ occurrences ',' text → node'.status.isSome → node.status.isSome) := by
  obtain ⟨name, own, other, hname, hown, hother, rfl⟩ := line_cases hline
  obtain ⟨name', own', other', hname', hown', hother', rfl⟩ := line_cases hline'
  obtain ⟨hsameName, -, -, hsameLink, -⟩ := Node.unmarked_eq_iff.1 hsame
  rw [hsameName, hname, Option.some.injEq] at hname'
  subst hname'
  have hotherLe : occurrences ',' other ≤ occurrences ',' other' := by
    rw [hsameLink] at hother'
    cases hlink : node.link with
    | none =>
      simp only [hlink] at hother hother'
      cases hother
      cases hother'
      exact Nat.le_refl _
    | some link =>
      simp only [hlink] at hother hother'
      exact commas_alternative_le h hwf hother hother'
  simp only [occurrences_append]
  by_cases hstatus : node.status.isSome
  · rw [Node.isLeaf, if_pos hstatus] at hown
    rw [Node.isLeaf, if_pos (hmark hstatus)] at hown'
    have hle := commas_annotation_le rfl rfl hsame hmark hown hown'
    exact ⟨by omega, fun _ _ => hstatus⟩
  · rw [Node.isLeaf, if_neg hstatus] at hown
    cases hown
    have hzero : occurrences ',' "" = 0 := by decide
    rw [hzero]
    refine ⟨by omega, fun hle hsome => ?_⟩
    rw [Node.isLeaf, if_pos hsome] at hown'
    have hpos := commas_annotation_pos hown' hsome
    omega

theorem commas_lineAt (h : Fills parameters parameters') (hwf : WellFormed parameters) {index : Nat}
    {parameter parameter' : Parameter} (hparam : parameters[index]? = some parameter)
    (hparam' : parameters'[index]? = some parameter') {owner : Name} {id : NodeId}
    (hsome : ((parameter.forest.node? id).bind (line ⟨types, names, parameters⟩ owner)).isSome)
    (hsome' : ((parameter'.forest.node? id).bind (line ⟨types, names, parameters'⟩ owner)).isSome) :
    weight ',' (lineAt ⟨types, names, parameters⟩ owner parameter.forest id) ≤
        weight ',' (lineAt ⟨types, names, parameters'⟩ owner parameter'.forest id) ∧
      (weight ',' (lineAt ⟨types, names, parameters⟩ owner parameter.forest id) =
          weight ',' (lineAt ⟨types, names, parameters'⟩ owner parameter'.forest id) →
        ∀ node node', parameter.forest.node? id = some node → parameter'.forest.node? id = some node' →
          node'.status.isSome → node.status.isSome) := by
  obtain ⟨text, htext⟩ := Option.isSome_iff_exists.1 hsome
  obtain ⟨text', htext'⟩ := Option.isSome_iff_exists.1 hsome'
  obtain ⟨node, hnode, hline⟩ := Option.bind_eq_some_iff.1 htext
  obtain ⟨node', hnode', hline'⟩ := Option.bind_eq_some_iff.1 htext'
  have hat : nodeAt? parameters index id = some node := by rw [nodeAt?_eq hparam, hnode]
  have hat' : nodeAt? parameters' index id = some node' := by rw [nodeAt?_eq hparam', hnode']
  obtain ⟨_, hheld, hsame⟩ := h.node hat
  rw [hat', Option.some.injEq] at hheld
  subst hheld
  obtain ⟨hle, hback⟩ := commas_line h hwf hsame (h.status hat hat') hline hline'
  simp only [lineAt, htext, htext', Option.getD_some, weight, occurrences_append]
  refine ⟨by omega, fun heq known known' hknown hknown' => ?_⟩
  rw [hnode, Option.some.injEq] at hknown
  rw [hnode', Option.some.injEq] at hknown'
  subst hknown hknown'
  exact hback (by omega)

/-- The lines below a parameter have no fewer commas, and more if a node in the walk got a status. -/
theorem commas_linesBelow (h : Fills parameters parameters') (hwf : WellFormed parameters)
    {index : Nat} {parameter parameter' : Parameter} (hparam : parameters[index]? = some parameter)
    (hparam' : parameters'[index]? = some parameter') {owner : Name} {below below' : List String}
    (hbelow : linesBelow ⟨types, names, parameters⟩ owner parameter.forest parameter.forest.size 1
      none = some below)
    (hbelow' : linesBelow ⟨types, names, parameters'⟩ owner parameter'.forest parameter'.forest.size 1
      none = some below') :
    weights ',' below ≤ weights ',' below' ∧
      (weights ',' below = weights ',' below' →
        ∀ id ∈ parameter.forest.walk, ∀ node node', parameter.forest.node? id = some node →
          parameter'.forest.node? id = some node' → node'.status.isSome → node.status.isSome) := by
  obtain ⟨hsum, hsome⟩ := linesBelow_spec (c := ',') (by decide) hbelow
  obtain ⟨hsum', hsome'⟩ := linesBelow_spec (c := ',') (by decide) hbelow'
  rw [← Forest.walk] at hsum hsome hsum' hsome'
  rw [(h.samePlaces hparam hparam').walk_eq] at hsum' hsome'
  have hline := fun id hid => commas_lineAt h hwf hparam hparam' (hsome id hid) (hsome' id hid)
  have hpairs : List.Forall₂ (· ≤ ·)
      (parameter.forest.walk.map fun id =>
        weight ',' (lineAt ⟨types, names, parameters⟩ owner parameter.forest id))
      (parameter.forest.walk.map fun id =>
        weight ',' (lineAt ⟨types, names, parameters'⟩ owner parameter'.forest id)) := by
    rw [List.forall₂_map_left_iff, List.forall₂_map_right_iff, List.forall₂_same]
    exact fun id hid => (hline id hid).1
  rw [hsum, hsum']
  refine ⟨hpairs.sum_le_sum, fun heq id hid => (hline id hid).2 ?_⟩
  exact List.map_inj_left.1 (eq_of_sum_le hpairs (Nat.le_of_eq heq.symm)) id hid

/-- The block of a parameter has no fewer commas, and more if a node in its walk got a status. -/
theorem commas_parameterLines (h : Fills parameters parameters') (hwf : WellFormed parameters)
    {index : Nat} {parameter parameter' : Parameter} (hparam : parameters[index]? = some parameter)
    (hparam' : parameters'[index]? = some parameter') {lines lines' : List String}
    (hlines : parameterLines ⟨types, names, parameters⟩ parameter = some lines)
    (hlines' : parameterLines ⟨types, names, parameters'⟩ parameter' = some lines') :
    weights ',' lines ≤ weights ',' lines' ∧
      (types.isSimple parameter.type = false → weights ',' lines = weights ',' lines' →
        ∀ id ∈ parameter.forest.walk, ∀ node node', parameter.forest.node? id = some node →
          parameter'.forest.node? id = some node' → node'.status.isSome → node.status.isSome) := by
  obtain ⟨_, hget, hname, htype⟩ := getElem?_of_bare h.bare hparam
  rw [hparam', Option.some.injEq] at hget
  subst hget
  obtain ⟨name, htext, hcase⟩ := parameterLines_cases hlines
  obtain ⟨name', htext', hcase'⟩ := parameterLines_cases hlines'
  simp only [hname] at htext' hcase'
  simp only [htext, Option.some.injEq] at htext'
  subst htext'
  obtain ⟨hsimple, type, hwrite, rfl⟩ | ⟨hstructured, below, hbelow, rfl⟩ := hcase
  · obtain ⟨-, type', hwrite', rfl⟩ | ⟨hstructured, -⟩ := hcase'
    · simp only [htype, hwrite, Option.some.injEq] at hwrite'
      subst hwrite'
      have hword : ∀ status : Status, occurrences ',' status.word = 0 := by
        intro status
        cases status <;> decide
      refine ⟨?_, fun hstructured => by simp [hstructured] at hsimple⟩
      show weight ',' (name ++ " (" ++ type ++ ", " ++ parameter.status.word ++ ")") + 0 ≤
        weight ',' (name ++ " (" ++ type ++ ", " ++ parameter'.status.word ++ ")") + 0
      simp only [weight, occurrences_append, hword]
      exact Nat.le_refl _
    · simp [htype, hsimple] at hstructured
  · obtain ⟨hsimple, -⟩ | ⟨-, below', hbelow', rfl⟩ := hcase'
    · simp [htype, hstructured] at hsimple
    · obtain ⟨hle, hback⟩ := commas_linesBelow h hwf hparam hparam' hbelow hbelow'
      rw [weights_cons, weights_cons]
      exact ⟨Nat.add_le_add_left hle _, fun _ heq => hback (Nat.add_left_cancel heq)⟩

end InputDetail.Outline
