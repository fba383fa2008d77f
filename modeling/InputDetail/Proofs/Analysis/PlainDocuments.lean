import InputDetail.Proofs.Analysis.Declarations
import InputDetail.Proofs.Forest.Walk
import Mathlib.Data.List.Dedup
import Mathlib.Data.List.Infix

/-!
# The meaning of plain documents

A document without alternations says statuses of paths, one after the other. The forests that it leaves
follow from the list of what it says: the nodes are the prefixes of the paths, each once, and the last
word on a path is its status.
-/
namespace InputDetail.Analysis

open Parameter Forest

/-- What declarations say of the parameter at position `owner`: members and their status, in order. -/
def said (parameters : List Parameter) (declared : List Declaration) (owner : Nat) :
    List (List Name × Status) :=
  declared.filterMap fun declaration =>
    if position? parameters declaration.path.parameter = some owner then
      some (declaration.path.members, declaration.status)
    else none

/-- The last status that is said of exactly this path. -/
def lastSaid (entries : List (List Name × Status)) (path : List Name) : Option Status :=
  ((entries.filter (·.1 = path)).getLast?).map (·.2)

/-- The distinct paths that are not empty and lead down to a path of which something is said. -/
def prefixes (entries : List (List Name × Status)) : List (List Name) :=
  ((entries.flatMap (·.1.inits)).filter (· ≠ [])).dedup

variable {entries : List (List Name × Status)} {path : List Name} {model : Model} {store : ExprStore}
  {types : TypeTable} {base parameters after : List Parameter} {declared : List Declaration}
  {declaration : Declaration} {owner : Nat}

theorem mem_prefixes : path ∈ prefixes entries ↔ ∃ entry ∈ entries, OnWay entry.1 path := by
  simp only [prefixes, List.mem_dedup, List.mem_filter, List.mem_flatMap, List.mem_inits,
    decide_eq_true_eq, OnWay]
  constructor
  · rintro ⟨⟨entry, hentry, hpre⟩, hne⟩
    exact ⟨entry, hentry, hne, hpre⟩
  · rintro ⟨entry, hentry, hne, hpre⟩
    exact ⟨⟨entry, hentry, hpre⟩, hne⟩

theorem lastSaid_concat (entries : List (List Name × Status)) (entry : List Name × Status)
    (path : List Name) : lastSaid (entries ++ [entry]) path =
      if entry.1 = path then some entry.2 else lastSaid entries path := by
  rw [lastSaid, List.filter_append]
  split_ifs with hsame
  · simp [hsame]
  · simp [hsame, lastSaid]

/-- Nothing is said of a path that no entry names. -/
theorem lastSaid_eq_none (h : ∀ entry ∈ entries, entry.1 ≠ path) : lastSaid entries path = none := by
  have hnone : entries.filter (·.1 = path) = [] :=
    List.filter_eq_nil_iff.2 fun entry hentry => by simpa using h entry hentry
  rw [lastSaid, hnone]
  rfl

theorem said_concat (parameters : List Parameter) (declared : List Declaration)
    (declaration : Declaration) (owner : Nat) : said parameters (declared ++ [declaration]) owner =
      said parameters declared owner ++
        if position? parameters declaration.path.parameter = some owner then
          [(declaration.path.members, declaration.status)]
        else [] := by
  rw [said, List.filterMap_append]
  split_ifs with hhere <;> simp [hhere, said]

/-- The declaration is the last word on the path if it is about it. -/
theorem lastSaid_said_concat (parameters : List Parameter) (declared : List Declaration)
    (declaration : Declaration) (owner : Nat) (path : List Name) :
    lastSaid (said parameters (declared ++ [declaration]) owner) path =
      if position? parameters declaration.path.parameter = some owner ∧
          declaration.path.members = path then some declaration.status
      else lastSaid (said parameters declared owner) path := by
  rw [said_concat]
  by_cases hhere : position? parameters declaration.path.parameter = some owner
  · rw [if_pos hhere, lastSaid_concat]
    simp only [hhere, true_and]
  · rw [if_neg hhere, List.append_nil, if_neg fun h => hhere h.1]

/-- The parameters reflect what the declarations say, and nothing else. -/
structure Reflects (types : TypeTable) (base : List Parameter) (declared : List Declaration)
    (parameters : List Parameter) : Prop where
  wellFormed : WellFormed parameters
  typed : Typed types base parameters
  isSome_iff : ∀ {owner path}, (found? parameters owner path).isSome ↔
    ∃ entry ∈ said base declared owner, OnWay entry.1 path
  node : ∀ {owner id node}, nodeAt? parameters owner id = some node → node.link = none ∧
    ∃ path, found? parameters owner path = some id ∧
      node.status = lastSaid (said base declared owner) path
  flag : ∀ owner, parameters[owner]?.map (·.status) =
    base[owner]?.map fun parameter => (lastSaid (said base declared owner) []).getD parameter.status

theorem reflects_nothing (hempty : ∀ parameter ∈ base, parameter.forest = .empty) (types : TypeTable) :
    Reflects types base [] base where
  wellFormed _ parameter hparam := by
    rw [hempty parameter (List.mem_of_getElem? hparam)]
    exact Forest.wellFormed_empty
  typed := typed_of_empty hempty types
  isSome_iff := by simp [found?_of_empty hempty, said]
  node hnode := by simp [nodeAt?_of_empty hempty] at hnode
  flag _ := rfl

namespace Reflects

variable (h : Reflects types base declared parameters) {change : Change} {id : NodeId} {node : Node}
include h

/-- A new node is at a path of which nothing was said. -/
theorem lastSaid_eq_none (hne : path ≠ []) (hnone : found? parameters owner path = none) :
    lastSaid (said base declared owner) path = none := by
  refine Analysis.lastSaid_eq_none fun entry hentry hsame => ?_
  have hsome := h.isSome_iff.2 ⟨entry, hentry, hne, hsame ▸ List.prefix_refl _⟩
  rw [hnone] at hsome
  cases hsome

section

variable (houtcome : Outcome (staticType types base) change parameters after)
  (hposition : position? base declaration.path.parameter = some owner)
  (hchange : declaration.path.members = [] ∧ change = .flag owner declaration.status ∨
    ∃ plan, change = .record plan ∧ plan.owner = owner ∧ plan.path = declaration.path.members ∧
      plan.status = declaration.status)
include houtcome hposition hchange

/-- The prefixes of one more path are added. -/
theorem isSome_step {other : Nat} : (found? after other path).isSome ↔
    ∃ entry ∈ said base (declared ++ [declaration]) other, OnWay entry.1 path := by
  rw [houtcome.isSome_iff, h.isSome_iff, said_concat]
  obtain ⟨hmembers, rfl⟩ | ⟨plan, rfl, rfl, hpath, -⟩ := hchange
  · have hnoWay : ¬ OnWay [] path := fun hway => hway.1 (List.prefix_nil.1 hway.2)
    split_ifs <;> simp [Change.recorded, Change.excluded?, hmembers, hnoWay]
  · by_cases hother : other = plan.owner
    · subst hother
      simp [Change.recorded, Change.excluded?, hposition, MemberPlan.Passes, hpath, or_and_right,
        exists_or]
    · have hfar : position? base declaration.path.parameter ≠ some other := by
        rw [hposition]
        exact fun hsame => hother (Option.some.inj hsame).symm
      simp [Change.recorded, Change.excluded?, hfar, MemberPlan.Passes, hother]

/-- The node at the end of a path has the last status that is said of it, and no link. -/
theorem found_step {other : Nat} (hfind : found? after other path = some id)
    (hnode : nodeAt? after other id = some node) : node.link = none ∧
      node.status = lastSaid (said base (declared ++ [declaration]) other) path := by
  obtain ⟨old, node', horigin, hnode', hmarks⟩ := houtcome.found hfind
  rw [hnode] at hnode'
  cases hnode'
  have hne : path ≠ [] := by
    obtain ⟨parameter, -, hid⟩ := Option.bind_eq_some_iff.1 hfind
    exact Forest.ne_nil_of_find? hid
  have hold : old.link = none ∧ old.status = lastSaid (said base declared other) path := by
    obtain ⟨hfound, hat⟩ | ⟨hnone, -, name, parent, rfl⟩ := horigin
    · obtain ⟨hlink, way, hway, hstatus⟩ := h.node hat
      rw [h.wellFormed.found?_injective hfound hway]
      exact ⟨hlink, hstatus⟩
    · exact ⟨rfl, (h.lastSaid_eq_none hne hnone).symm⟩
  have hlink : node.link = old.link := by
    refine hmarks.link_off fun primary secondary heq => ?_
    obtain ⟨-, rfl⟩ | ⟨_, rfl, -⟩ := hchange <;> cases heq
  refine ⟨hlink.trans hold.1, ?_⟩
  rw [lastSaid_said_concat, hposition]
  obtain ⟨hmembers, rfl⟩ | ⟨plan, rfl, rfl, hpath, hstatus⟩ := hchange
  · rw [if_neg fun hsame => hne (hsame.2.symm.trans hmembers), ← hold.2]
    exact hmarks.status_off (by simp [Change.primary?])
  · by_cases hend : plan.EndsAt other path
    · rw [if_pos ⟨congrArg some hend.1.symm, hpath.symm.trans hend.2.symm⟩, ← hstatus]
      exact hmarks.status_on plan rfl hend
    · rw [if_neg fun hsame => hend ⟨(Option.some.inj hsame.1).symm, hsame.2.symm.trans hpath.symm⟩,
        ← hold.2]
      refine hmarks.status_off fun _ hplan => ?_
      cases hplan
      exact hend

/-- The status of a whole parameter is the last one that is said of it. -/
theorem flag_step (other : Nat) : after[other]?.map (·.status) = base[other]?.map fun parameter =>
    (lastSaid (said base (declared ++ [declaration]) other) []).getD parameter.status := by
  rw [lastSaid_said_concat, hposition]
  obtain ⟨status, hflag, hafter⟩ | ⟨hflag, hafter⟩ := flag_of_effect houtcome.toEffect other
  · obtain ⟨hmembers, rfl⟩ | ⟨_, rfl, -⟩ := hchange
    · cases hflag
      have hbefore := congrArg (Option.map fun _ => declaration.status) (h.flag owner)
      simp only [Option.map_map] at hbefore
      simp only [hafter, hmembers, and_self, if_true, Option.getD_some]
      exact hbefore
    · cases hflag
  · rw [hafter, h.flag, if_neg]
    rintro ⟨hsame, hmembers⟩
    obtain ⟨-, rfl⟩ | ⟨plan, rfl, -, hpath, -⟩ := hchange
    · exact hflag declaration.status (congrArg (Change.flag · _) (Option.some.inj hsame))
    · exact plan.path_ne_nil (hpath.trans hmembers)

end

/-- Recording one more declaration. -/
theorem step {model : Model} (hmodel : model.types = types) {root : ExprId}
    (hplain : ¬ Alternates store root) (hshape : Shape store root declaration)
    (hok : analyzeStatement model store root parameters = .ok () after) :
    Reflects types base (declared ++ [declaration]) after := by
  subst hmodel
  obtain ⟨change, hplan⟩ := plan_of_analyzeStatement hok
  have hsound := h.typed.sound hplan
  have houtcome := outcome_of_plan h.wellFormed h.typed.fits hplan hsound hok
  obtain ⟨owner, parameter, hlocate, hchange⟩ := change_of_shape hplain hshape hplan
  have hposition : position? base declaration.path.parameter = some owner := by
    rw [← position?_congr (names_of_bare h.typed.bare)]
    exact (locate?_eq_some.1 hlocate).1
  constructor
  case wellFormed => exact houtcome.wellFormed
  case typed => exact h.typed.of_effect hsound houtcome.toEffect
  case isSome_iff => exact h.isSome_step houtcome hposition hchange
  case node =>
    intro other id node hnode
    cases houtcome.fate hnode with
    | found path hfind =>
      obtain ⟨hlink, hstatus⟩ := h.found_step houtcome hposition hchange hfind hnode
      exact ⟨hlink, path, hfind, hstatus⟩
    | excluded _ _ _ hlink =>
      obtain ⟨-, rfl⟩ | ⟨_, rfl, -⟩ := hchange <;> cases hlink
    | unreached _ _ hbefore hout =>
      obtain ⟨-, path, hfind, -⟩ := h.node hbefore
      exact absurd hfind (hout path)
  case flag => exact h.flag_step houtcome hposition hchange

end Reflects

/-- Declarations are recorded one after the other, if all paths resolve. -/
theorem reflects_of_analyze (h : Reflects model.types base declared parameters) {roots : List ExprId}
    (hplain : ∀ root ∈ roots, ¬ Alternates store root) {rest : List Declaration}
    (hshapes : List.Forall₂ (Shape store) roots rest)
    (hok : analyze model ⟨store, roots⟩ parameters = .ok () after) :
    Reflects model.types base (declared ++ rest) after := by
  induction hshapes generalizing declared parameters with
  | nil =>
    cases hok
    rw [List.append_nil]
    exact h
  | @cons root declaration roots rest hshape _ ih =>
    obtain ⟨middle, hroot, hrest⟩ := analyze_cons_eq_ok.1 hok
    have hmiddle := h.step rfl (hplain root List.mem_cons_self) hshape hroot
    rw [← List.singleton_append, ← List.append_assoc]
    exact ih hmiddle (fun other hother => hplain other (List.mem_cons_of_mem root hother)) hrest

/-- A document without alternations is accepted exactly if each statement has a shape and its path
resolves. -/
theorem halt?_eq_none_iff (hempty : ∀ parameter ∈ base, parameter.forest = .empty)
    (hpolicy : model.policy = .lastWins) (h : Reflects model.types base declared parameters)
    {roots : List ExprId} (hplain : ∀ root ∈ roots, ¬ Alternates store root) :
    halt? model ⟨store, roots⟩ parameters = none ↔ ∀ root ∈ roots, ∃ declaration,
      Shape store root declaration ∧ Resolves model.types base declaration.path := by
  induction roots generalizing declared parameters with
  | nil => exact ⟨fun _ => by simp, fun _ => rfl⟩
  | cons root roots ih =>
    have hroot := hplain root List.mem_cons_self
    have hrest := fun other hother => hplain other (List.mem_cons_of_mem root hother)
    rw [List.forall_mem_cons, ← exists_plan_iff hempty hpolicy hroot,
      ← planStatement_of_plain h.typed hempty hpolicy hroot, halt?, analyze_cons]
    cases hplan : planStatement model store parameters root with
    | error halt => simp [analyzeStatement, hplan]
    | ok change =>
      obtain ⟨after, hok, -⟩ := analyzeStatement_spec h.wellFormed hplan
      obtain ⟨declaration, hshape, -⟩ := (exists_plan_iff hempty hpolicy hroot).1
        ⟨change, by rw [← planStatement_of_plain h.typed hempty hpolicy hroot, hplan]⟩
      have hafter := h.step rfl hroot hshape hok
      rw [hok]
      simpa [halt?] using ih hafter hrest

/-- What is said of a parameter, told from the parameter itself. -/
structure Tells (entries : List (List Name × Status)) (before after : Parameter) : Prop where
  /-- Exactly the prefixes of the paths lead to nodes. -/
  isSome_iff : ∀ path, (after.forest.find? path).isSome ↔ path ∈ prefixes entries
  /-- Every node is attached, at the end of one path, with the last status that is said of it. -/
  node : ∀ {id node}, after.forest.node? id = some node → node.attached = true ∧ node.link = none ∧
    ∃ path, (∀ other, after.forest.find? other = some id ↔ other = path) ∧
      node.status = lastSaid entries path
  size : after.forest.size = (prefixes entries).length
  status : after.status = (lastSaid entries []).getD before.status
  mandatory : ∀ id, id ∈ after.mandatoryMembers ↔ ∃ path, after.forest.find? path = some id ∧
    lastSaid entries path = some .mandatory
  nodup : after.mandatoryMembers.Nodup

theorem Reflects.tells (h : Reflects types base declared parameters) {before after : Parameter}
    (hbefore : base[owner]? = some before) (hafter : parameters[owner]? = some after) :
    Tells (said base declared owner) before after := by
  have hwf := h.wellFormed hafter
  have hsome : ∀ path, (after.forest.find? path).isSome ↔ path ∈ prefixes (said base declared owner) := by
    intro path
    rw [mem_prefixes, ← h.isSome_iff, found?_eq hafter]
  have hnode : ∀ {id node}, after.forest.node? id = some node → node.attached = true ∧
      node.link = none ∧ ∃ path, (∀ other, after.forest.find? other = some id ↔ other = path) ∧
        node.status = lastSaid (said base declared owner) path := by
    intro id node hid
    obtain ⟨hlink, path, hfind, hstatus⟩ := h.node (by rw [nodeAt?_eq hafter, hid])
    rw [found?_eq hafter] at hfind
    obtain ⟨_, hsame, hatt⟩ := Forest.node?_of_find? hfind
    rw [hid] at hsame
    cases hsame
    exact ⟨hatt, hlink, path,
      fun other => ⟨fun hother => hwf.find?_injective hother hfind, fun hother => hother ▸ hfind⟩,
      hstatus⟩
  constructor
  case isSome_iff => exact hsome
  case node => exact hnode
  case size =>
    refine hwf.size_eq_length (List.nodup_dedup _) (fun path => (hsome path).symm) fun id hid => ?_
    obtain ⟨node, hid⟩ := Option.isSome_iff_exists.1 (Forest.node?_isSome.2 (Forest.mem_ids.1 hid))
    obtain ⟨-, -, path, hpaths, -⟩ := hnode hid
    exact ⟨path, (hpaths path).2 rfl⟩
  case status =>
    have hflag := h.flag owner
    rw [hbefore, hafter] at hflag
    exact Option.some.inj hflag
  case mandatory =>
    intro id
    rw [mandatoryMembers, Forest.select, List.mem_filter, hwf.mem_walk]
    constructor
    · rintro ⟨⟨path, hfind⟩, hmandatory⟩
      obtain ⟨node, hid, -⟩ := Forest.node?_of_find? hfind
      obtain ⟨-, -, path', hpaths, hstatus⟩ := hnode hid
      obtain rfl := (hpaths path).1 hfind
      exact ⟨path, hfind, by simpa [hid, Node.isMandatory, hstatus] using hmandatory⟩
    · rintro ⟨path, hfind, hlast⟩
      obtain ⟨node, hid, -⟩ := Forest.node?_of_find? hfind
      obtain ⟨-, -, path', hpaths, hstatus⟩ := hnode hid
      obtain rfl := (hpaths path).1 hfind
      exact ⟨⟨path, hfind⟩, by simp [hid, Node.isMandatory, hstatus, hlast]⟩
  case nodup => exact hwf.nodup_walk.filter _

/-- A document without alternations, analyzed where nothing is recorded and the last word counts, is
accepted exactly if each statement is a chain or a marker around one, and its path resolves. The forests
then hold the prefixes of all declared paths, each once, attached and without links, and the statuses are
the last that were declared. -/
theorem analyze_plain (hempty : ∀ parameter ∈ base, parameter.forest = .empty)
    (hpolicy : model.policy = .lastWins) {document : Document}
    (hplain : ∀ root ∈ document.roots, ¬ Alternates document.store root) :
    (halt? model document base = none ↔ ∀ root ∈ document.roots, ∃ declaration,
      Shape document.store root declaration ∧ Resolves model.types base declaration.path) ∧
    (halt? model document base = none → ∀ declared,
      List.Forall₂ (Shape document.store) document.roots declared → ∀ owner before,
        base[owner]? = some before → ∃ after, (stateAfter model document base)[owner]? = some after ∧
          Tells (said base declared owner) before after) := by
  have hnothing := reflects_nothing hempty model.types
  refine ⟨halt?_eq_none_iff hempty hpolicy hnothing hplain, fun hhalt declared hshapes owner before
    hbefore => ?_⟩
  have hreflects := reflects_of_analyze hnothing hplain hshapes (analyze_of_halt?_none hhalt)
  obtain ⟨after, hafter, -⟩ := getElem?_of_bare hreflects.typed.bare hbefore
  exact ⟨after, hafter, hreflects.tells hbefore hafter⟩

/-- The member `a` is declared mandatory, then optional by its path alone, and the member `a` of `a`
mandatory: there are two nodes, and only the second is mandatory. -/
theorem analyze_plain_sample :
    let document : Document := ⟨Sample.store, [⟨3⟩, ⟨1⟩, ⟨7⟩]⟩
    let entries := [([⟨5⟩], Status.mandatory), ([⟨5⟩], .optional), ([⟨5⟩, ⟨5⟩], .mandatory)]
    Sample.model.policy = .lastWins ∧
      (∀ root ∈ document.roots, ¬ Alternates document.store root) ∧
      halt? Sample.model document Sample.parameters = none ∧
      ∃ before after, Sample.parameters[0]? = some before ∧
        (stateAfter Sample.model document Sample.parameters)[0]? = some after ∧
        Tells entries before after ∧ prefixes entries = [[⟨5⟩], [⟨5⟩, ⟨5⟩]] ∧
        lastSaid entries [⟨5⟩] = some .optional := by
  intro document entries
  have hplain : ∀ root ∈ document.roots, ¬ Alternates document.store root := by
    rintro root hroot ⟨receiver, args, span, hget⟩
    simp only [document, List.mem_cons, List.not_mem_nil, or_false] at hroot
    obtain rfl | rfl | rfl := hroot <;> cases hget
  have hpath : ∀ {id path}, pathAt Sample.store id = .ok path → Chain Sample.store id path :=
    pathAt_eq_ok_iff.1
  have hshapes : List.Forall₂ (Shape document.store) document.roots
      [⟨.mandatory, ⟨⟨7⟩, [⟨5⟩]⟩⟩, ⟨.optional, ⟨⟨7⟩, [⟨5⟩]⟩⟩, ⟨.mandatory, ⟨⟨7⟩, [⟨5⟩, ⟨5⟩]⟩⟩] := by
    refine .cons (.marked rfl rfl rfl (hpath (by decide +kernel))) (.cons ?_ (.cons ?_ .nil))
    · refine .bare rfl ?_ (hpath (by decide +kernel))
      rintro _ _ _ ⟨⟩
      rfl
    · exact .marked rfl rfl rfl (hpath (by decide +kernel))
  have hhalt : halt? Sample.model document Sample.parameters = none := by decide +kernel
  have hpolicy : Sample.model.policy = .lastWins := rfl
  obtain ⟨-, hmeaning⟩ := analyze_plain Sample.nothing_recorded hpolicy hplain
  obtain ⟨after, hafter, htells⟩ := hmeaning hhalt _ hshapes 0 _ rfl
  exact ⟨hpolicy, hplain, hhalt, _, after, rfl, hafter, htells, by decide, by decide⟩

end InputDetail.Analysis
