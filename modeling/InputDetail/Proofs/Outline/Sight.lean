import InputDetail.Outline
import InputDetail.Proofs.Analysis.Recording
import InputDetail.Proofs.Name.Interning
import Mathlib.Data.List.Forall2

/-!
# What an outline shows

An outline shows of each member its type, its status and the member that it excludes, and nothing of
the numbers that nodes have. Parameters in which every path shows the same have the same outline,
however their nodes came up.
-/
namespace InputDetail

/-- What an outline shows of a node that is excluded: its path, its type and its status. A link that
leads nowhere has no target. -/
structure LinkSight where
  parameter : Name
  target : Option (Option (List Name) × Option TypeId × Option Status)

/-- What an outline shows of a node besides its name. -/
structure Sight where
  type : Option TypeId
  status : Option Status
  link : Option LinkSight

namespace Outline

open Parameter

variable {types : TypeTable} {names : NameTable} {parameters parameters' : List Parameter}

def linkSight (parameters : List Parameter) (link : Link) : LinkSight where
  parameter := link.parameter
  target := (byName? parameters link.parameter).bind fun parameter =>
    (parameter.forest.node? link.node).map fun node =>
      (parameter.forest.path? link.node, node.type, node.status)

def nodeSight (parameters : List Parameter) (node : Node) : Sight :=
  ⟨node.type, node.status, node.link.map (linkSight parameters)⟩

/-- What is shown at the end of a path of a forest. -/
def sight? (parameters : List Parameter) (forest : Forest) (path : List Name) : Option Sight :=
  ((forest.find? path).bind forest.node?).map (nodeSight parameters)

theorem annotation_congr {outline outline' : Outline} {node node' : Node}
    (htypes : outline'.types = outline.types) (hnames : outline'.names = outline.names)
    (htype : node'.type = node.type) (hstatus : node'.status = node.status) :
    outline'.annotation node' = outline.annotation node := by
  simp only [htypes, hnames, htype, hstatus, annotation]

/-- The node that a link leads to, with its forest. -/
def target? (parameters : List Parameter) (link : Link) : Option (Forest × Node) :=
  (byName? parameters link.parameter).bind fun parameter =>
    (parameter.forest.node? link.node).map (parameter.forest, ·)

theorem target_linkSight (parameters : List Parameter) (link : Link) :
    (linkSight parameters link).target = (target? parameters link).map fun (forest, node) =>
      (forest.path? link.node, node.type, node.status) := by
  simp only [linkSight, target?]
  cases byName? parameters link.parameter with
  | none => rfl
  | some parameter =>
    simp only [Option.bind_some, Option.map_map]
    rfl

theorem alternative_eq (outline : Outline) (owner : Name) (link : Link) :
    outline.alternative owner link =
      (if link.parameter = owner then some ""
        else (outline.names.text? link.parameter).map (· ++ ".")).bind fun parameter =>
      match target? outline.parameters link with
      | none => some s!" or {parameter}?"
      | some (forest, node) => (forest.path? link.node).bind fun path =>
        (outline.path path).bind fun path => ( outline.annotation node).bind fun annotation =>
          some (s!" or {parameter}{path}" ++ annotation) := by
  unfold alternative
  split_ifs <;> rfl

theorem line_eq_bind (outline : Outline) (owner : Name) (node : Node) :
    outline.line owner node = (outline.names.text? node.name).bind fun name =>
      (if node.isLeaf then outline.annotation node else some "").bind fun own =>
      (match node.link with
        | none => some ""
        | some link => outline.alternative owner link).bind fun other =>
      some (name ++ own ++ other) := by
  unfold line
  cases node.link <;> split_ifs <;> rfl

theorem alternative_congr {owner : Name} {link link' : Link}
    (h : linkSight parameters' link' = linkSight parameters link) :
    alternative ⟨types, names, parameters'⟩ owner link' =
      alternative ⟨types, names, parameters⟩ owner link := by
  have hparameter : link'.parameter = link.parameter := congrArg LinkSight.parameter h
  have htarget := congrArg LinkSight.target h
  rw [target_linkSight, target_linkSight] at htarget
  rw [alternative_eq, alternative_eq]
  cases hold : target? parameters link with
  | none =>
    rw [hold, Option.map_none, Option.map_eq_none_iff] at htarget
    simp only [htarget, hparameter]
  | some found =>
    obtain ⟨forest, node⟩ := found
    rw [hold, Option.map_some] at htarget
    obtain ⟨⟨forest', node'⟩, hnew, hsame⟩ := Option.map_eq_some_iff.1 htarget
    simp only [Prod.mk.injEq] at hsame
    obtain ⟨hpath, htype, hstatus⟩ := hsame
    have hannotation : annotation ⟨types, names, parameters'⟩ node' =
        annotation ⟨types, names, parameters⟩ node := annotation_congr rfl rfl htype hstatus
    simp only [hnew, hparameter, hpath, hannotation]
    rfl

/-- Nodes of one name that show the same have the same line. -/
theorem line_congr {owner : Name} {node node' : Node} (hname : node'.name = node.name)
    (h : nodeSight parameters' node' = nodeSight parameters node) :
    line ⟨types, names, parameters'⟩ owner node' = line ⟨types, names, parameters⟩ owner node := by
  simp only [nodeSight, Sight.mk.injEq] at h
  obtain ⟨htype, hstatus, hlink⟩ := h
  have hannotation : annotation ⟨types, names, parameters'⟩ node' =
      annotation ⟨types, names, parameters⟩ node := annotation_congr rfl rfl htype hstatus
  have hleaf : node'.isLeaf = node.isLeaf := by rw [Node.isLeaf, Node.isLeaf, hstatus]
  unfold line
  simp only [hname, hannotation, hleaf]
  cases hold : node.link with
  | none =>
    rw [hold, Option.map_none, Option.map_eq_none_iff] at hlink
    simp only [hlink]
  | some link =>
    rw [hold, Option.map_some] at hlink
    obtain ⟨link', hlink', hsame⟩ := Option.map_eq_some_iff.1 hlink
    simp only [hlink', alternative_congr hsame]

end Outline

end InputDetail
