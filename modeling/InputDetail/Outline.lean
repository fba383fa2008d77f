import InputDetail.Parameter
import InputDetail.Types.Text

/-!
# Outlines

The outline of a parameter is a text with one line per documented member, indented by depth:

    cluster
        version
            major (integer, mandatory)
    host
        address (string, mandatory) or id (string, mandatory)
    fence_type (fence_type, optional)

Siblings stand in the order of their texts, so that the outline does not depend on the order in
which names and members came up. It fails if a name is unknown.
-/
namespace InputDetail

/-- What an outline is written from. -/
structure Outline where
  types : TypeTable
  names : NameTable
  /-- The parameters that links can lead to. -/
  parameters : List Parameter

namespace Outline

def indent (depth : Nat) : String := String.ofList (List.replicate (4 * depth) ' ')

/-- Type and status of a node, in parentheses. -/
def annotation (outline : Outline) (node : Node) : Option String := do
  let type ← match node.type with
    | none => some "?"
    | some type => outline.types.write? outline.names type
  let status := match node.status with
    | none => ""
    | some status => ", " ++ status.word
  return s!" ({type}{status})"

/-- A member path with points between its names. -/
def path (outline : Outline) (names : List Name) : Option String := do
  return String.intercalate "." (← names.mapM outline.names.text?)

/-- The excluded member, named by its path; the parameter is named too unless it is `owner`. A link
that leads nowhere is a question mark. -/
def alternative (outline : Outline) (owner : Name) (link : Link) : Option String := do
  let parameter ← if link.parameter = owner then some ""
    else (outline.names.text? link.parameter).map (· ++ ".")
  let target := (Parameter.byName? outline.parameters link.parameter).bind fun parameter =>
    (parameter.forest.node? link.node).map (parameter.forest, ·)
  match target with
  | none => return s!" or {parameter}?"
  | some (forest, node) =>
    let path ← outline.path (← forest.path? link.node)
    return s!" or {parameter}{path}" ++ (← outline.annotation node)

/-- The line of a node of the parameter `owner`, without its indentation. -/
def line (outline : Outline) (owner : Name) (node : Node) : Option String := do
  let name ← outline.names.text? node.name
  let own ← if node.isLeaf then outline.annotation node else some ""
  let other ← match node.link with
    | none => some ""
    | some link => outline.alternative owner link
  return name ++ own ++ other

/-- The children of `parent` in the order of their texts. -/
def siblings (outline : Outline) (forest : Forest) (parent : Option NodeId) :
    Option (List NodeId) := do
  let labelled ← (forest.entries parent).mapM fun (name, id) =>
    (outline.names.text? name).map (·, id)
  return (labelled.mergeSort (·.1 ≤ ·.1)).map (·.2)

/-- The lines of at most `fuel` levels below `parent`, which is at depth `depth - 1`. -/
def linesBelow (outline : Outline) (owner : Name) (forest : Forest) :
    Nat → Nat → Option NodeId → Option (List String)
  | 0, _, _ => some []
  | fuel + 1, depth, parent => do
    let ids ← outline.siblings forest parent
    let blocks ← ids.mapM fun id => do
      let node ← forest.node? id
      let line ← outline.line owner node
      return (indent depth ++ line) :: (← outline.linesBelow owner forest fuel (depth + 1) (some id))
    return blocks.flatten

/-- The lines of one parameter: a simple one takes a single line. -/
def parameterLines (outline : Outline) (parameter : Parameter) : Option (List String) := do
  let name ← outline.names.text? parameter.name
  if outline.types.isSimple parameter.type then
    let type ← outline.types.write? outline.names parameter.type
    return [s!"{name} ({type}, {parameter.status.word})"]
  let below ← outline.linesBelow parameter.name parameter.forest parameter.forest.size 1 none
  return name :: below

/-- Ends every line by a line feed. -/
def text (lines : List String) : String := String.join (lines.map (· ++ "\n"))

/-- The outline of all parameters, one after the other. -/
def render (types : TypeTable) (names : NameTable) (parameters : List Parameter) :
    Option String := do
  let blocks ← parameters.mapM (Outline.parameterLines ⟨types, names, parameters⟩)
  return text blocks.flatten

/-- The outline of one parameter. Links into other parameters lead nowhere here. -/
def renderOne (types : TypeTable) (names : NameTable) (parameter : Parameter) : Option String :=
  render types names [parameter]

end Outline

end InputDetail
