import InputDetail.Analysis.Plan
import InputDetail.Method

/-!
# Analysis of documentation

The statements of a documentation block are recorded one after the other in the forests of the
parameters. The first statement that is refused ends the analysis; what the statements before it
recorded stays. Another analysis of the same parameters adds to what is there.
-/
namespace InputDetail.Analysis

/-- A change of the parameters that may come to a halt half way. -/
abbrev Recorder := EStateM Halt (List Parameter)

/-- Edits the forest of the parameter at position `owner`. -/
def onForest {α : Type} (owner : Nat) (edit : Forest.Edit α) : Recorder α := fun parameters =>
  match parameters[owner]? with
  | none => .error .brokenReference parameters
  | some parameter => match edit parameter.forest with
    | .ok a forest => .ok a (parameters.set owner { parameter with forest })
    | .error e forest =>
      .error (.refused (.internal e)) (parameters.set owner { parameter with forest })

/-- Sets the status of a whole parameter. -/
def setFlag (owner : Nat) (status : Status) : Recorder Unit :=
  modify (·.modify owner ({ · with status }))

/-- Goes down to one member and records its type. -/
def visit (owner : Nat) (parent : Option NodeId) (member : Member) : Recorder NodeId := do
  let (id, _) ← onForest owner (Forest.insert parent member.name)
  onForest owner (Forest.setType id member.type)
  return id

/-- Records a member path and the status of its end, which is the result. -/
def record (plan : MemberPlan) : Recorder NodeId := do
  let root ← visit plan.owner none plan.first
  let leaf ← plan.later.foldlM (fun parent member => visit plan.owner (some parent) member) root
  let _ ← onForest plan.owner (Forest.setStatus leaf plan.status)
  return leaf

/-- Lets one node exclude another, which is detached. -/
def exclude (owner : Nat) (node : NodeId) (excludedOwner : Nat) (excluded : NodeId) :
    Recorder Unit := do
  let some target := (← get)[excludedOwner]? | throw .brokenReference
  onForest excludedOwner (Forest.detach excluded)
  onForest owner (Forest.setLink node ⟨target.name, excluded⟩)

def carryOut : Change → Recorder Unit
  | .flag owner status => setFlag owner status
  | .record plan => discard (record plan)
  | .link primary secondary => do
    let node ← record primary
    let excluded ← record secondary
    exclude primary.owner node secondary.owner excluded
  | .relink primary secondary linked => do
    let _ ← record primary
    discard (onForest secondary.owner (Forest.setStatus linked secondary.status))

/-- Records one statement. -/
def analyzeStatement (model : Model) (store : ExprStore) (id : ExprId) : Recorder Unit :=
  fun parameters => match planStatement model store parameters id with
  | .error halt => .error halt parameters
  | .ok change => carryOut change parameters

/-- Records statements in their order. -/
def analyze (model : Model) (document : Document) : Recorder Unit :=
  document.roots.forM (analyzeStatement model document.store)

/-- Records what a parser made of a documentation block, or passes its failure on. -/
def analyzeParsed (model : Model) : Except ParseFailure Document → Recorder Unit
  | .error failure => throw (.refused (.parse failure))
  | .ok document => analyze model document

/-- Parses and records a documentation block. -/
def analyzeText (model : Model) (source : String) (names : NameTable)
    (parameters : List Parameter) : EStateM.Result Halt (List Parameter) Unit × NameTable :=
  let (document, names) := Document.parse source names
  (analyzeParsed model document parameters, names)

/-- The failure of an analysis as the failure of a method's documentation. -/
def Halt.forMethod (method : Name) : Halt → Option MethodError
  | .refused cause => some ⟨method, cause⟩
  | _ => none

end InputDetail.Analysis
