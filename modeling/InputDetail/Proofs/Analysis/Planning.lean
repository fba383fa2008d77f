import InputDetail.Proofs.Analysis.Recording

/-!
# What a plan promises

Planning only reads. A plan names an existing parameter and members whose types are those that the
forest knows already, or follow from the type of the member above. So the types of all plans made
from the same parameters agree, and recording a plan never meets another type.
-/
namespace InputDetail

namespace Parameter

variable {parameters : List Parameter} {name : Name} {owner : Nat} {parameter : Parameter}

/-- Locating finds the position of a name and the parameter that stands there. -/
theorem locate?_eq_some : locate? parameters name = some (owner, parameter) ↔
    position? parameters name = some owner ∧ parameters[owner]? = some parameter := by
  constructor
  · intro h
    obtain ⟨position, hposition, hrest⟩ := Option.bind_eq_some_iff.1 h
    obtain ⟨found, hfound, heq⟩ := Option.bind_eq_some_iff.1 hrest
    cases heq
    exact ⟨hposition, hfound⟩
  · rintro ⟨hposition, hparam⟩
    simp [locate?, hposition, hparam]

/-- At the position of a name stands a parameter of that name. -/
theorem getElem?_of_position? (h : position? parameters name = some owner) :
    ∃ parameter, parameters[owner]? = some parameter ∧ parameter.name = name := by
  obtain ⟨hlt, hname, -⟩ := List.findIdx?_eq_some_iff_getElem.1 h
  exact ⟨parameters[owner], List.getElem?_eq_getElem hlt, by simpa using hname⟩

/-- The located parameter stands at its position and has the name. -/
theorem getElem?_of_locate? (h : locate? parameters name = some (owner, parameter)) :
    parameters[owner]? = some parameter ∧ parameter.name = name := by
  obtain ⟨hposition, hparam⟩ := locate?_eq_some.1 h
  obtain ⟨found, hfound, hname⟩ := getElem?_of_position? hposition
  rw [hparam] at hfound
  cases hfound
  exact ⟨hparam, hname⟩

/-- A parameter that is located by some name is the first of its own name. -/
theorem position?_of_locate? (h : locate? parameters name = some (owner, parameter)) :
    position? parameters parameter.name = some owner := by
  rw [(getElem?_of_locate? h).2]
  exact (locate?_eq_some.1 h).1

/-- The parameter of a name stands at the position of the name. -/
theorem byName?_eq (parameters : List Parameter) (name : Name) : byName? parameters name =
    (position? parameters name).bind (parameters[·]?) := List.find?_eq_bind_findIdx?_getElem?

theorem byName?_of_locate? (h : locate? parameters name = some (owner, parameter)) :
    byName? parameters name = some parameter := by
  obtain ⟨hposition, hparam⟩ := locate?_eq_some.1 h
  rw [byName?_eq, hposition, Option.bind_some, hparam]

/-- Positions are found by names alone. -/
theorem position?_congr {parameters' : List Parameter}
    (h : parameters'.map (·.name) = parameters.map (·.name)) (name : Name) :
    position? parameters' name = position? parameters name := by
  have hmap : ∀ list : List Parameter,
      position? list name = (list.map (·.name)).findIdx? (· == name) := by
    intro list
    rw [List.findIdx?_map]
    rfl
  rw [hmap, hmap, h]

/-- Parameters of the same names are located at the same positions. -/
theorem locate?_isSome_of_names {after : List Parameter}
    (h : after.map (·.name) = parameters.map (·.name))
    (hlocate : locate? parameters name = some (owner, parameter)) :
    ∃ parameter', locate? after name = some (owner, parameter') := by
  rw [locate?_eq_some, ← position?_congr h] at hlocate
  obtain ⟨parameter', hparam', -⟩ := getElem?_of_position? hlocate.1
  exact ⟨parameter', locate?_eq_some.2 ⟨hlocate.1, hparam'⟩⟩

end Parameter

namespace Forest

/-- The type with which planning leaves a path. It starts below a value of type `current`, at
`position` if the forest has the path so far. -/
def typeFrom (types : TypeTable) (forest : Forest) :
    Option (Option NodeId) → TypeId → List Name → Option TypeId
  | _, current, [] => some current
  | position, current, name :: rest =>
    let node := position.bind (forest.child? · name)
    match Analysis.memberType types forest node current name with
    | .error _ => none
    | .ok type => forest.typeFrom types (node.map some) type rest

/-- Types that the forest knows are taken over. -/
theorem fits_typeFrom (types : TypeTable) (forest : Forest) (current : TypeId) :
    forest.Fits (forest.typeFrom types (some none) current) := by
  suffices hfollow : ∀ (path : List Name) (position : Option NodeId) (current : TypeId) (id : NodeId)
      (node : Node) (known expected : TypeId), path ≠ [] → forest.follow position path = some id →
      forest.node? id = some node → node.type = some known →
      forest.typeFrom types (some position) current path = some expected → known = expected by
    intro path id node known expected hfind hnode hknown hexpected
    exact hfollow path none current id node known expected (ne_nil_of_find? hfind) hfind hnode hknown
      hexpected
  intro path
  induction path with
  | nil => intros; contradiction
  | cons name rest ih =>
    intro position current id node known expected _ hfollow hnode hknown hexpected
    rw [follow] at hfollow
    obtain ⟨child, hchild, hrest⟩ := Option.bind_eq_some_iff.1 hfollow
    simp only [typeFrom, Option.bind_some, hchild, Option.map_some] at hexpected
    by_cases hnil : rest = []
    · subst hnil
      obtain rfl : child = id := Option.some.inj hrest
      simpa [typeFrom, Analysis.memberType, hnode, hknown] using hexpected
    · split at hexpected
      · cases hexpected
      · exact ih _ _ _ _ _ _ hnil hrest hnode hknown hexpected

/-- Members along a path below `name` are members along the rest of the path. -/
theorem along_cons {type : List Name → Option TypeId} {name : Name} {path : List Name}
    {members : List Member} (h : Along (fun rest => type (name :: rest)) path members) :
    Along type (name :: path) members := by
  induction members generalizing path with
  | nil => trivial
  | cons member members ih => exact ⟨h.1, ih h.2⟩

end Forest

namespace Analysis

open Forest Parameter

variable {model : Model} {store : ExprStore} {parameters : List Parameter} {status : Status}
  {id : ExprId}

theorem resolveMembers_nil (types : TypeTable) (forest : Forest) (position : Option (Option NodeId))
    (current : TypeId) (name : Name) : resolveMembers types forest position current name [] =
      match memberType types forest (position.bind (forest.child? · name)) current name with
      | .error e => .error ([name], e)
      | .ok type => .ok (⟨name, type⟩, []) :=
  resolveMembers.eq_def types forest position current name []

theorem resolveMembers_cons (types : TypeTable) (forest : Forest) (position : Option (Option NodeId))
    (current : TypeId) (name next : Name) (rest : List Name) :
    resolveMembers types forest position current name (next :: rest) =
      match memberType types forest (position.bind (forest.child? · name)) current name with
      | .error e => .error ([name], e)
      | .ok type => match resolveMembers types forest
          ((position.bind (forest.child? · name)).map some) type next rest with
        | .error (path, e) => .error (name :: path, e)
        | .ok (member, members) => .ok (⟨name, type⟩, member :: members) :=
  resolveMembers.eq_def types forest position current name (next :: rest)

/-- Resolved members have the names of the path and the types that planning leaves it with. -/
theorem resolveMembers_along {types : TypeTable} {forest : Forest}
    {position : Option (Option NodeId)} {current : TypeId} {name : Name} {rest : List Name}
    {first : Member} {later : List Member}
    (h : resolveMembers types forest position current name rest = .ok (first, later)) :
    first.name = name ∧ later.map (·.name) = rest ∧
      Forest.Along (forest.typeFrom types position current) [] (first :: later) := by
  induction rest generalizing position current name first later with
  | nil =>
    rw [resolveMembers_nil] at h
    cases htype : memberType types forest (position.bind (forest.child? · name)) current name with
    | error e => simp [htype] at h
    | ok type =>
      simp only [htype, Except.ok.injEq, Prod.mk.injEq] at h
      obtain ⟨rfl, rfl⟩ := h
      exact ⟨rfl, rfl, by simp [typeFrom, htype], trivial⟩
  | cons next rest ih =>
    rw [resolveMembers_cons] at h
    cases htype : memberType types forest (position.bind (forest.child? · name)) current name with
    | error e => simp [htype] at h
    | ok type =>
      simp only [htype] at h
      split at h
      · cases h
      · next member members hmembers =>
        cases h
        obtain ⟨hname, hnames, halong⟩ := ih hmembers
        refine ⟨rfl, by rw [List.map_cons, hname, hnames], by simp [typeFrom, htype], ?_⟩
        apply Forest.along_cons
        simpa only [typeFrom, htype, List.nil_append] using halong

/-- The type with which planning leaves a path of the parameter at position `owner`. -/
def plannedType (types : TypeTable) (parameters : List Parameter) (owner : Nat) (path : List Name) :
    Option TypeId :=
  parameters[owner]?.bind fun parameter =>
    parameter.forest.typeFrom types (some none) parameter.type path

theorem plannedType_eq {types : TypeTable} {owner : Nat} {parameter : Parameter}
    (h : parameters[owner]? = some parameter) : plannedType types parameters owner =
      parameter.forest.typeFrom types (some none) parameter.type := by
  funext path
  rw [plannedType, h, Option.bind_some]

theorem fits_plannedType (types : TypeTable) (parameters : List Parameter) :
    Fits (plannedType types parameters) parameters := by
  intro owner parameter hparam
  rw [plannedType_eq hparam]
  exact fits_typeFrom types parameter.forest parameter.type

/-- A planned path is a simple parameter, or members that resolve and meet no other status under
the policy that rejects it. -/
theorem planPath_cases {plan : Plan} (h : planPath model store parameters status id = .ok plan) :
    ∃ path owner parameter, pathAt store id = .ok path ∧
      locate? parameters path.parameter = some (owner, parameter) ∧
      (path.members = [] ∧ model.types.isSimple parameter.type ∧ plan = .flag owner status ∨
        ∃ name rest first later, path.members = name :: rest ∧
          resolveMembers model.types parameter.forest (some none) parameter.type name rest =
            .ok (first, later) ∧
          ¬ (model.policy = .reject ∧ (statusAt parameter.forest path.members).any (· ≠ status)) ∧
          plan = .members ⟨owner, first, later, status⟩) := by
  unfold planPath at h
  cases hexpr : exprAt store id with
  | error halt => simp [hexpr, bind, Except.bind] at h
  | ok expr =>
  cases hpath : pathAt store id with
  | error halt => simp [hexpr, hpath, bind, Except.bind] at h
  | ok path =>
  simp only [hexpr, hpath, bind, Except.bind] at h
  split at h
  case h_2 => cases h
  case h_1 owner parameter hlocate =>
  refine ⟨path, owner, parameter, rfl, hlocate, ?_⟩
  split at h
  · next hmembers =>
    split at h
    · next hsimple =>
      cases h
      exact Or.inl ⟨hmembers, hsimple, rfl⟩
    · cases h
  · next name rest hmembers =>
    split at h
    · cases h
    · next first later hresolve =>
      split at h
      · cases h
      · next hconflict =>
        cases h
        exact Or.inr ⟨name, rest, first, later, hmembers, hresolve, hconflict, rfl⟩

/-- A planned member path belongs to an existing parameter and has the planned types. -/
theorem planPath_members {plan : MemberPlan}
    (h : planPath model store parameters status id = .ok (.members plan)) :
    plan.Along (plannedType model.types parameters) parameters ∧ plan.status = status ∧
      ∃ path parameter, pathAt store id = .ok path ∧ plan.path = path.members ∧
        locate? parameters path.parameter = some (plan.owner, parameter) := by
  obtain ⟨path, owner, parameter, hpath, hlocate, ⟨-, -, heq⟩ |
    ⟨name, rest, first, later, hmembers, hresolve, -, heq⟩⟩ := planPath_cases h
  · cases heq
  · cases heq
    obtain ⟨hparam, -⟩ := getElem?_of_locate? hlocate
    obtain ⟨hname, hnames, halong⟩ := resolveMembers_along hresolve
    refine ⟨⟨(List.getElem?_eq_some_iff.1 hparam).1, ?_⟩, rfl, path, parameter, hpath, ?_, hlocate⟩
    · rw [plannedType_eq hparam]
      exact halong
    · rw [MemberPlan.path, hmembers, hname, hnames]

/-- A planned path has children if a path leads one member further down. -/
theorem hasChildren_eq_false_iff {plan : MemberPlan} : hasChildren parameters plan = false ↔
    ∀ name, found? parameters plan.owner (plan.path ++ [name]) = none := by
  unfold hasChildren
  cases hparam : parameters[plan.owner]? with
  | none => simp [found?, hparam]
  | some parameter =>
    simp only [Option.any_some, found?_eq hparam, Forest.find?_concat,
      Forest.seek_of_ne_nil _ plan.path_ne_nil]
    cases parameter.forest.find? plan.path with
    | none => simp
    | some id => simp [Forest.hasChildren_eq_false_iff]

/-- The second side can be detached: it is not on the way to the first, and nothing is below it. -/
theorem alternationDefect?_eq_none {primary secondary : MemberPlan} :
    alternationDefect? parameters primary secondary = none ↔
      ¬ (primary.owner = secondary.owner ∧ secondary.path <+: primary.path) ∧
        hasChildren parameters secondary = false := by
  unfold alternationDefect?
  constructor
  · intro h
    split_ifs at h with hsame habove hbelow
    exact ⟨habove, by simpa using hbelow⟩
  · rintro ⟨habove, hbelow⟩
    rw [if_neg, if_neg habove, hbelow]
    · rfl
    · rintro ⟨howner, hpath⟩
      exact habove ⟨howner, hpath ▸ List.prefix_refl _⟩

/-- The first side is linked to a detached node at the path of the second side. -/
theorem linked?_eq_some {primary secondary : MemberPlan} {linked : NodeId} :
    linked? parameters primary secondary = some linked ↔ ∃ source target node held,
      parameters[secondary.owner]? = some target ∧
      found? parameters primary.owner primary.path = some source ∧
      nodeAt? parameters primary.owner source = some node ∧
      node.link = some ⟨target.name, linked⟩ ∧
      nodeAt? parameters secondary.owner linked = some held ∧ held.attached = false ∧
      pathAt? parameters secondary.owner linked = some secondary.path := by
  unfold linked?
  cases hsource : parameters[primary.owner]? with
  | none => simp [found?, hsource]
  | some first =>
  cases htarget : parameters[secondary.owner]? with
  | none => simp
  | some second =>
  simp only [found?_eq hsource, nodeAt?_eq hsource, nodeAt?_eq htarget, pathAt?_eq htarget,
    Option.bind_eq_bind, Option.bind_some, Option.bind_eq_some_iff, Option.ite_none_right_eq_some,
    Option.some.injEq]
  constructor
  · rintro ⟨node, ⟨source, hfind, hnode⟩, ⟨name, linked'⟩, hlink, held, hheld, ⟨hname, hatt, hpath⟩,
      heq⟩
    simp only at heq hname hheld hpath
    subst heq hname
    exact ⟨source, second, node, held, rfl, hfind, hnode, hlink, hheld, hatt, hpath⟩
  · rintro ⟨source, target, node, held, heq, hfind, hnode, hlink, hheld, hatt, hpath⟩
    subst heq
    exact ⟨node, ⟨source, hfind, hnode⟩, _, hlink, held, hheld, ⟨rfl, hatt, hpath⟩, rfl⟩

/-- An alternation that is in order links its sides, or finds them linked already. -/
theorem planAlternation_cases {span : Span} {first second : ExprId} {change : Change}
    (h : planAlternation model store parameters span status first second = .ok change) :
    ∃ primary secondary, planPath model store parameters status first = .ok (.members primary) ∧
      planPath model store parameters status second = .ok (.members secondary) ∧
      alternationDefect? parameters primary secondary = none ∧
      (linked? parameters primary secondary = none ∧ change = .link primary secondary ∨
        ∃ linked, linked? parameters primary secondary = some linked ∧
          change = .relink primary secondary linked) := by
  unfold planAlternation at h
  cases hfirst : planPath model store parameters status first with
  | error halt => simp [hfirst, bind, Except.bind] at h
  | ok primary =>
  cases hsecond : planPath model store parameters status second with
  | error halt => simp [hfirst, hsecond, bind, Except.bind] at h
  | ok secondary =>
  simp only [hfirst, hsecond, bind, Except.bind] at h
  split at h
  · next primary secondary =>
    split at h
    · cases h
    · next hdefect =>
      refine ⟨primary, secondary, rfl, rfl, hdefect, ?_⟩
      split at h
      · next linked hlinked =>
        cases h
        exact Or.inr ⟨linked, hlinked, rfl⟩
      · next hlinked =>
        cases h
        exact Or.inl ⟨hlinked, rfl⟩
  · cases h

/-- A statement that is in order is a declaration of one path or an alternation of two. -/
theorem planStatement_cases {change : Change}
    (h : planStatement model store parameters id = .ok change) :
    (∃ status path plan, statementAt store id = .ok (.declaration status path) ∧
      planPath model store parameters status path = .ok plan ∧
      change = match plan with
        | .flag owner status => .flag owner status
        | .members plan => .record plan) ∨
    ∃ span status first second, statementAt store id = .ok (.alternation span status first second) ∧
      planAlternation model store parameters span status first second = .ok change := by
  unfold planStatement at h
  cases hstatement : statementAt store id with
  | error halt => simp [hstatement, bind, Except.bind] at h
  | ok statement =>
  cases statement with
  | declaration status path =>
    left
    simp only [hstatement, bind, Except.bind] at h
    cases hplan : planPath model store parameters status path with
    | error halt => simp [hplan] at h
    | ok plan =>
      refine ⟨status, path, plan, rfl, hplan, ?_⟩
      cases plan <;> simpa [hplan, pure, Except.pure] using h.symm
  | alternation span status first second =>
    right
    simp only [hstatement, bind, Except.bind] at h
    exact ⟨span, status, first, second, rfl, h⟩

end Analysis

end InputDetail
