import InputDetail.Proofs.Analysis.LinkGraph
import InputDetail.Proofs.Analysis.Safety

/-!
# Checks that look ahead

Two sides of an alternation must end at different nodes, and the second end must have no children.
Both are said of the state in which both sides are recorded, but they are checked before anything is
recorded, by the two paths and the children that are there. The checks foresee that state exactly:
recording the sides adds the nodes on the way down the two paths and nothing else.
-/
namespace InputDetail.Analysis

open Parameter Forest

/-- What is wrong with an alternation whose sides have been recorded in `both` and end at these
places. -/
def recordedDefect? (both : List Parameter) (first second : Place) : Option AlternationDefect :=
  if first = second then some .identicalSides
  else if both[second.owner]?.any (·.forest.hasChildren second.node) then
    some .secondaryHasChildren
  else none

variable {types : Nat → List Name → Option TypeId} {parameters middle both : List Parameter}
  {primary secondary : MemberPlan} {node excluded : NodeId}

theorem hasChildren_iff {plan : MemberPlan} : hasChildren parameters plan = true ↔
    ∃ name, (found? parameters plan.owner (plan.path ++ [name])).isSome := by
  rw [← Bool.not_eq_false, hasChildren_eq_false_iff, not_forall]
  simp only [← ne_eq, Option.ne_none_iff_isSome]

/-- The children at the end of a planned path are the children of the node found there. -/
theorem hasChildren_of_found? (hfind : found? both secondary.owner secondary.path = some excluded) :
    hasChildren both secondary =
      both[secondary.owner]?.any (·.forest.hasChildren excluded) := by
  obtain ⟨parameter, hparam, hpath⟩ := Option.bind_eq_some_iff.1 hfind
  rw [hasChildren, hparam, Option.any_some, Option.any_some, hpath, Option.any_some]

/-- A path goes one name beyond another, or it is the same path. -/
theorem exists_concat_prefix_iff {short long : List Name} :
    (∃ name, short ++ [name] <+: long) ↔ short <+: long ∧ short ≠ long := by
  constructor
  · rintro ⟨name, rest, rfl⟩
    exact ⟨⟨name :: rest, by simp⟩, by simp⟩
  · rintro ⟨⟨_ | ⟨name, rest⟩, rfl⟩, hne⟩
    · exact absurd (List.append_nil short).symm hne
    · exact ⟨name, rest, by simp⟩

section

variable (hprimary : Recorded types primary parameters middle)
  (hsecondary : Recorded types secondary middle both)
include hprimary hsecondary

/-- Once both sides are recorded, the second end has children if it had some before, or if it is on
the way to the first end. -/
theorem hasChildren_recorded : hasChildren both secondary = true ↔
    hasChildren parameters secondary = true ∨
      secondary.owner = primary.owner ∧ secondary.path <+: primary.path ∧
        secondary.path ≠ primary.path := by
  have hstep : ∀ name, (found? both secondary.owner (secondary.path ++ [name])).isSome ↔
      (found? parameters secondary.owner (secondary.path ++ [name])).isSome ∨
        secondary.owner = primary.owner ∧ secondary.path ++ [name] <+: primary.path := by
    intro name
    have hself : ¬ secondary.Passes secondary.owner (secondary.path ++ [name]) :=
      fun hway => not_onWay_concat_self _ _ hway.2
    have hway : primary.Passes secondary.owner (secondary.path ++ [name]) ↔
        secondary.owner = primary.owner ∧ secondary.path ++ [name] <+: primary.path := by
      simp [MemberPlan.Passes, OnWay]
    rw [hsecondary.found?_isSome_iff, hprimary.found?_isSome_iff, or_iff_left hself, hway]
  rw [hasChildren_iff, hasChildren_iff, ← exists_concat_prefix_iff, ← exists_and_left, ← exists_or]
  exact exists_congr hstep

variable (hwf : WellFormed parameters)
  (hfirst : found? middle primary.owner primary.path = some node)
  (hsecond : found? both secondary.owner secondary.path = some excluded)
include hwf hfirst hsecond

/-- Both sides end at one node if they are one path of one parameter. -/
theorem sameEnds_iff : (⟨primary.owner, node⟩ : Place) = ⟨secondary.owner, excluded⟩ ↔
    primary.owner = secondary.owner ∧ primary.path = secondary.path := by
  have hfirst' : found? both primary.owner primary.path = some node :=
    hsecondary.found?_of_some hfirst
  have hboth : WellFormed both := hsecondary.wellFormed (hprimary.wellFormed hwf)
  rw [Place.mk.injEq]
  constructor
  · rintro ⟨howner, rfl⟩
    rw [howner] at hfirst'
    exact ⟨howner, hboth.found?_injective hfirst' hsecond⟩
  · rintro ⟨howner, hpath⟩
    rw [howner, hpath, hsecond, Option.some.injEq] at hfirst'
    exact ⟨howner, hfirst'.symm⟩

/-- The checks before anything is recorded find what is wrong after both sides are recorded. -/
theorem alternationDefect?_eq_recordedDefect? : alternationDefect? parameters primary secondary =
    recordedDefect? both ⟨primary.owner, node⟩ ⟨secondary.owner, excluded⟩ := by
  have hsame := sameEnds_iff hprimary hsecondary hwf hfirst hsecond
  have hchildren := hasChildren_recorded hprimary hsecondary
  rw [hasChildren_of_found? hsecond] at hchildren
  unfold alternationDefect? recordedDefect?
  simp only [hsame]
  by_cases hpaths : primary.owner = secondary.owner ∧ primary.path = secondary.path
  · rw [if_pos hpaths, if_pos hpaths]
  · rw [if_neg hpaths, if_neg hpaths]
    by_cases habove : primary.owner = secondary.owner ∧ secondary.path <+: primary.path
    · have hne : secondary.path ≠ primary.path := fun heq => hpaths ⟨habove.1, heq.symm⟩
      rw [if_pos habove, if_pos (hchildren.2 (Or.inr ⟨habove.1.symm, habove.2, hne⟩))]
    · rw [if_neg habove]
      refine if_congr (hchildren.trans (or_iff_left ?_)).symm rfl rfl
      exact fun hbelow => habove ⟨hbelow.1.symm, hbelow.2.1⟩

end

variable {model : Model} {store : ExprStore} {id : ExprId} {span : Span} {status : Status}
  {first second : ExprId}

/-- Both sides of an alternation can be recorded, one after the other. -/
theorem record_both (hwf : WellFormed parameters)
    (hprimary : planPath model store parameters status first = .ok (.members primary))
    (hsecondary : planPath model store parameters status second = .ok (.members secondary)) :
    ∃ node middle excluded both, record primary parameters = .ok node middle ∧
      record secondary middle = .ok excluded both ∧
      Recorded (plannedType model.types parameters) primary parameters middle ∧
      Recorded (plannedType model.types parameters) secondary middle both ∧
      found? middle primary.owner primary.path = some node ∧
      found? both secondary.owner secondary.path = some excluded := by
  have hfits := fits_plannedType model.types parameters
  obtain ⟨node, middle, hrecord, hmiddle, hnode⟩ :=
    record_spec hwf hfits (planPath_members hprimary).1
  have hlength : middle.length = parameters.length := by
    simpa using congrArg List.length hmiddle.map_blank
  obtain ⟨howner, halong⟩ := (planPath_members hsecondary).1
  obtain ⟨excluded, both, hrecord', hboth, hexcluded⟩ :=
    record_spec (hmiddle.wellFormed hwf) (hmiddle.fits hfits) ⟨hlength ▸ howner, halong⟩
  exact ⟨node, middle, excluded, both, hrecord, hrecord', hmiddle, hboth, hnode, hexcluded⟩

section

variable (hstatement : statementAt store id = .ok (.alternation span status first second))
  (hprimary : planPath model store parameters status first = .ok (.members primary))
  (hsecondary : planPath model store parameters status second = .ok (.members secondary))
include hstatement hprimary hsecondary

theorem analyzeStatement_of_defect {defect : AlternationDefect}
    (hdefect : alternationDefect? parameters primary secondary = some defect) :
    analyzeStatement model store id parameters =
      .error (.refused (.malformedAlternation span defect)) parameters := by
  simp only [analyzeStatement, planStatement, hstatement, planAlternation, hprimary, hsecondary, bind,
    Except.bind, hdefect, refuse]

theorem analyzeStatement_of_no_defect (hwf : WellFormed parameters)
    (hdefect : alternationDefect? parameters primary secondary = none) :
    ∃ after, analyzeStatement model store id parameters = .ok () after := by
  have hplan : ∃ change, planStatement model store parameters id = .ok change := by
    simp only [planStatement, hstatement, planAlternation, hprimary, hsecondary, bind, Except.bind,
      hdefect]
    cases linked? parameters primary secondary <;> exact ⟨_, rfl⟩
  obtain ⟨change, hplan⟩ := hplan
  obtain ⟨after, hok, -⟩ := analyzeStatement_spec hwf hplan
  exact ⟨after, hok⟩

/-- Whatever edits went before: if both sides of an alternation fit the model, then they can be
recorded one after the other. The alternation is refused for identical sides exactly if both end at
the same node then. Otherwise it is refused for the members of its second side exactly if the second
end has children then, and in all other cases it is recorded. -/
theorem alternation_checks (hbuilt : Built parameters) :
    ∃ node middle excluded both target, record primary parameters = .ok node middle ∧
      record secondary middle = .ok excluded both ∧ both[secondary.owner]? = some target ∧
      (analyzeStatement model store id parameters =
          .error (.refused (.malformedAlternation span .identicalSides)) parameters ↔
        primary.owner = secondary.owner ∧ node = excluded) ∧
      (¬ (primary.owner = secondary.owner ∧ node = excluded) →
        (analyzeStatement model store id parameters =
            .error (.refused (.malformedAlternation span .secondaryHasChildren)) parameters ↔
          target.forest.hasChildren excluded = true) ∧
        (target.forest.hasChildren excluded = false →
          ∃ after, analyzeStatement model store id parameters = .ok () after)) := by
  have hwf := hbuilt.wellFormed
  obtain ⟨node, middle, excluded, both, hrecord, hrecord', hmiddle, hboth, hnode, hexcluded⟩ :=
    record_both hwf hprimary hsecondary
  obtain ⟨target, htarget, -⟩ := Option.bind_eq_some_iff.1 hexcluded
  refine ⟨node, middle, excluded, both, target, hrecord, hrecord', htarget, ?_⟩
  have hforeseen := alternationDefect?_eq_recordedDefect? hmiddle hboth hwf hnode hexcluded
  simp only [recordedDefect?, Place.mk.injEq, htarget, Option.any_some] at hforeseen
  by_cases hsame : primary.owner = secondary.owner ∧ node = excluded
  · rw [if_pos hsame] at hforeseen
    have herror := analyzeStatement_of_defect hstatement hprimary hsecondary hforeseen
    exact ⟨iff_of_true herror hsame, fun hne => absurd hsame hne⟩
  · rw [if_neg hsame] at hforeseen
    cases hchildren : target.forest.hasChildren excluded with
    | true =>
      rw [if_pos hchildren] at hforeseen
      have herror := analyzeStatement_of_defect hstatement hprimary hsecondary hforeseen
      exact ⟨iff_of_false (by simp [herror]) hsame, fun _ => ⟨iff_of_true herror rfl, nofun⟩⟩
    | false =>
      rw [if_neg (by simp [hchildren])] at hforeseen
      obtain ⟨after, hok⟩ := analyzeStatement_of_no_defect hstatement hprimary hsecondary hwf hforeseen
      exact ⟨iff_of_false (by simp [hok]) hsame,
        fun _ => ⟨iff_of_false (by simp [hok]) (by simp), fun _ => ⟨after, hok⟩⟩⟩

end

/-- The alternation of the member `a` of `a` and of `a`, where an `a` was detached by hand: the first
side makes a member of the second. -/
theorem alternation_checks_sample :
    let parameters : List Parameter := [⟨⟨7⟩, ⟨5⟩, .input, .optional, Sample.detached⟩]
    let store : ExprStore :=
      ⟨#[⟨.call none ⟨7⟩ .empty, ⟨0, 0⟩⟩, ⟨.call (some ⟨0⟩) ⟨5⟩ .empty, ⟨0, 0⟩⟩,
        ⟨.call (some ⟨1⟩) ⟨5⟩ .empty, ⟨0, 0⟩⟩, ⟨.call none .mandatory ⟨0, 1⟩, ⟨0, 0⟩⟩,
        ⟨.call none .mandatory ⟨1, 1⟩, ⟨0, 0⟩⟩, ⟨.call none .or ⟨2, 2⟩, ⟨0, 0⟩⟩],
        #[⟨2⟩, ⟨1⟩, ⟨3⟩, ⟨4⟩]⟩
    let primary : MemberPlan := ⟨0, ⟨⟨5⟩, ⟨5⟩⟩, [⟨⟨5⟩, ⟨5⟩⟩], .mandatory⟩
    let secondary : MemberPlan := ⟨0, ⟨⟨5⟩, ⟨5⟩⟩, [], .mandatory⟩
    Built parameters ∧ statementAt store ⟨5⟩ = .ok (.alternation ⟨0, 0⟩ .mandatory ⟨2⟩ ⟨1⟩) ∧
      planPath Sample.model store parameters .mandatory ⟨2⟩ = .ok (.members primary) ∧
      planPath Sample.model store parameters .mandatory ⟨1⟩ = .ok (.members secondary) ∧
      halt? Sample.model ⟨store, [⟨5⟩]⟩ parameters =
        some (.refused (.malformedAlternation ⟨0, 0⟩ .secondaryHasChildren)) ∧
      ∃ node middle excluded both target, record primary parameters = .ok node middle ∧
        record secondary middle = .ok excluded both ∧ both[0]? = some target ∧ node ≠ excluded ∧
        target.forest.hasChildren excluded = true := by
  intro parameters store primary secondary
  have hbuilt : Built parameters := by
    intro parameter hmem
    obtain rfl := List.mem_singleton.1 hmem
    exact Sample.built_detached
  have hstatement : statementAt store ⟨5⟩ = .ok (.alternation ⟨0, 0⟩ .mandatory ⟨2⟩ ⟨1⟩) := by
    decide +kernel
  have hprimary : planPath Sample.model store parameters .mandatory ⟨2⟩ = .ok (.members primary) := by
    decide +kernel
  have hsecondary :
      planPath Sample.model store parameters .mandatory ⟨1⟩ = .ok (.members secondary) := by
    decide +kernel
  have hhalt : halt? Sample.model ⟨store, [⟨5⟩]⟩ parameters =
      some (.refused (.malformedAlternation ⟨0, 0⟩ .secondaryHasChildren)) := by
    decide +kernel
  obtain ⟨node, middle, excluded, both, target, hrecord, hrecord', htarget, hidentical, hother⟩ :=
    alternation_checks hstatement hprimary hsecondary hbuilt
  have herror := analyze_of_halt?_some hhalt
  rw [analyze_singleton] at herror
  have hdiffer : ¬ (primary.owner = secondary.owner ∧ node = excluded) := by
    intro hsame
    rw [hidentical.2 hsame] at herror
    cases herror
  obtain ⟨-, hpass⟩ := hother hdiffer
  refine ⟨hbuilt, hstatement, hprimary, hsecondary, hhalt, node, middle, excluded, both, target, hrecord,
    hrecord', htarget, fun heq => hdiffer ⟨rfl, heq⟩, ?_⟩
  by_contra hnone
  obtain ⟨after, hok⟩ := hpass (by simpa using hnone)
  rw [hok] at herror
  cases herror

end InputDetail.Analysis
