import InputDetail.Proofs.Analysis.Documented

/-!
# Conflicting declarations

Under the policy that rejects conflicts a statement is in order if it is under the other policy, and
no path that it names has another status already. A status is that of the last statement that
declared the path, as long as the path stays documented. So a block is accepted exactly if it is
accepted under the other policy, and no path is declared with two statuses while it stays documented
in between. What an alternation has excluded in between may be declared again with any status.
-/
namespace InputDetail.Analysis

open Parameter

/-- The status that a statement declares. -/
def declared? (store : ExprStore) (id : ExprId) : Option Status :=
  match statementAt store id with
  | .ok (.declaration status _) => some status
  | .ok (.alternation _ status _ _) => some status
  | .error _ => none

/-- The statement names the path and declares that status. -/
def Declares (store : ExprStore) (id : ExprId) (path : Path) (status : Status) : Prop :=
  path ∈ named store id ∧ declared? store id = some status

/-- No path that the statement names has another status. -/
def Agrees (store : ExprStore) (parameters : List Parameter) (id : ExprId) : Prop :=
  ∀ ⦃path status⦄, Declares store id path status →
    ∀ known ∈ path.status? parameters, known = status

variable {types : TypeTable} {store : ExprStore} {parameters after : List Parameter} {id : ExprId}
  {status : Status} {path : Path}

/-- Paths are planned alike under both policies, if they have no other status. -/
theorem planPath_reject_eq
    (h : ∀ path, pathAt store id = .ok path → ∀ known ∈ path.status? parameters, known = status) :
    planPath ⟨types, .reject⟩ store parameters status id =
      planPath ⟨types, .lastWins⟩ store parameters status id := by
  unfold planPath
  cases hexpr : exprAt store id with
  | error halt => rfl
  | ok expr =>
  cases hpath : pathAt store id with
  | error halt => rfl
  | ok path =>
  simp only [bind, Except.bind]
  cases hlocate : locate? parameters path.parameter with
  | none => rfl
  | some located =>
  obtain ⟨owner, parameter⟩ := located
  have hsame : ¬ (statusAt parameter.forest path.members).any (· ≠ status) = true := by
    have hstatus := h path hpath
    rw [Path.status?, hlocate, Option.bind_some] at hstatus
    cases hknown : statusAt parameter.forest path.members with
    | none => simp
    | some known => simp [hstatus known hknown]
  simp only [hsame, and_false, reduceCtorEq]

theorem agrees_of_planPath {plan : Plan}
    (h : planPath ⟨types, .reject⟩ store parameters status id = .ok plan)
    (hpath : pathAt store id = .ok path) : ∀ known ∈ path.status? parameters, known = status := by
  intro known hknown
  obtain ⟨path', owner, parameter, hpath', hlocate, ⟨hnil, -⟩ | ⟨_, _, _, _, -, -, hagree, -⟩⟩ :=
    planPath_cases h
  · rw [hpath] at hpath'
    cases hpath'
    exact absurd hnil (Path.members_ne_nil_of_status? hknown)
  · rw [hpath] at hpath'
    cases hpath'
    rw [Path.status?, hlocate, Option.bind_some, Option.mem_def] at hknown
    simpa [hknown] using hagree

theorem declares_iff_of_declaration {declared : Status} {documented : ExprId}
    (hstatement : statementAt store id = .ok (.declaration declared documented)) :
    Declares store id path status ↔ declared = status ∧ pathAt store documented = .ok path := by
  cases hread : pathAt store documented <;>
    simp [Declares, declared?, named, hstatement, hread, Except.toOption, and_comm, eq_comm]

theorem declares_iff_of_alternation {span : Span} {declared : Status} {first second : ExprId}
    (hstatement : statementAt store id = .ok (.alternation span declared first second)) :
    Declares store id path status ↔
      declared = status ∧ (pathAt store first = .ok path ∨ pathAt store second = .ok path) := by
  cases hread : pathAt store first <;> cases hread' : pathAt store second <;>
    simp [Declares, declared?, named, hstatement, hread, hread', Except.toOption, and_comm, eq_comm]

theorem planStatement_reject_eq (h : Agrees store parameters id) :
    planStatement ⟨types, .reject⟩ store parameters id =
      planStatement ⟨types, .lastWins⟩ store parameters id := by
  unfold planStatement planAlternation
  cases hstatement : statementAt store id with
  | error halt => rfl
  | ok statement =>
  cases statement with
  | declaration status documented =>
    simp only [bind, Except.bind]
    rw [planPath_reject_eq fun path hpath =>
      h ((declares_iff_of_declaration hstatement).2 ⟨rfl, hpath⟩)]
  | alternation span status first second =>
    simp only [bind, Except.bind]
    rw [planPath_reject_eq fun path hpath =>
        h ((declares_iff_of_alternation hstatement).2 ⟨rfl, Or.inl hpath⟩),
      planPath_reject_eq fun path hpath =>
        h ((declares_iff_of_alternation hstatement).2 ⟨rfl, Or.inr hpath⟩)]

theorem agrees_of_planStatement {change : Change}
    (h : planStatement ⟨types, .reject⟩ store parameters id = .ok change) :
    Agrees store parameters id := by
  intro path status hdeclares
  obtain ⟨_, documented, plan, hstatement, hplan, -⟩ | ⟨_, _, first, second, hstatement, hboth⟩ :=
    planStatement_cases h
  · obtain ⟨rfl, hpath⟩ := (declares_iff_of_declaration hstatement).1 hdeclares
    exact agrees_of_planPath hplan hpath
  · obtain ⟨primary, secondary, hprimary, hsecondary, -⟩ := planAlternation_cases hboth
    obtain ⟨rfl, hpath | hpath⟩ := (declares_iff_of_alternation hstatement).1 hdeclares
    · exact agrees_of_planPath hprimary hpath
    · exact agrees_of_planPath hsecondary hpath

/-- A statement is recorded under the policy that rejects conflicts exactly if it is recorded under
the other one, and none of its paths has another status. -/
theorem analyzeStatement_reject_iff :
    analyzeStatement ⟨types, .reject⟩ store id parameters = .ok () after ↔
      analyzeStatement ⟨types, .lastWins⟩ store id parameters = .ok () after ∧
        Agrees store parameters id := by
  constructor
  · intro hok
    obtain ⟨change, hplan⟩ := plan_of_analyzeStatement hok
    have hagrees := agrees_of_planStatement hplan
    rw [analyzeStatement, planStatement_reject_eq hagrees] at hok
    exact ⟨hok, hagrees⟩
  · rintro ⟨hok, hagrees⟩
    rw [analyzeStatement, planStatement_reject_eq hagrees]
    exact hok

theorem declares_of_primary {model : Model} {change : Change}
    (hplan : planStatement model store parameters id = .ok change) {plan : MemberPlan}
    (hprimary : plan ∈ change.primary?) (hlocates : path.Locates parameters plan) :
    Declares store id path plan.status := by
  obtain ⟨_, documented, plan', hstatement, hpath, rfl⟩ | ⟨_, _, first, second, hstatement, hboth⟩ :=
    planStatement_cases hplan
  · cases plan' with
    | flag owner status => cases hprimary
    | members plan' =>
      cases hprimary
      obtain ⟨-, hstatus, -⟩ := planPath_members hpath
      obtain ⟨path', hread, hlocates'⟩ := locates_of_planPath hpath
      obtain rfl := hlocates.unique hlocates' rfl rfl
      exact (declares_iff_of_declaration hstatement).2 ⟨hstatus.symm, hread⟩
  · obtain ⟨primary, secondary, hpath, -, -, hcase⟩ := planAlternation_cases hboth
    obtain rfl : primary = plan := by
      obtain ⟨-, rfl⟩ | ⟨linked, -, rfl⟩ := hcase
      · exact Option.some.inj hprimary
      · exact Option.some.inj hprimary
    obtain ⟨-, hstatus, -⟩ := planPath_members hpath
    obtain ⟨path', hread, hlocates'⟩ := locates_of_planPath hpath
    obtain rfl := hlocates.unique hlocates' rfl rfl
    exact (declares_iff_of_alternation hstatement).2 ⟨hstatus.symm, Or.inl hread⟩

/-- The status of a path after a statement is the one that the statement declares, or the one that
the path had. -/
theorem declares_or_status? {model : Model} (hwf : WellFormed parameters)
    (hok : analyzeStatement model store id parameters = .ok () after)
    (hstatus : path.status? after = some status) :
    Declares store id path status ∨ path.status? parameters = some status := by
  obtain ⟨change, hplan, h⟩ := outcome_of_analyzeStatement hwf hok
  obtain ⟨plan, hprimary, hlocates, rfl⟩ | hold := Path.status?_cases h hstatus
  · exact Or.inl (declares_of_primary hplan hprimary hlocates)
  · exact Or.inr hold

section

variable {root : ExprId} {roots : List ExprId} {final : List Parameter}

theorem analyze_reject_iff_agrees :
    analyze ⟨types, .reject⟩ ⟨store, roots⟩ parameters = .ok () final ↔
      analyze ⟨types, .lastWins⟩ ⟨store, roots⟩ parameters = .ok () final ∧
        ∀ j later, roots[j]? = some later →
          Agrees store (stateAfter ⟨types, .lastWins⟩ ⟨store, roots.take j⟩ parameters) later := by
  induction roots generalizing parameters with
  | nil => exact ⟨fun hok => ⟨hok, by simp⟩, And.left⟩
  | cons first rest ih =>
    rw [analyze_cons_eq_ok, analyze_cons_eq_ok]
    constructor
    · rintro ⟨after, hfirst, hrest⟩
      obtain ⟨hfirst, hagrees⟩ := analyzeStatement_reject_iff.1 hfirst
      obtain ⟨hrest, hall⟩ := ih.1 hrest
      refine ⟨⟨after, hfirst, hrest⟩, ?_⟩
      rintro (_ | j) later hlater
      · simp only [List.getElem?_cons_zero, Option.some.injEq] at hlater
        exact hlater ▸ hagrees
      · rw [List.take_succ_cons, stateAfter_cons hfirst]
        exact hall j later (by simpa using hlater)
    · rintro ⟨⟨after, hfirst, hrest⟩, hall⟩
      refine ⟨after, analyzeStatement_reject_iff.2 ⟨hfirst, hall 0 first rfl⟩, ih.2 ⟨hrest, ?_⟩⟩
      intro j later hlater
      have hagrees := hall (j + 1) later (by simpa using hlater)
      rwa [List.take_succ_cons, stateAfter_cons hfirst] at hagrees

variable {base : List Parameter} {model : Model} {i k : Nat}
  (hempty : ∀ parameter ∈ base, parameter.forest = .empty)
  (hok : analyze model ⟨store, roots⟩ base = .ok () final)
include hempty hok

/-- A status was declared by some statement, and the path has been documented since. -/
theorem exists_declares (hk : k ≤ roots.length)
    (hstatus : path.status? (stateAfter model ⟨store, roots.take k⟩ base) = some status) :
    ∃ i root, i < k ∧ roots[i]? = some root ∧ Declares store root path status ∧
      ∀ m, i < m → m ≤ k → path.Documented (stateAfter model ⟨store, roots.take m⟩ base) := by
  induction k with
  | zero =>
    have hnone : path.status? base = none := Path.status?_of_empty hempty
    exact absurd (hnone.symm.trans hstatus) (by simp)
  | succ k ih =>
    have hroot : roots[k]? = some roots[k] := List.getElem?_eq_getElem hk
    have hreach : Reachable (stateAfter model ⟨store, roots.take k⟩ base) :=
      (Reachable.start hempty).analysis _ _
    have hdocumented : path.Documented (stateAfter model ⟨store, roots.take (k + 1)⟩ base) :=
      Path.documented_iff_exists.2 ⟨status, hstatus⟩
    obtain hdeclares | hold := declares_or_status? hreach.built.wellFormed
      (analyzeStatement_of_analyze hok hroot) hstatus
    · refine ⟨k, _, Nat.lt_succ_self k, hroot, hdeclares, fun m hm hm' => ?_⟩
      obtain rfl : m = k + 1 := by omega
      exact hdocumented
    · obtain ⟨i, root, hi, hroot, hdeclares, hsince⟩ := ih (by omega) hold
      refine ⟨i, root, by omega, hroot, hdeclares, fun m hm hm' => ?_⟩
      obtain rfl | hm' := Nat.le_succ_iff.1 hm' |>.symm
      · exact hdocumented
      · exact hsince m hm hm'

/-- If all statements agree with what is recorded, then a declared status stays as long as the path is
documented. -/
theorem status?_of_declares
    (hagrees : ∀ j later, roots[j]? = some later →
      Agrees store (stateAfter model ⟨store, roots.take j⟩ base) later)
    (hroot : roots[i]? = some root) (hdeclares : Declares store root path status) (hi : i < k)
    (hk : k ≤ roots.length)
    (hsince : ∀ m, i < m → m ≤ k →
      path.Documented (stateAfter model ⟨store, roots.take m⟩ base)) :
    path.status? (stateAfter model ⟨store, roots.take k⟩ base) = some status := by
  induction k with
  | zero => omega
  | succ k ih =>
    have hlater : roots[k]? = some roots[k] := List.getElem?_eq_getElem hk
    have hreach : Reachable (stateAfter model ⟨store, roots.take k⟩ base) :=
      (Reachable.start hempty).analysis _ _
    obtain ⟨known, hknown⟩ :=
      Path.documented_iff_exists.1 (hsince (k + 1) hi (Nat.le_refl _))
    have hcases := declares_or_status? hreach.built.wellFormed (analyzeStatement_of_analyze hok hlater)
      hknown
    rw [hknown]
    obtain rfl | hi := Nat.lt_succ_iff_lt_or_eq.1 hi |>.symm
    · rw [hlater, Option.some.injEq] at hroot
      subst hroot
      obtain hdeclares' | hold := hcases
      · rw [← hdeclares.2, hdeclares'.2]
      · rw [hagrees i _ hlater hdeclares known hold]
    · have hbefore := ih hi (by omega) fun m hm hm' => hsince m hm (by omega)
      obtain hdeclares' | hold := hcases
      · rw [hagrees k _ hlater hdeclares' status hbefore]
      · rw [← hold, hbefore]

end

/-- A block is accepted under the policy that rejects conflicts exactly if it is accepted under the
other policy, and no path is declared with two statuses while it is documented all the time in
between. -/
theorem analyze_reject_iff {base final : List Parameter} {document : Document}
    (hempty : ∀ parameter ∈ base, parameter.forest = .empty) :
    analyze ⟨types, .reject⟩ document base = .ok () final ↔
      analyze ⟨types, .lastWins⟩ document base = .ok () final ∧
        ∀ i j earlier later path status status', i < j →
          document.roots[i]? = some earlier → document.roots[j]? = some later →
          Declares document.store earlier path status → Declares document.store later path status' →
          (∀ k, i < k → k ≤ j → path.Documented
            (stateAfter ⟨types, .lastWins⟩ ⟨document.store, document.roots.take k⟩ base)) →
          status = status' := by
  obtain ⟨store, roots⟩ := document
  rw [analyze_reject_iff_agrees]
  refine and_congr_right fun hok => ?_
  constructor
  · intro hagrees i j earlier later path status status' hij hearlier hlater hdeclares hdeclares' hsince
    have hlt : j < roots.length := (List.getElem?_eq_some_iff.1 hlater).1
    exact hagrees j later hlater hdeclares' status
      (status?_of_declares hempty hok hagrees hearlier hdeclares hij (by omega) hsince)
  · intro hsame j later hlater path status hdeclares known hknown
    have hlt : j < roots.length := (List.getElem?_eq_some_iff.1 hlater).1
    obtain ⟨i, earlier, hij, hearlier, hdeclares', hsince⟩ :=
      exists_declares hempty hok (by omega) hknown
    exact hsame i j earlier later path known status hij hearlier hlater hdeclares' hdeclares hsince

/-- A member that an alternation has excluded may be declared again with the other status. A member that
is documented may not. -/
theorem analyze_reject_iff_sample :
    let path : Path := ⟨⟨7⟩, [⟨6⟩]⟩
    let strict : Model := ⟨Sample.types, .reject⟩
    let final := stateAfter strict ⟨Sample.store, [⟨5⟩, ⟨2⟩]⟩ Sample.parameters
    (∀ parameter ∈ Sample.parameters, parameter.forest = .empty) ∧
      Declares Sample.store ⟨5⟩ path .mandatory ∧ Declares Sample.store ⟨4⟩ path .mandatory ∧
      Declares Sample.store ⟨2⟩ path .optional ∧
      analyze strict ⟨Sample.store, [⟨5⟩, ⟨2⟩]⟩ Sample.parameters = .ok () final ∧
      ∀ other, analyze strict ⟨Sample.store, [⟨4⟩, ⟨2⟩]⟩ Sample.parameters ≠ .ok () other := by
  intro path strict final
  have hmandatory : Declares Sample.store ⟨4⟩ path .mandatory :=
    ⟨by decide +kernel, by decide +kernel⟩
  have hoptional : Declares Sample.store ⟨2⟩ path .optional :=
    ⟨by decide +kernel, by decide +kernel⟩
  refine ⟨Sample.nothing_recorded, ⟨by decide +kernel, by decide +kernel⟩, hmandatory, hoptional, ?_,
    fun other hok => ?_⟩
  · have hhalt : halt? Sample.model ⟨Sample.store, [⟨5⟩, ⟨2⟩]⟩ Sample.parameters = none := by
      decide +kernel
    have hsame : final = stateAfter Sample.model ⟨Sample.store, [⟨5⟩, ⟨2⟩]⟩ Sample.parameters := by
      decide +kernel
    refine (analyze_reject_iff Sample.nothing_recorded).2
      ⟨hsame ▸ analyze_of_halt?_none hhalt, ?_⟩
    rintro i j earlier later other status status' hij - hlater - hdeclares' hsince
    obtain rfl : j = 1 := by
      have hlt := (List.getElem?_eq_some_iff.1 hlater).1
      simp only [List.length_cons, List.length_nil] at hlt
      omega
    obtain rfl : i = 0 := by omega
    cases hlater
    obtain rfl : path = other := by
      have hnamed : named Sample.store ⟨2⟩ = [path] := by decide +kernel
      rw [Declares, hnamed, List.mem_singleton] at hdeclares'
      exact hdeclares'.1.symm
    have hnot := hsince 1 (by omega) (by omega)
    rw [Path.documented_iff_status?] at hnot
    exact absurd hnot (by decide +kernel)
  · obtain ⟨-, hsame⟩ := (analyze_reject_iff Sample.nothing_recorded).1 hok
    have hstatus := hsame 0 1 ⟨4⟩ ⟨2⟩ path .mandatory .optional (by omega) rfl rfl hmandatory hoptional
      fun k hk hk' => ?_
    · cases hstatus
    · obtain rfl : k = 1 := by omega
      rw [Path.documented_iff_status?]
      decide +kernel

end InputDetail.Analysis
