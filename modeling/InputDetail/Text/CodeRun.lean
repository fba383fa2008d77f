/-!
# Runs of code points

A property of characters is stored as a list of runs: equally spaced code points, both ends
included. Scripts that list each capital beside its small letter have step two.
-/
namespace InputDetail.Text

/-- The code points `first`, `first + step`, … up to `last`. -/
structure CodeRun where
  first : Nat
  last : Nat
  step : Nat

namespace CodeRun

def contains (run : CodeRun) (code : Nat) : Bool :=
  run.first ≤ code && code ≤ run.last && (code - run.first) % run.step == 0

theorem contains_iff {run : CodeRun} {code : Nat} : run.contains code = true ↔
    run.first ≤ code ∧ code ≤ run.last ∧ (code - run.first) % run.step = 0 := by
  simp [contains, and_assoc]

end CodeRun

/-- Whether one of the runs holds the code point of `c`. -/
def inRuns (runs : List CodeRun) (c : Char) : Bool :=
  runs.any (·.contains c.toNat)

theorem inRuns_iff {runs : List CodeRun} {c : Char} :
    inRuns runs c = true ↔ ∃ run ∈ runs, run.contains c.toNat = true := by
  simp [inRuns]

end InputDetail.Text
