import InputDetail.Name

/-!
# Whether something must be supplied
-/
namespace InputDetail

inductive Status where
  | mandatory
  | optional
deriving DecidableEq

namespace Status

def word : Status → String
  | mandatory => "mandatory"
  | optional => "optional"

/-- The status that a marker keyword declares. -/
def ofMarker? (name : Name) : Option Status :=
  if name = .mandatory then some .mandatory
  else if name = .optional then some .optional
  else none

theorem ofMarker?_isSome (name : Name) : (ofMarker? name).isSome = name.isMarker := by
  unfold ofMarker? Name.isMarker
  split
  · simp_all
  · split <;> simp_all

end Status

end InputDetail
