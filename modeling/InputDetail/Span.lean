/-!
# Spans

A span is a range of byte offsets in a documentation block. It is written `3..9`; the end is the
first offset that is not part of it. Offsets have no bound, so that a block may have any length.
-/
namespace InputDetail

structure Span where
  start : Nat
  stop : Nat
deriving DecidableEq

namespace Span

/-- The span of an expression that stands in no source text. -/
def nowhere : Span := ⟨0, 0⟩

/-- The empty span at one offset. -/
def point (offset : Nat) : Span := ⟨offset, offset⟩

instance : ToString Span := ⟨fun span => s!"{span.start}..{span.stop}"⟩

/-- The first span reaches over all of the second. -/
def Covers (outer inner : Span) : Prop :=
  outer.start ≤ inner.start ∧ inner.stop ≤ outer.stop

theorem Covers.refl (span : Span) : span.Covers span := ⟨Nat.le_refl _, Nat.le_refl _⟩

theorem Covers.trans {a b c : Span} (hab : a.Covers b) (hbc : b.Covers c) : a.Covers c :=
  ⟨Nat.le_trans hab.1 hbc.1, Nat.le_trans hbc.2 hab.2⟩

end Span

end InputDetail
