/-!
# Sets of code points by their boundaries

A set of code points is kept as the increasing list of the code points at which membership changes,
so a code point belongs to the set when an odd number of boundaries lies at or below it.
-/

namespace StateCursors.Unicode

/-- Membership in the set with the given boundaries. -/
def within (boundaries : List Nat) (code : Nat) : Bool :=
  (boundaries.takeWhile (· ≤ code)).length % 2 = 1

end StateCursors.Unicode
