/-!
# Scope handles

A handle names one frame of one context for good.  Contexts have identities, and the frames of a
context have serial numbers; neither is ever given out twice.  The position of a frame on its stack
is given to another frame once the frame is gone.
-/

namespace Stencil

structure ScopeHandle where
  context : Nat
  /-- The position of the frame on the stack, counted from the root. -/
  index : Nat
  serial : Nat
  deriving DecidableEq, Repr

end Stencil
