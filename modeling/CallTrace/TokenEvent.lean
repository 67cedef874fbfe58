/-! # Landscape events

What the control plane announces about landscape tokens. -/

namespace CallTrace

inductive TokenEvent where
  | created (token : String)
  /-- The landscape is gone, and its traces with it. -/
  | deleted (token : String)
  /-- The landscape `token` begins as a copy of `clonedToken`. -/
  | cloned (token clonedToken : String)
deriving DecidableEq, Repr

end CallTrace
