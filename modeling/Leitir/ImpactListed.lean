import Leitir.ImpactOwners
import Mathlib.Algebra.Order.BigOperators.Group.List
import Mathlib.Algebra.Order.Group.Nat

namespace Leitir.Check

open List KeyedList

open Usage (Text CodeReference UnresolvedState)

section

variable {removed : List ApiSymbol} {importRoot : Text} {trees : Text → Option SyntaxTree} {tree : SyntaxTree}
variable {reference : CodeReference} {access : Dotted}

variable {name : Text}

end

section

variable {before after : ApiIndex}

variable {removed : List ApiSymbol}

end

section

variable {removed : List ApiSymbol} {importRoot : Text} {trees : Text → Option SyntaxTree} {result : ResolverResult}
variable {reference : CodeReference}

end

section

variable {removed : List ApiSymbol} {importRoot : Text} {trees : Text → Option SyntaxTree} {result : ResolverResult}
variable {reference : CodeReference} {tree : SyntaxTree} {access : Dotted}

variable {symbol : ApiSymbol}

end

section

variable {before after : ApiIndex} {importRoot : Text} {trees : Text → Option SyntaxTree}
variable {resolveConsumer : Text → ResolverResult} {report : ImpactReport}

end

end Leitir.Check
