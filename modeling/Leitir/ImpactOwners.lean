import Leitir.CheckVerdicts

namespace Leitir.Check

open List

open Usage (Text CodeReference UnresolvedState)

section

variable {importRoots : List Text}

variable {name : Text} {modules : Option (List Dotted)}

end

section

variable {importRoot : Text} {tree : SyntaxTree} {reference : CodeReference} {access : Dotted}

end

section

variable {removed : List ApiSymbol} {importRoot : Text} {tree : SyntaxTree} {reference : CodeReference} {access : Dotted}

/-- The names that an access depends on, in the order in which they are asked for: the imported name, the shorter names
that the access goes through, and the access itself. -/
def owners (imported : Option Dotted) (access : Dotted) : List Dotted := imported.toList ++ ancestors access ++ [access]

variable {owner : Dotted}

def Extends (importRoot : Text) (access name : Dotted) : Prop :=
  ∃ owner, owner <+: access ∧ 2 ≤ owner.length ∧ owner.head? = some importRoot ∧ owner <:+ name

end

end Leitir.Check
