import Formulary.Library.Conversion
import Formulary.Library.Index
import Formulary.Library.Relation
import Formulary.Library.Strings
import Formulary.Library.Times
import Formulary.Library.Transcendental

/-!
# The built-in library

All operators, functions and constants that expressions can use without further registrations.

## Main definitions

* `Library.builtins` — the registrations of the whole library
* `Registry.standard` — the registry of the whole library
-/

namespace Formulary

open Calendar Library

/-- The registrations of the whole library, where `now` is the reading of the clock that `time()`
gives. -/
def Library.builtins (now : DateTime) : Registry.Builder :=
  arithmetic .empty |> relations |> negation |> transcendentals |> strings |> indexing
    |> conversions |> times now

/-- The registry of the whole library, for an expression that is bound at the moment `now`. -/
def Registry.standard (now : DateTime) : Registry := (builtins now).build

end Formulary
