import Formulary.Calendar.DateTime
import Std.Time.DateTime.Timestamp

/-!
# The clock

## Main definitions

* `Clock.now` — the present moment
-/

namespace Formulary.Clock

open Calendar

/-- The present moment, in universal time. -/
def now : IO DateTime := do
  let nanos := (← Std.Time.Timestamp.now).toNanosecondsSinceUnixEpoch.toInt
  let seconds := nanos / DateTime.nanosPerSecond
  return ⟨seconds / 86400, (seconds % 86400).toNat, (nanos % DateTime.nanosPerSecond).toNat⟩

end Formulary.Clock
