import Formulary.Calendar.Letters
import Formulary.Calendar.Template
import Formulary.Registry

/-!
# Times

`time` makes a time from a number of milliseconds, from a text in the form that times are written
in, or from a text and a format. Without arguments it is the present moment. The registrations are
given the moment as a reading of the clock, and are made anew for every expression that is bound.

## Main definitions

* `Library.readTime` — a text read with a format
* `Library.times` — the registrations
-/

namespace Formulary.Library

open Overload Carrier Calendar

/-- The sequence that arguments of `time` are widened along. -/
def timeWidening : List Tag := [.long, .integer]

/-- The time a number of milliseconds after the start of 1970. -/
def timeOfMillis (millis : Int64) : Except Fault DateTime :=
  match DateTime.ofMillis? millis.toInt with
  | some t => .ok t
  | none => .error (.timeOutOfRange millis.toInt)

/-- A text read with a format. -/
def readTime (text format : String) : Except Fault DateTime :=
  match DateTime.read? format text with
  | some t => .ok t
  | none => .error (.unreadableTime text format)

/-- The registrations of `time`, where `now` is the reading of the clock. -/
def times (now : DateTime) (r : Registry.Builder) : Registry.Builder :=
  (r.registerFamily timeWidening ["time"]).registerOverloads "time"
    [nullary time now, tryUnary long time timeOfMillis,
      tryUnary string time fun text => readTime text DateTime.defaultFormat,
      tryBinary string string time fun text format => readTime text (Letters.toFormat format)]

end Formulary.Library
