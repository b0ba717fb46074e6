import PhraseTable.Number.Notation

/-!
# Durations

Points in time are counted in nanoseconds. A duration is cut to whole milliseconds, toward zero, and
given in seconds. A stopwatch is set to zero when a stage of a run begins, and the log tells at the
end of the stage what it shows.
-/

set_option autoImplicit false

namespace PhraseTable

/-- The whole milliseconds between two points in time. -/
def milliseconds (start stop : Int) : Int :=
  (stop - start).tdiv 1000000

/-- The seconds between two points in time. -/
def durationSeconds (start stop : Int) : Float :=
  Float.ofInt (milliseconds start stop) / 1000

/-- A stopwatch, told by the point in time at which it was set to zero. -/
structure Stopwatch where
  start : Int
deriving DecidableEq, Repr

namespace Stopwatch

/-- The seconds that a stopwatch shows at a point in time. -/
def seconds (stopwatch : Stopwatch) (now : Int) : Float :=
  durationSeconds stopwatch.start now

/-- The same as the log writes them. -/
def text (stopwatch : Stopwatch) (now : Int) : String :=
  Number.significant 6 (stopwatch.seconds now)

end Stopwatch

/-- The line that tells how long a stage took. -/
def tookLine (stage seconds : String) : String :=
  stage ++ " took " ++ seconds ++ " seconds"

end PhraseTable
