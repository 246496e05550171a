import Switchyard.Text.Digits
import Switchyard.Time.Calendar

/-!
# Points in time

An instant is a number of seconds from the start of 1970 and a fraction in nanoseconds. A fraction
of a whole second or more stands for the leap second that follows the given second, so instants
compare by their two fields. Written forms are RFC 3339 in UTC and the compact form of file names.
-/

namespace Switchyard.Time

/-- A point in time. -/
structure Instant where
  seconds : Int
  nanos : Nat
  deriving Repr, DecidableEq, Inhabited

namespace Instant

/-- The later of two fields counts only when the first is equal. -/
def le (a b : Instant) : Bool :=
  a.seconds < b.seconds || (a.seconds == b.seconds && a.nanos ≤ b.nanos)

/-- The instant one nanosecond later. -/
def succ (t : Instant) : Instant :=
  if t.nanos + 1 < 1000000000 then ⟨t.seconds, t.nanos + 1⟩ else ⟨t.seconds + 1, 0⟩

/-- The date in UTC. -/
def date (t : Instant) : Date := Date.ofDayCount (t.seconds / 86400)

/-- The number of whole seconds since midnight. -/
def secondOfDay (t : Instant) : Nat := (t.seconds % 86400).toNat

/-- A year with at least four digits, and a sign when it is negative or has more. -/
def yearText (year : Int) : String :=
  if 0 ≤ year ∧ year ≤ 9999 then Text.padded 4 year.toNat
  else if 0 ≤ year then "+" ++ Text.padded 4 year.toNat
  else "-" ++ Text.padded 4 (-year).toNat

/-- The fraction of a second in three, six or nine digits, whichever is the first to be exact;
nothing for a whole second. -/
def fractionText (nanos : Nat) : String :=
  let n := nanos % 1000000000
  if n = 0 then ""
  else if n % 1000000 = 0 then "." ++ Text.padded 3 (n / 1000000)
  else if n % 1000 = 0 then "." ++ Text.padded 6 (n / 1000)
  else "." ++ Text.padded 9 n

/-- The RFC 3339 text of an instant in UTC, with `zone` for its offset. -/
def rfc3339 (zone : String) (t : Instant) : String :=
  let d := t.date
  let s := t.secondOfDay
  let second := s % 60 + t.nanos / 1000000000
  yearText d.year ++ "-" ++ Text.padded 2 d.month ++ "-" ++ Text.padded 2 d.day ++ "T" ++
    Text.padded 2 (s / 3600) ++ ":" ++ Text.padded 2 (s / 60 % 60) ++ ":" ++
    Text.padded 2 second ++ fractionText t.nanos ++ zone

/-- The form used for commands: the offset is written out. -/
def withOffset (t : Instant) : String := t.rfc3339 "+00:00"

/-- The form used for devices: the offset is the letter Z. -/
def zulu (t : Instant) : String := t.rfc3339 "Z"

/-- The form used in file names: date and time of day without punctuation. -/
def compact (t : Instant) : String :=
  let d := t.date
  let s := t.secondOfDay
  yearText d.year ++ Text.padded 2 d.month ++ Text.padded 2 d.day ++ "T" ++
    Text.padded 2 (s / 3600) ++ Text.padded 2 (s / 60 % 60) ++
    Text.padded 2 (s % 60 + t.nanos / 1000000000)

end Instant

end Switchyard.Time
