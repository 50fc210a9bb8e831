/-!
Calendar time of the simulated clock. The clock counts seconds from a fixed start, which is
1 700 000 000 seconds after the Unix epoch (2023-11-14 22:13:20 UTC); a point in time is written
in ISO form, `2023-11-14T22:13:20Z`. Dates are proleptic Gregorian, computed from the day count by
the usual era arithmetic (eras of 400 years, 146 097 days, starting on 1 March).
-/

namespace TradeDesk.Wallclock

def origin : Int := 1700000000

def civil (days : Int) : Int × Int × Int :=
  let z := days + 719468
  let era := z / 146097
  let doe := z - era * 146097
  let yoe := (doe - doe / 1460 + doe / 36524 - doe / 146096) / 365
  let doy := doe - (365 * yoe + yoe / 4 - yoe / 100)
  let mp := (5 * doy + 2) / 153
  let d := doy - (153 * mp + 2) / 5 + 1
  let m := if mp < 10 then mp + 3 else mp - 9
  let y := yoe + era * 400
  (if m ≤ 2 then y + 1 else y, m, d)

def padded (width : Nat) (n : Int) : String :=
  let s := toString n.natAbs
  (if n < 0 then "-" else "") ++ String.ofList (List.replicate (width - s.length) '0') ++ s

def iso (unix : Int) : String :=
  let days := unix / 86400
  let secs := unix - days * 86400
  let (y, m, d) := civil days
  padded 4 y ++ "-" ++ padded 2 m ++ "-" ++ padded 2 d ++ "T" ++ padded 2 (secs / 3600) ++ ":" ++
    padded 2 (secs / 60 % 60) ++ ":" ++ padded 2 (secs % 60) ++ "Z"

def reading (s : Int) : String := iso (origin + s)

example : reading 0 = "2023-11-14T22:13:20Z" := by decide +kernel
example : iso 0 = "1970-01-01T00:00:00Z" ∧ iso 951782400 = "2000-02-29T00:00:00Z" := by
  decide +kernel

end TradeDesk.Wallclock
