import Spacecraft.Json.Value

/-!
# Calendar epochs

A calendar instant of the proleptic Gregorian calendar with microseconds and an optional
offset from UTC; an instant without an offset is read as UTC. Epochs are read from ISO 8601
text: a calendar date (`YYYY-MM-DD` or `YYYYMMDD`) or an ISO week date (`YYYY-Www-D`,
`YYYYWwwD`, day optional), then optionally any one separator character and a time
(`HH`, `HH:MM`, `HH:MM:SS` or without colons, a fraction after `.` or `,` of which six digits
count), then `Z` or a signed offset in the same time form. They are written back in the
extended form with `T`, with the fraction only when it is nonzero.

The Julian date of an epoch plus some seconds goes through the seconds since 1970-01-01 UTC,
the exact microsecond count divided by a million and rounded once.
-/

namespace Spacecraft

/-- A calendar instant. -/
structure Epoch where
  year : Nat
  month : Nat
  day : Nat
  hour : Nat := 0
  minute : Nat := 0
  second : Nat := 0
  micro : Nat := 0
  /-- Offset from UTC in microseconds; `none` for an instant read as UTC. -/
  offset : Option Int := none
deriving Inhabited, BEq

namespace Epoch

/-- 2000-01-01T12:00:00 UTC. -/
def j2000 : Epoch := ⟨2000, 1, 1, 12, 0, 0, 0, some 0⟩

/-- Whether a year is a leap year. -/
def isLeap (y : Nat) : Bool := y % 4 = 0 && (y % 100 != 0 || y % 400 = 0)

/-- Days in a month of a year. -/
def daysInMonth (y m : Nat) : Nat :=
  match m with
  | 2 => if isLeap y then 29 else 28
  | 4 | 6 | 9 | 11 => 30
  | _ => 31

/-- Days before the first of January of a year, counted from 0001-01-01. -/
def daysBeforeYear (y : Nat) : Nat :=
  let p := y - 1
  p * 365 + p / 4 - p / 100 + p / 400

/-- Days before the first of a month within its year. -/
def daysBeforeMonth (y m : Nat) : Nat :=
  (List.range (m - 1)).foldl (fun acc i => acc + daysInMonth y (i + 1)) 0

/-- The day number of a date, 0001-01-01 being day 1. -/
def ordinal (y m d : Nat) : Nat := daysBeforeYear y + daysBeforeMonth y m + d

/-- The date of a day number. -/
def ofOrdinal (n : Nat) : Nat × Nat × Nat :=
  -- the year: the last one whose first day is not after n
  let y0 := n * 400 / 146097 + 1
  let y := if daysBeforeYear (y0 + 1) < n then y0 + 1
    else if daysBeforeYear y0 ≥ n then y0 - 1 else y0
  let dayOfYear := n - daysBeforeYear y
  let (m, d) := (List.range 12).foldl (fun (acc : Nat × Nat × Bool) i =>
    let (m, rest, done) := acc
    if done then acc
    else if rest ≤ daysInMonth y (i + 1) then (i + 1, rest, true)
    else (m, rest - daysInMonth y (i + 1), false)) (1, dayOfYear, false) |> fun (m, d, _) => (m, d)
  (y, m, d)

/-- Microseconds since 1970-01-01T00:00:00 UTC. -/
def unixMicros (e : Epoch) : Int :=
  let days : Int := (ordinal e.year e.month e.day : Int) - 719163
  let secs : Int := days * 86400 + e.hour * 3600 + e.minute * 60 + e.second
  secs * 1000000 + e.micro - e.offset.getD 0

/-- Seconds since 1970-01-01 UTC: the exact microsecond count over a million, rounded
once. -/
def unixSeconds (e : Epoch) : Float :=
  let us := e.unixMicros
  Binary64.ofRatio (us < 0) us.natAbs 1000000

/-- The Julian date of the epoch plus `seconds`. -/
def julianDate (e : Epoch) (seconds : Float := 0.0) : Float :=
  2440587.5 + (e.unixSeconds + seconds) / 86400.0

/-- Julian centuries since J2000 of the epoch plus `seconds`. -/
def julianCenturies (e : Epoch) (seconds : Float := 0.0) : Float :=
  (e.julianDate seconds - 2451545.0) / 36525.0

/-! ## Reading -/

/-- Exactly `n` decimal digits at the front. -/
def takeDigits (n : Nat) (cs : List Char) : Option (Nat × List Char) :=
  if (cs.take n).length = n && (cs.take n).all Char.isDigit then
    some ((cs.take n).foldl (fun a c => a * 10 + (c.toNat - '0'.toNat)) 0, cs.drop n)
  else none

/-- The position of the separator between date and time, found from the shape of the date
part. -/
def separatorAt (cs : List Char) : Nat :=
  let at_ (i : Nat) : Char := cs.getD i '\x00'
  let len := cs.length
  if len = 7 then 7
  else if at_ 4 == '-' then
    if at_ 5 == 'W' then
      if len > 8 && at_ 8 == '-' then
        if len > 10 && (at_ 10).isDigit then 8 else 10
      else 8
    else 10
  else if at_ 4 == 'W' then
    let idx := ((List.range (len - 7)).map (· + 7)).find? (fun i => !(at_ i).isDigit) |>.getD len
    if idx < 9 then idx else if idx % 2 = 0 then 7 else 8
  else 8

/-- The Monday of ISO week 1 of a year, as a day number. -/
def isoWeek1Monday (y : Nat) : Nat :=
  let first := ordinal y 1 1
  let weekday := (first + 6) % 7
  let monday := first - weekday
  if weekday > 3 then monday + 7 else monday

/-- The calendar date of an ISO week date. -/
def ofIsoWeek (y week day : Nat) : Option (Nat × Nat × Nat) :=
  let firstWeekday := (ordinal y 1 1 + 6) % 7
  let longYear := firstWeekday == 3 || (firstWeekday == 2 && isLeap y)
  if week = 0 || week > 53 || (week = 53 && !longYear) then none
  else if day = 0 || day > 7 then none
  else some (ofOrdinal (isoWeek1Monday y + (week - 1) * 7 + day - 1))

/-- The date part. -/
def readDate (cs : List Char) : Option (Nat × Nat × Nat) := do
  let (y, rest) ← takeDigits 4 cs
  let (sep, rest) := match rest with
    | '-' :: r => (true, r)
    | r => (false, r)
  match rest with
  | 'W' :: r =>
    let (w, r) ← takeDigits 2 r
    if r.isEmpty then ofIsoWeek y w 1
    else
      let r ← if sep then (match r with
        | '-' :: r2 => some r2
        | _ => none) else some r
      let (d, r) ← takeDigits 1 r
      if r.isEmpty then ofIsoWeek y w d else none
  | r =>
    let (m, r) ← takeDigits 2 r
    let r ← if sep then (match r with
      | '-' :: r2 => some r2
      | _ => none) else some r
    let (d, r) ← takeDigits 2 r
    if r.isEmpty then some (y, m, d) else none

/-- Hours, minutes, seconds and microseconds of a time text; `none` when malformed. -/
def readClock (cs : List Char) : Option (Nat × Nat × Nat × Nat) := do
  let (h, r) ← takeDigits 2 cs
  match r with
  | [] => some (h, 0, 0, 0)
  | _ =>
    let colon := r.head? == some ':'
    let r := if colon then r.drop 1 else r
    let (m, r) ← takeDigits 2 r
    match r with
    | [] => some (h, m, 0, 0)
    | _ =>
      let r ← if colon then (match r with
        | ':' :: r2 => some r2
        | '.' :: _ => none
        | _ => none) else some r
      let (s, r) ← takeDigits 2 r
      match r with
      | [] => some (h, m, s, 0)
      | c :: frac =>
        if c == '.' || c == ',' then
          let digits := frac.takeWhile Char.isDigit
          if digits.isEmpty || digits.length != frac.length then none
          else
            let six := digits.take 6
            let v := six.foldl (fun a c => a * 10 + (c.toNat - '0'.toNat)) 0
            some (h, m, s, v * Nat.pow 10 (6 - six.length))
        else none

/-- The time part with its optional offset. -/
def readTime (cs : List Char) : Option (Nat × Nat × Nat × Nat × Option Int) := do
  let clock := cs.takeWhile fun c => c != 'Z' && c != '+' && c != '-'
  let tz := cs.drop clock.length
  let (h, m, s, us) ← readClock clock
  match tz with
  | [] => some (h, m, s, us, none)
  | ['Z'] => some (h, m, s, us, some 0)
  | c :: r =>
    if c == '+' || c == '-' then
      let (th, tm, ts, tus) ← readClock r
      let off : Int := ((th * 3600 + tm * 60 + ts) * 1000000 + tus : Nat)
      some (h, m, s, us, some (if c == '-' then -off else off))
    else none

/-- The message of a text that is no ISO 8601 instant. -/
def invalidText (s : String) : String := "Invalid isoformat string: " ++ Json.literalString s

/-- Reads an ISO 8601 instant; the message says what is wrong. -/
def parse (s : String) : Except String Epoch := do
  let cs := s.toList
  let at_ := separatorAt cs
  let some (y, mo, d) := readDate (cs.take at_) | throw (invalidText s)
  let (h, mi, sec, us, off) ← if cs.length > at_ then
      match readTime (cs.drop (at_ + 1)) with
      | some t => pure t
      | none => throw (invalidText s)
    else pure (0, 0, 0, 0, none)
  if y = 0 || y > 9999 then throw ("year " ++ toString y ++ " is out of range")
  if mo = 0 || mo > 12 then throw "month must be in 1..12"
  if d = 0 || d > daysInMonth y mo then throw "day is out of range for month"
  if h > 23 then throw "hour must be in 0..23"
  if mi > 59 then throw "minute must be in 0..59"
  if sec > 59 then throw "second must be in 0..59"
  if let some o := off then
    if o.natAbs ≥ 86400000000 then
      throw ("offset must be a timedelta strictly between -timedelta(hours=24) and " ++
        "timedelta(hours=24).")
  pure ⟨y, mo, d, h, mi, sec, us, off⟩

/-! ## Writing -/

/-- A natural with at least `w` digits. -/
def pad (w n : Nat) : String := Notation.padDigits n w

/-- The UTC offset written as `+HH:MM`, with seconds and microseconds when present. -/
def offsetText (o : Int) : String :=
  let sign := if o < 0 then "-" else "+"
  let a := o.natAbs
  let us := a % 1000000
  let secs := a / 1000000
  let base := sign ++ pad 2 (secs / 3600) ++ ":" ++ pad 2 (secs % 3600 / 60)
  let base := if secs % 60 != 0 || us != 0 then base ++ ":" ++ pad 2 (secs % 60) else base
  if us != 0 then base ++ "." ++ pad 6 us else base

/-- The extended ISO 8601 text of an epoch. -/
def isoText (e : Epoch) : String :=
  pad 4 e.year ++ "-" ++ pad 2 e.month ++ "-" ++ pad 2 e.day ++ "T" ++ pad 2 e.hour ++ ":" ++
    pad 2 e.minute ++ ":" ++ pad 2 e.second ++ (if e.micro != 0 then "." ++ pad 6 e.micro else "") ++
    (e.offset.map offsetText).getD ""

end Epoch

end Spacecraft
