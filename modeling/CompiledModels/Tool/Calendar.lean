import CompiledModels.Number.Power
import CompiledModels.Text.Blank

namespace CompiledModels.Tool

structure Moment where
  year : Int
  month : Nat
  day : Nat
  hour : Nat := 0
  minute : Nat := 0
  second : Nat := 0
  nanosecond : Nat := 0

namespace Moment

def daysOf (year : Int) (month day : Nat) : Int :=
  let y := if month ≤ 2 then year - 1 else year
  let era := y.fdiv 400
  let ofEra := y - era * 400
  let m : Int := ((month + 9) % 12 : Nat)
  let ofYear := (153 * m + 2) / 5 + (day : Int) - 1
  era * 146097 + (ofEra * 365 + ofEra / 4 - ofEra / 100 + ofYear) - 719468

def ofDays (days : Int) : Int × Nat × Nat :=
  let z := days + 719468
  let era := z.fdiv 146097
  let ofEra := (z - era * 146097).toNat
  let y := (ofEra - ofEra / 1460 + ofEra / 36524 - ofEra / 146096) / 365
  let ofYear := ofEra - (365 * y + y / 4 - y / 100)
  let m := (5 * ofYear + 2) / 153
  let day := ofYear - (153 * m + 2) / 5 + 1
  let month := if m < 10 then m + 3 else m - 9
  ((y : Int) + era * 400 + (if month ≤ 2 then 1 else 0), month, day)

def nanosPerSecond : Int := 1000000000

def ofNanos (n : Int) : Moment :=
  let seconds := n.fdiv nanosPerSecond
  let days := seconds.fdiv 86400
  let rest := (seconds - days * 86400).toNat
  let (year, month, day) := ofDays days
  { year, month, day, hour := rest / 3600, minute := rest / 60 % 60, second := rest % 60
    nanosecond := (n - seconds * nanosPerSecond).toNat }

variable (m : Moment)

def days : Int := daysOf m.year m.month m.day

def seconds : Int := m.days * 86400 + (m.hour * 3600 + m.minute * 60 + m.second : Nat)

def nanos : Int := m.seconds * nanosPerSecond + m.nanosecond

def weekday : Nat := ((m.days + 4).emod 7).toNat

def yearDay : Nat := (m.days - daysOf m.year 1 1).toNat + 1

def monthNames : List String := ["January", "February", "March", "April", "May", "June", "July",
  "August", "September", "October", "November", "December"]

def dayNames : List String :=
  ["Sunday", "Monday", "Tuesday", "Wednesday", "Thursday", "Friday", "Saturday"]

def monthName : String := (monthNames[m.month - 1]?).getD ""

def dayName : String := (dayNames[m.weekday]?).getD ""

def padded (c : Char) (width : Nat) (n : Int) : String :=
  let digits := toString n.natAbs
  (if n < 0 then "-" else "") ++ String.ofList (List.replicate (width - digits.length) c) ++ digits

def isoWeek : Int × Nat :=
  let weekday := (m.weekday + 6) % 7
  let thursday := m.days + 3 - weekday
  let (year, _, _) := ofDays thursday
  (year, ((thursday - daysOf year 1 1) / 7).toNat + 1)

inductive Fill
  | zero
  | space
  | none
  | usual

def directive? (fill : Fill) (upper : Bool) (width : Option Nat) (c : Char) : Option String :=
  let fillWith (usual : Char) (n : Nat) (v : Int) : String :=
    match fill with
    | .zero => padded '0' (width.getD n) v
    | .space => padded ' ' (width.getD n) v
    | .none => padded '0' (width.getD 0) v
    | .usual => padded usual (width.getD n) v
  let zero := fillWith '0'
  let name (s : String) : String := if upper then s.toUpper else s
  let clock12 : Nat := if m.hour % 12 = 0 then 12 else m.hour % 12
  let time := padded '0' 2 m.hour ++ ":" ++ padded '0' 2 m.minute
  let fullTime := time ++ ":" ++ padded '0' 2 m.second
  match c with
  | 'Y' => some (fillWith '0' 4 m.year)
  | 'C' => some (zero 2 (m.year / 100))
  | 'y' => some (zero 2 (m.year.emod 100))
  | 'm' => some (zero 2 m.month)
  | 'd' => some (zero 2 m.day)
  | 'e' => some (fillWith ' ' 2 m.day)
  | 'H' => some (zero 2 m.hour)
  | 'k' => some (fillWith ' ' 2 m.hour)
  | 'I' => some (zero 2 clock12)
  | 'l' => some (fillWith ' ' 2 clock12)
  | 'M' => some (zero 2 m.minute)
  | 'S' => some (zero 2 m.second)
  | 'N' => some (let s := padded '0' 9 m.nanosecond
      match width with
      | some w => (s.take w).toString
      | none => s)
  | 'j' => some (zero 3 m.yearDay)
  | 's' => some (toString m.seconds)
  | 'a' => some (name (m.dayName.take 3).toString)
  | 'A' => some (name m.dayName)
  | 'b' => some (name (m.monthName.take 3).toString)
  | 'h' => some (name (m.monthName.take 3).toString)
  | 'B' => some (name m.monthName)
  | 'u' => some (toString (if m.weekday = 0 then 7 else m.weekday))
  | 'w' => some (toString m.weekday)
  | 'U' => some (zero 2 ((m.yearDay + 6 - m.weekday) / 7 : Nat))
  | 'W' => some (zero 2 ((m.yearDay + 6 - (m.weekday + 6) % 7) / 7 : Nat))
  | 'V' => some (zero 2 m.isoWeek.2)
  | 'G' => some (zero 4 m.isoWeek.1)
  | 'g' => some (zero 2 (m.isoWeek.1.emod 100))
  | 'F' => some (padded '0' 4 m.year ++ "-" ++ padded '0' 2 m.month ++ "-" ++ padded '0' 2 m.day)
  | 'T' => some fullTime
  | 'X' => some fullTime
  | 'R' => some time
  | 'D' => some (padded '0' 2 m.month ++ "/" ++ padded '0' 2 m.day ++ "/" ++
      padded '0' 2 (m.year.emod 100))
  | 'x' => some (padded '0' 2 m.month ++ "/" ++ padded '0' 2 m.day ++ "/" ++
      padded '0' 2 (m.year.emod 100))
  | 'r' => some (padded '0' 2 clock12 ++ ":" ++ padded '0' 2 m.minute ++ ":" ++
      padded '0' 2 m.second ++ (if m.hour < 12 then " AM" else " PM"))
  | 'p' => some (if m.hour < 12 then "AM" else "PM")
  | 'P' => some (if m.hour < 12 then "am" else "pm")
  | 'c' => some ((m.dayName.take 3).toString ++ " " ++ (m.monthName.take 3).toString ++ " " ++
      padded ' ' 2 m.day ++ " " ++ fullTime ++ " " ++ toString m.year)
  | 'z' => some "+0000"
  | 'Z' => some "UTC"
  | 'n' => some "\n"
  | 't' => some "\t"
  | '%' => some "%"
  | _ => none

def format : Nat → List Char → String
  | 0, _ => ""
  | _, [] => ""
  | fuel + 1, '%' :: cs =>
    let flags := cs.takeWhile fun c => "-_0^#+".contains c
    let rest := cs.drop flags.length
    let digits := rest.takeWhile Char.isDigit
    let rest' := rest.drop digits.length
    let colons := rest'.takeWhile (· == ':')
    let rest' := rest'.drop colons.length
    let rest' := match rest' with
      | 'E' :: cs => cs
      | 'O' :: cs => cs
      | cs => cs
    let fill : Fill := match flags.reverse.find? fun c => "-_0".contains c with
      | some '-' => .none
      | some '_' => .space
      | some '0' => .zero
      | _ => .usual
    match rest' with
    | c :: after =>
      if c == 'z' && !colons.isEmpty then
        (if colons.length = 1 then "+00:00" else if colons.length = 2 then "+00:00:00" else "+00") ++
          format fuel after
      else match m.directive? fill (flags.contains '^') (String.ofList digits).toNat? c with
        | some s => s ++ format fuel after
        | none =>
          String.ofList ('%' :: cs.take (cs.length - after.length)) ++ format fuel after
    | [] => String.ofList ('%' :: cs)
  | fuel + 1, c :: cs => c.toString ++ format fuel cs

def formatted (s : String) : String := m.format (s.length + 1) s.toList

def monthLength (year : Int) (month : Nat) : Nat :=
  let next := if month = 12 then daysOf (year + 1) 1 1 else daysOf year (month + 1) 1
  (next - daysOf year month 1).toNat

def isValid : Bool :=
  1 ≤ m.month && m.month ≤ 12 && 1 ≤ m.day && m.day ≤ monthLength m.year m.month &&
    m.hour < 24 && m.minute < 60 && m.second ≤ 60

inductive DateWord
  | number (digits : List Char)
  | letters (s : String)
  | sign (c : Char)
  deriving DecidableEq

def dateWords : Nat → List Char → List DateWord
  | 0, _ => []
  | _, [] => []
  | fuel + 1, c :: cs =>
    if c.isDigit then
      let digits := (c :: cs).takeWhile Char.isDigit
      .number digits :: dateWords fuel ((c :: cs).drop digits.length)
    else if c.isAlpha then
      let letters := (c :: cs).takeWhile fun c => c.isAlpha || c == '.'
      .letters ((String.ofList letters).toLower) :: dateWords fuel ((c :: cs).drop letters.length)
    else if Text.isBlank c then dateWords fuel cs
    else .sign c :: dateWords fuel cs

structure DateParts where
  day : Option (Int × Nat × Nat) := none
  time : Option (Nat × Nat × Nat × Nat) := none
  zone : Option Int := none
  months : Int := 0
  days : Int := 0
  seconds : Int := 0
  weekday : Option Nat := none
  isEpoch : Option Int := none

def valueOf (digits : List Char) : Nat := (String.ofList digits).toNat?.getD 0

def monthNumber? (s : String) : Option Nat :=
  if s.length < 3 then none
  else (monthNames.findIdx? fun n =>
    let n := n.toLower
    n == s || (n.take 3).toString == s || s == "sept" && n == "september").map (· + 1)

def weekdayNumber? (s : String) : Option Nat :=
  if s.length < 3 then none
  else dayNames.findIdx? fun n =>
    let n := n.toLower
    n == s || (n.take 3).toString == s

def DateParts.add? (p : DateParts) (n : Int) (unit : String) : Option DateParts :=
  let unit := if unit.endsWith "s" && 1 < unit.length then (unit.dropEnd 1).toString else unit
  match unit with
  | "year" => some { p with months := p.months + 12 * n }
  | "month" => some { p with months := p.months + n }
  | "fortnight" => some { p with days := p.days + 14 * n }
  | "week" => some { p with days := p.days + 7 * n }
  | "day" => some { p with days := p.days + n }
  | "hour" => some { p with seconds := p.seconds + 3600 * n }
  | "minute" => some { p with seconds := p.seconds + 60 * n }
  | "min" => some { p with seconds := p.seconds + 60 * n }
  | "second" => some { p with seconds := p.seconds + n }
  | "sec" => some { p with seconds := p.seconds + n }
  | _ => none

def hourOf? (n : Nat) (half : String) : Option Nat :=
  if n = 0 || 12 < n then none
  else match half with
    | "am" => some (n % 12)
    | "a.m." => some (n % 12)
    | "pm" => some (n % 12 + 12)
    | "p.m." => some (n % 12 + 12)
    | _ => none

def yearOf (digits : List Char) : Int :=
  let n := valueOf digits
  if digits.length ≤ 2 then (if n < 69 then n + 2000 else n + 1900) else n

def readDate : Nat → DateParts → List DateWord → Option DateParts
  | 0, _, _ => none
  | _, p, [] => some p
  | fuel + 1, p, ws =>
    match ws with
    | .sign '@' :: .number n :: rest => readDate fuel { p with isEpoch := some (valueOf n) } rest
    | .sign '@' :: .sign '-' :: .number n :: rest =>
      readDate fuel { p with isEpoch := some (-(valueOf n : Int)) } rest
    | .number y :: .sign '-' :: .number m :: .sign '-' :: .number d :: rest =>
      readDate fuel { p with day := some (yearOf y, valueOf m, valueOf d) } rest
    | .number y :: .sign '/' :: .number m :: .sign '/' :: .number d :: rest =>
      if y.length = 4 then
        readDate fuel { p with day := some (valueOf y, valueOf m, valueOf d) } rest
      else readDate fuel { p with day := some (yearOf d, valueOf y, valueOf m) } rest
    | .number h :: .sign ':' :: .number m :: .sign ':' :: .number s :: .sign '.' :: .number f :: rest =>
      let nanos := valueOf (f.take 9) * 10 ^ (9 - (f.take 9).length)
      clock fuel { p with time := some (valueOf h, valueOf m, valueOf s, nanos) } rest
    | .number h :: .sign ':' :: .number m :: .sign ':' :: .number s :: rest =>
      clock fuel { p with time := some (valueOf h, valueOf m, valueOf s, 0) } rest
    | .number h :: .sign ':' :: .number m :: rest =>
      clock fuel { p with time := some (valueOf h, valueOf m, 0, 0) } rest
    | .letters "t" :: rest => readDate fuel p rest
    | .letters "now" :: rest => readDate fuel p rest
    | .letters "today" :: rest => readDate fuel p rest
    | .letters "z" :: rest => readDate fuel { p with zone := some 0 } rest
    | .letters "utc" :: rest => readDate fuel { p with zone := some 0 } rest
    | .letters "gmt" :: rest => readDate fuel { p with zone := some 0 } rest
    | .letters "yesterday" :: rest => readDate fuel { p with days := p.days - 1 } rest
    | .letters "tomorrow" :: rest => readDate fuel { p with days := p.days + 1 } rest
    | .letters "midnight" :: rest => readDate fuel { p with time := some (0, 0, 0, 0) } rest
    | .letters "noon" :: rest => readDate fuel { p with time := some (12, 0, 0, 0) } rest
    | .letters "next" :: .letters u :: rest => (p.add? 1 u).bind (readDate fuel · rest)
    | .letters "last" :: .letters u :: rest => (p.add? (-1) u).bind (readDate fuel · rest)
    | .letters "a" :: .letters u :: .letters "ago" :: rest =>
      (p.add? (-1) u).bind (readDate fuel · rest)
    | .sign '+' :: .number n :: .letters u :: rest =>
      (p.add? (valueOf n) u).bind (readDate fuel · rest)
    | .sign '-' :: .number n :: .letters u :: .letters "ago" :: rest =>
      (p.add? (valueOf n) u).bind (readDate fuel · rest)
    | .sign '-' :: .number n :: .letters u :: rest =>
      (p.add? (-(valueOf n : Int)) u).bind (readDate fuel · rest)
    | .sign ',' :: rest => readDate fuel p rest
    | .number d :: .sign '-' :: .letters m :: .sign '-' :: .number y :: rest =>
      (monthNumber? m).bind fun m =>
        readDate fuel { p with day := some (yearOf y, m, valueOf d) } rest
    | .number n :: .letters u :: rest =>
      match hourOf? (valueOf n) u, monthNumber? u, rest with
      | some h, _, _ => readDate fuel { p with time := some (h, 0, 0, 0) } rest
      | none, some m, .number y :: rest =>
        if y.length = 4 then readDate fuel { p with day := some (valueOf y, m, valueOf n) } rest
        else none
      | none, some _, _ => none
      | none, none, .letters "ago" :: rest =>
        (p.add? (-(valueOf n : Int)) u).bind (readDate fuel · rest)
      | none, none, _ => (p.add? (valueOf n) u).bind (readDate fuel · rest)
    | .letters w :: .number d :: rest =>
      match monthNumber? w with
      | some m =>
        let rest := if rest.head? = some (.sign ',') then rest.drop 1 else rest
        match rest with
        | .number y :: .sign ':' :: _ =>
          match rest.reverse with
          | .number year :: _ =>
            if year.length = 4 && y.length ≤ 2 then
              readDate fuel { p with day := some (valueOf year, m, valueOf d) } rest.dropLast
            else none
          | _ => none
        | .number y :: rest => readDate fuel { p with day := some (yearOf y, m, valueOf d) } rest
        | _ => none
      | none =>
        (weekdayNumber? w).bind fun n =>
          readDate fuel { p with weekday := some n } (.number d :: rest)
    | .letters w :: rest =>
      (weekdayNumber? w).bind fun n => readDate fuel { p with weekday := some n } rest
    | [.number n] =>
      if n.length = 8 then
        some { p with day := some (valueOf (n.take 4), valueOf ((n.drop 4).take 2),
          valueOf (n.drop 6)) }
      else if n.length ≤ 2 then some { p with time := some (valueOf n, 0, 0, 0) }
      else none
    | .number n :: rest =>
      if n.length = 8 then
        readDate fuel { p with day := some (valueOf (n.take 4), valueOf ((n.drop 4).take 2),
          valueOf (n.drop 6)) } rest
      else none
    | _ => none
where
  clock (fuel : Nat) (p : DateParts) (ws : List DateWord) : Option DateParts :=
    let shift (negative : Bool) (h m : List Char) : Int :=
      let n : Int := (valueOf h * 3600 + valueOf m * 60 : Nat)
      if negative then -n else n
    match ws with
    | .letters half :: rest =>
      match p.time.bind fun t => (hourOf? t.1 half).map fun h => (h, t.2) with
      | some t => readDate fuel { p with time := some t } rest
      | none => readDate fuel p ws
    | .sign s :: .number h :: .sign ':' :: .number m :: rest =>
      if s == '+' || s == '-' then
        readDate fuel { p with zone := some (shift (s == '-') h m) } rest
      else none
    | .sign s :: .number n :: rest =>
      if s != '+' && s != '-' then none
      else if n.length = 4 then
        readDate fuel { p with zone := some (shift (s == '-') (n.take 2) (n.drop 2)) } rest
      else if n.length ≤ 2 && !(rest.head?.any fun w => match w with
          | .letters _ => true
          | _ => false) then
        readDate fuel { p with zone := some (shift (s == '-') n []) } rest
      else readDate fuel p ws
    | _ => readDate fuel p ws

def ofDate? (now : Int) (s : String) : Option Int := do
  let ws := dateWords (s.length + 1) s.toList
  let p ← readDate (ws.length + 1) {} ws
  match p.isEpoch with
  | some n =>
    let fraction := (s.toList.dropWhile (· != '.')).drop 1
    let digits := (fraction.takeWhile Char.isDigit).take 9
    return n * nanosPerSecond + (valueOf digits * 10 ^ (9 - digits.length) : Nat)
  | none =>
    let here := ofNanos now
    let (year, month, day) := p.day.getD (here.year, here.month, here.day)
    let isDay := p.day.isSome || p.weekday.isSome
    let (hour, minute, second, nanosecond) := p.time.getD
      (if isDay then (0, 0, 0, 0) else (here.hour, here.minute, here.second, here.nanosecond))
    let m : Moment := { year, month, day, hour, minute, second, nanosecond }
    if !m.isValid then failure
    let months := year * 12 + (month : Int) - 1 + p.months
    let start := daysOf (months.fdiv 12) ((months.emod 12).toNat + 1) 1 + (day : Int) - 1 + p.days
    let start := match p.weekday with
      | some w => start + (((w : Int) - (start + 4)).emod 7)
      | none => start
    return (start * 86400 + (hour * 3600 + minute * 60 + second : Nat) + p.seconds -
      p.zone.getD 0) * nanosPerSecond + nanosecond

def ofDigits? (now : Int) (s : String) : Option Int :=
  let parts := Text.splitAll (· == '.') s.toList
  let digits := parts.headD []
  let second := (parts.drop 1).headD ['0', '0']
  let two (i : Nat) : Nat := valueOf ((digits.drop i).take 2)
  if !(digits.all Char.isDigit && second.all Char.isDigit) || second.length != 2 ||
      2 < parts.length then none
  else
    let year : Option (Int × Nat) := match digits.length with
      | 8 => some ((ofNanos now).year, 0)
      | 10 => some (yearOf (digits.take 2), 2)
      | 12 => some (valueOf (digits.take 4), 4)
      | _ => none
    year.bind fun (year, i) =>
      let m : Moment :=
        { year, month := two i, day := two (i + 2), hour := two (i + 4), minute := two (i + 6)
          second := valueOf second }
      if m.isValid then some m.nanos else none

end Moment

end CompiledModels.Tool
