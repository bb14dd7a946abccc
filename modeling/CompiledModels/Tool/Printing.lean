import CompiledModels.Regex.Reader
import CompiledModels.Shell.Condition
import CompiledModels.Shell.Format
import CompiledModels.Tool.Attributes

namespace CompiledModels.Tool

open Kernel (Run)
open Shell (Format.apply FormatRules)
open Work

def formatRules : FormatRules where
  precision := Rounded.extended
  lead := 4
  extended := true
  sizes := "hlLjtz".toList
  notNumber s := Quotation.word s ++ ": expected a numeric value"
  notWhole s := Quotation.word s ++ ": value not completely converted"
  outOfRange s := Quotation.word s ++ ": Numerical result out of range"
  unknown s := s ++ ": invalid conversion specification"
  quote := Quotation.sparing
  status := 1

def printf : Work Nat := do
  let args := (← get).arguments
  let args := if args.head? == some "--" then args.drop 1 else args
  match args with
  | [] => misuse "missing operand"
  | format :: args =>
    let made := Format.apply formatRules format args
    each (fun (isComplaint, text) => if isComplaint then complain text else put text) made.inOrder
    match made.failure with
    | some message => refuse message
    | none =>
      if !made.asked && !made.ended then
        match made.arguments with
        | extra :: _ =>
          complain ("warning: ignoring excess arguments, starting with " ++ Quotation.word extra)
        | [] => pure ()
      return made.status

def echo : Work Nat := do
  let args := (← get).arguments
  let isOption (a : String) : Bool :=
    a.startsWith "-" && 1 < a.length && (a.toList.drop 1).all fun c => "neE".contains c
  let options := args.takeWhile isOption
  let letters := options.flatMap (·.toList.drop 1)
  let escapes := (letters.reverse.find? (· != 'n')) == some 'e'
  let text := " ".intercalate (args.drop options.length)
  let (text, isCut) := if escapes then Shell.Format.unescaped true text else (text, false)
  put text
  if !isCut && !letters.contains 'n' then put "\n"
  return 0

def yes : Work Nat := do
  let o ← (Known.of "" "").read
  let line := (if o.operands.isEmpty then "y" else " ".intercalate o.operands) ++ "\n"
  let block := String.join (List.replicate (bufferSize * 4 / line.length + 1) line)
  let rec go : Nat → Work Nat
    | 0 => hang
    | turns + 1 => do
      put block
      match (← get).lost with
      | some e =>
        complain ("standard output: " ++ words e)
        Run.leave (.code 1)
      | none => go turns
  go maxTurns

structure Decimal where
  scaled : Int
  places : Nat

namespace Decimal

def read? (s : String) : Option (Option Decimal × Nat) :=
  let cs := s.toList.dropWhile fun c => c == ' ' || c == '\t'
  let (negative, cs) := match cs with
    | '-' :: cs => (true, cs)
    | '+' :: cs => (false, cs)
    | cs => (false, cs)
  let signed (n : Nat) : Int := if negative then -(n : Int) else n
  let lower := cs.map Char.toLower
  if lower == "inf".toList || lower == "infinity".toList then some (none, 0)
  else match cs with
  | '0' :: x :: digits =>
    if x == 'x' || x == 'X' then
      if digits.isEmpty || !digits.all Rounded.isHexDigit then none
      else some (some ⟨signed (digits.foldl (fun n c => n * 16 + Rounded.digitOf c) 0), 0⟩, 0)
    else plain signed cs
  | _ => plain signed cs
where
  plain (signed : Nat → Int) (cs : List Char) : Option (Option Decimal × Nat) := do
    let (n, places, rest) ← Rounded.digitsOf? Char.isDigit 10 cs
    match rest with
    | [] => return (some ⟨signed n, places⟩, places)
    | e :: more =>
      if e != 'e' && e != 'E' then failure
      let (x, rest) ← Rounded.exponent? more
      if !rest.isEmpty then failure
      let shift := x - places
      if 0 ≤ shift then return (some ⟨signed (n * 10 ^ shift.toNat), 0⟩, 0)
      else return (some ⟨signed n, (-shift).toNat⟩, (-shift).toNat)

def at_ (d : Decimal) (places : Nat) : Int := d.scaled * (10 ^ (places - d.places) : Nat)

end Decimal

def decimalText (places : Nat) (n : Int) : String :=
  (if n < 0 then "-" else "") ++ Rounded.withPoint places false n.natAbs

def seqOptions : Known := .of "f:s:w" "equal-width/w format=f separator=s" true

def checkFormat (format : String) : Work Unit := do
  let rec go : Nat → List Char → Nat → Work Nat
    | 0, _, n => return n
    | _, [], n => return n
    | fuel + 1, '%' :: '%' :: cs, n => go fuel cs n
    | fuel + 1, '%' :: cs, n => do
      let rest := cs.dropWhile fun c => "-+#0 '".contains c
      let rest := (rest.dropWhile Char.isDigit)
      let rest := match rest with
        | '.' :: cs => cs.dropWhile Char.isDigit
        | cs => cs
      let rest := if rest.head? == some 'L' then rest.drop 1 else rest
      match rest with
      | [] => refuse ("format " ++ Quotation.word format ++ " ends in %")
      | c :: rest =>
        if !"efgaEFGA".contains c then
          refuse ("format " ++ Quotation.word format ++ " has unknown %" ++ c.toString ++
            " directive")
        if 0 < n then
          refuse ("format " ++ Quotation.word format ++ " has too many % directives")
        go fuel rest (n + 1)
    | fuel + 1, _ :: cs, n => go fuel cs n
  if (← go (format.length + 1) format.toList 0) = 0 then
    refuse ("format " ++ Quotation.word format ++ " has no % directive")

def isNumberArgument (a : String) : Bool :=
  match a.toList with
  | '-' :: c :: _ => c.isDigit || c == '.' || a == "-inf" || a == "-infinity"
  | _ => !a.startsWith "-" || a == "-"

def seq : Work Nat := do
  let args := (← get).arguments
  let rec front : Nat → List String → List String
    | 0, _ => []
    | _, [] => []
    | fuel + 1, a :: rest =>
      if isNumberArgument a then []
      else if a == "-f" || a == "-s" || a == "--format" || a == "--separator" then
        a :: rest.take 1 ++ front fuel (rest.drop 1)
      else if a == "--" then [a]
      else a :: front fuel rest
  let given := front (args.length + 1) args
  let o ← seqOptions.readAll given
  let operands := o.operands ++ args.drop given.length
  match operands with
  | [] => misuse "missing operand"
  | _ :: _ :: _ :: extra :: _ => misuse ("extra operand " ++ Quotation.word extra)
  | _ => pure ()
  let number (s : String) : Work (Option Decimal) := do
    match Decimal.read? s with
    | some (d, _) => return d
    | none => misuse ("invalid floating point argument: " ++ Quotation.word s)
  match o.text? 'f' with
  | some f => checkFormat f
  | none => pure ()
  let values ← operands.mapM number
  let one : Decimal := ⟨1, 0⟩
  let (first, step, last) : Decimal × Decimal × Option Decimal := match values with
    | [last] => (one, one, last)
    | [first, last] => (first.getD one, one, last)
    | [first, step, last] => (first.getD one, step.getD one, last)
    | _ => (one, one, none)
  if step.scaled = 0 then
    misuse ("invalid Zero increment value: " ++ Quotation.word ((operands[1]?).getD ""))
  if o.has 'w' && o.has 'f' then
    misuse "format string may not be specified when printing equal width strings"
  let shown := max first.places step.places
  let places := max shown ((last.map (·.places)).getD 0)
  let a := first.at_ places
  let d := step.at_ places
  let z := last.map (·.at_ places)
  let separator := (o.text? 's').getD "\n"
  let unit : Int := (10 ^ (places - shown) : Nat)
  let plain (n : Int) : String := decimalText shown (n / unit)
  let width := if o.has 'w' then
      max (plain a).length ((z.map fun z => (plain (a + (z - a) / d * d)).length).getD 0)
    else 0
  let width := if o.has 'w' then
      max width ((last.map fun l => (decimalText shown (l.at_ places / unit)).length).getD 0)
    else 0
  let text (n : Int) : String :=
    match o.text? 'f' with
    | some f =>
      let made := Format.apply formatRules f [decimalText places n]
      String.join made.output.reverse
    | none =>
      let s := plain n
      if s.length < width then
        let digits := if n < 0 then (s.drop 1).toString else s
        (if n < 0 then "-" else "") ++ Rounded.zeros (width - s.length) ++ digits
      else s
  let inRange (n : Int) : Bool := z.all fun z => if 0 < d then n ≤ z else z ≤ n
  let rec go (n : Int) : Nat → Work Unit
    | 0 => return ()
    | turns + 1 => do
      put (text n)
      let next := n + d
      if inRange next then
        put separator
        Run.spend 0
        if (← get).lost.isSome then return () else go next turns
      else put "\n"
  if inRange a then go a maxTurns
  return 0

structure Reckoning where
  rest : List String
  last : String := ""

abbrev Reckon := StateT Reckoning (Run Context)

namespace Reckon

def stop {α : Type} (status : Nat) (message : String) : Reckon α :=
  liftM (do
    complain message
    finish status : Work α)

def wrong {α : Type} (message : String) : Reckon α := stop 2 ("syntax error: " ++ message)

def peek : Reckon (Option String) := return (← get).rest.head?

def take : Reckon String := do
  match (← get).rest with
  | a :: rest =>
    set (Reckoning.mk rest a)
    return a
  | [] => wrong ("missing argument after " ++ Quotation.word (← get).last)

def accept (words : List String) : Reckon (Option String) := do
  match ← peek with
  | some w => if words.contains w then return some (← take) else return none
  | none => return none

def whole? (s : String) : Option Int :=
  let cs := s.toList
  let digits := if cs.head? == some '-' then cs.drop 1 else cs
  if digits.isEmpty || !digits.all Char.isDigit then none
  else
    let n : Int := (String.ofList digits).toNat?.getD 0
    some (if cs.head? == some '-' then -n else n)

def number (s : String) : Reckon Int := do
  match whole? s with
  | some n => return n
  | none => stop 2 "non-integer argument"

def isNothing (s : String) : Bool := s.isEmpty || whole? s == some 0

def matched (s pattern : String) : Reckon String := do
  match Regex.read ⟨false, false⟩ pattern.toList with
  | .error e => stop 2 e
  | .ok (r, _) =>
    let text : Regex.Subject := { text := s.toList.toArray, exact := r.hasAgain }
    let groups := r.groupCount
    match text.matchAt r 0 with
    | none => return if groups = 0 then "0" else ""
    | some p =>
      if groups = 0 then return toString p.place
      else return String.ofList ((text.groupText p 1).getD [])

mutual

def either : Nat → Reckon String
  | 0 => return ""
  | fuel + 1 => do
    let a ← both fuel
    moreEither a fuel

def moreEither (a : String) : Nat → Reckon String
  | 0 => return a
  | fuel + 1 => do
    match ← accept ["|"] with
    | some _ =>
      let b ← both fuel
      moreEither (if !isNothing a then a else if !isNothing b then b else "0") fuel
    | none => return a

def both : Nat → Reckon String
  | 0 => return ""
  | fuel + 1 => do
    let a ← comparison fuel
    moreBoth a fuel

def moreBoth (a : String) : Nat → Reckon String
  | 0 => return a
  | fuel + 1 => do
    match ← accept ["&"] with
    | some _ =>
      let b ← comparison fuel
      moreBoth (if isNothing a || isNothing b then "0" else a) fuel
    | none => return a

def comparison : Nat → Reckon String
  | 0 => return ""
  | fuel + 1 => do
    let a ← sum fuel
    moreComparison a fuel

def moreComparison (a : String) : Nat → Reckon String
  | 0 => return a
  | fuel + 1 => do
    match ← accept ["<", "<=", "=", "==", "!=", ">=", ">"] with
    | some sign =>
      let b ← sum fuel
      let o : Ordering := match whole? a, whole? b with
        | some m, some n => compare m n
        | _, _ => if a == b then .eq else if a < b then .lt else .gt
      let holds : Bool := match sign with
        | "<" => o == .lt
        | "<=" => o != .gt
        | "!=" => o != .eq
        | ">=" => o != .lt
        | ">" => o == .gt
        | _ => o == .eq
      moreComparison (if holds then "1" else "0") fuel
    | none => return a

def sum : Nat → Reckon String
  | 0 => return ""
  | fuel + 1 => do
    let a ← product fuel
    moreSum a fuel

def moreSum (a : String) : Nat → Reckon String
  | 0 => return a
  | fuel + 1 => do
    match ← accept ["+", "-"] with
    | some sign =>
      let b ← product fuel
      let m ← number a
      let n ← number b
      moreSum (toString (if sign == "+" then m + n else m - n)) fuel
    | none => return a

def product : Nat → Reckon String
  | 0 => return ""
  | fuel + 1 => do
    let a ← comparedText fuel
    moreProduct a fuel

def moreProduct (a : String) : Nat → Reckon String
  | 0 => return a
  | fuel + 1 => do
    match ← accept ["*", "/", "%"] with
    | some sign =>
      let b ← comparedText fuel
      let m ← number a
      let n ← number b
      if sign != "*" && n = 0 then stop 2 "division by zero"
      let r := if sign == "*" then m * n else if sign == "/" then m.tdiv n else m.tmod n
      moreProduct (toString r) fuel
    | none => return a

def comparedText : Nat → Reckon String
  | 0 => return ""
  | fuel + 1 => do
    let a ← simple fuel
    moreText a fuel

def moreText (a : String) : Nat → Reckon String
  | 0 => return a
  | fuel + 1 => do
    match ← accept [":"] with
    | some _ =>
      let b ← simple fuel
      moreText (← matched a b) fuel
    | none => return a

def simple : Nat → Reckon String
  | 0 => return ""
  | fuel + 1 => do
    let w ← take
    match w with
    | "+" => take
    | "length" => return toString (← simple fuel).length
    | "match" =>
      let a ← simple fuel
      let b ← simple fuel
      matched a b
    | "index" =>
      let a ← simple fuel
      let b ← simple fuel
      return toString (((a.toList.findIdx? fun c => b.contains c).map (· + 1)).getD 0)
    | "substr" =>
      let a ← simple fuel
      let i := whole? (← simple fuel)
      let n := whole? (← simple fuel)
      match i, n with
      | some i, some n =>
        if i ≤ 0 || n ≤ 0 then return ""
        else return String.ofList ((a.toList.drop (i.toNat - 1)).take n.toNat)
      | _, _ => return ""
    | "(" =>
      let a ← either fuel
      match ← peek with
      | some ")" =>
        let _ ← take
        return a
      | some w => wrong ("expecting ')' instead of " ++ Quotation.word w)
      | none => wrong ("expecting ')' after " ++ Quotation.word (← get).last)
    | ")" => wrong "unexpected ')'"
    | w => return w

end

end Reckon

def expr : Work Nat := do
  let args := (← get).arguments
  let args := if args.head? == some "--" then args.drop 1 else args
  modify fun c => { c with trouble := 2 }
  if args.isEmpty then misuse "missing operand"
  let (value, s) ← (Reckon.either (24 * args.length + 24)).run ⟨args, ""⟩
  match s.rest with
  | extra :: _ => refuse ("syntax error: unexpected argument " ++ Quotation.word extra)
  | [] =>
    putLine value
    return if Reckon.isNothing value then 1 else 0

def dateOptions : Known :=
  .of "d:f:I::r:Rs:u" ("date=d file=f iso-8601?I reference=r rfc-email/R rfc-822/R rfc-2822/R " ++
    "rfc-3339=3 set=s uct/u utc/u universal/u debug/D resolution/e")

def date : Work Nat := do
  let o ← dateOptions.read
  let now ← Run.look fun _ k => k.clock
  let time ← match o.text? 'd', o.text? 'r' with
    | some d, _ =>
      match Moment.ofDate? now d with
      | some t => pure t
      | none => refuse ("invalid date " ++ Quotation.word d)
    | none, some r =>
      match ← Run.facts true r with
      | .ok f => pure f.time
      | .error e => refuse (Quotation.subject r ++ ": " ++ words e)
    | none, none => pure now
  let m := Moment.ofNanos time
  match o.operands with
  | a :: rest =>
    match rest with
    | extra :: _ => misuse ("extra operand " ++ Quotation.word extra)
    | [] => pure ()
    if a.startsWith "+" then
      putLine (m.formatted (a.drop 1).toString)
      return 0
    else refuse ("invalid date " ++ Quotation.word a)
  | [] =>
    let format := match o.given.reverse.find? fun g => "IR3".contains g.letter with
      | some ⟨'R', _⟩ => "%a, %d %b %Y %H:%M:%S %z"
      | some ⟨'I', text⟩ =>
        (match text.getD "date" with
        | "hours" => "%Y-%m-%dT%H%:z"
        | "minutes" => "%Y-%m-%dT%H:%M%:z"
        | "seconds" => "%Y-%m-%dT%H:%M:%S%:z"
        | "ns" => "%Y-%m-%dT%H:%M:%S,%N%:z"
        | _ => "%Y-%m-%d")
      | some ⟨_, text⟩ =>
        (match text.getD "date" with
        | "seconds" => "%Y-%m-%d %H:%M:%S%:z"
        | "ns" => "%Y-%m-%d %H:%M:%S.%N%:z"
        | _ => "%Y-%m-%d")
      | none => "%a %b %e %H:%M:%S %Z %Y"
    putLine (m.formatted format)
    return 0

def condition (bracketed : Bool) : Work Nat := do
  modify fun c => { c with trouble := 2 }
  let args := (← get).arguments
  if bracketed && args.getLast? != some "]" then refuse "missing ']'"
  let args := if bracketed then args.dropLast else args
  match ← Run.look fun process k => Shell.Condition.holds k process args with
  | .ok b => return if b then 0 else 1
  | .error e => refuse e

def factor : Work Nat := do
  let o ← (Known.of "h" "exponents/h").read
  let args ← if o.operands.isEmpty then (do
      let text := (← contents "-").toOption.getD ""
      pure (Text.words text)) else pure o.operands
  let rec factors : Nat → Nat → Nat → List Nat
    | 0, _, _ => []
    | fuel + 1, n, p =>
      if n ≤ 1 then [] else if n < p * p then [n]
      else if n % p = 0 then p :: factors fuel (n / p) p
      else factors fuel n (if p = 2 then 3 else p + 2)
  each (fun s => do
    match s.toNat? with
    | some n =>
      putLine (toString n ++ ":" ++ String.join ((factors 10000000 n 2).map fun p =>
        " " ++ toString p))
    | none => fault (Quotation.word s ++ " is not a valid positive integer")) args
  return (← get).status

def id : Work Nat := do
  let o ← (Known.of "agnruGzZ" "context/Z groups/G group/g name/n real/r user/u zero/z").read
  match o.operands.find? fun u => u != "root" && u != "0" with
  | some u => refuse (Quotation.word u ++ ": no such user")
  | none => pure ()
  let stop := if o.has 'z' then "\x00" else "\n"
  if o.has 'u' || o.has 'g' || o.has 'G' then
    put ((if o.has 'n' then "root" else "0") ++ stop)
  else if o.has 'n' || o.has 'r' then
    refuse "printing only names or real IDs requires -u, -g, or -G"
  else put ("uid=0(root) gid=0(root) groups=0(root)" ++ stop)
  return 0

def uname : Work Nat := do
  let o ← (Known.of "asnrvmpio" ("all/a kernel-name/s nodename/n kernel-release/r " ++
    "kernel-version/v machine/m processor/p hardware-platform/i operating-system/o")).read
  match o.operands with
  | extra :: _ => misuse ("extra operand " ++ Quotation.word extra)
  | [] => pure ()
  let parts := [('s', "Linux"), ('n', "localhost"), ('r', "6.1.0"), ('v', "#1 SMP"),
    ('m', "x86_64"), ('p', "x86_64"), ('i', "x86_64"), ('o', "GNU/Linux")]
  let chosen := parts.filter fun p =>
    if o.has 'a' then true else if o.given.isEmpty then p.1 == 's' else o.has p.1
  putLine (" ".intercalate (chosen.map (·.2)))
  return 0

def fixedLine (s : String) : Work Nat := do
  let _ ← (Known.of "" "").read
  putLine s
  return 0

def which : Work Nat := do
  let o ← (Known.of "as" "all/a").read
  let searchPath := (← setting? "PATH").getD Kernel.defaultSearchPath
  if o.operands.isEmpty then return 1
  each (fun name => do
    let found ← Run.look fun process k =>
      (Kernel.candidates searchPath name).filter fun p =>
        (k.facts process true p).toOption.any fun f => f.isFile && f.mode &&& 0o111 != 0
    if found.isEmpty then setStatus 1
    else if !o.has 's' then each putLine (if o.has 'a' then found else found.take 1)) o.operands
  return (← get).status

def tty : Work Nat := do
  let o ← (Known.of "s" "silent/s quiet/s").read
  if !o.has 's' then putLine "not a tty"
  return 1

def printing : List Program := [
  { name := "[", main := condition true }, { name := "arch", main := fixedLine "x86_64" },
  { name := "date", main := date }, { name := "echo", main := echo },
  { name := "expr", main := expr }, { name := "factor", main := factor },
  { name := "false", main := return 1 }, { name := "groups", main := fixedLine "root" },
  { name := "hostname", main := fixedLine "localhost" }, { name := "id", main := id },
  { name := "logname", main := fixedLine "root" }, { name := "nproc", main := fixedLine "4" },
  { name := "printf", main := printf }, { name := "seq", main := seq },
  { name := "sync", main := return 0 }, { name := "test", main := condition false },
  { name := "true", main := return 0 }, { name := "tty", main := tty },
  { name := "uname", main := uname }, { name := "which", main := which },
  { name := "whoami", main := fixedLine "root" }, { name := "yes", main := yes }]

end CompiledModels.Tool
