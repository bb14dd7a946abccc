import CompiledModels.Number.Rounded
import CompiledModels.Shell.Arithmetic

namespace CompiledModels.Shell

structure FormatRules where
  precision : Rounded.Precision
  lead : Nat
  extended : Bool
  sizes : List Char
  notNumber : String → String
  notWhole : String → String
  outOfRange : String → String
  unknown : String → String
  quote : String → String := id
  status : Nat

namespace Format

def takeOctal : Nat → Nat → List Char → Nat × List Char
  | 0, n, cs => (n, cs)
  | most + 1, n, c :: cs =>
    if '0' ≤ c ∧ c ≤ '7' then takeOctal most (n * 8 + (c.toNat - 0x30)) cs else (n, c :: cs)
  | _ + 1, n, [] => (n, [])

def escape? (c : Char) : Option Char :=
  match c with
  | 'a' => some '\x07'
  | 'b' => some '\x08'
  | 'e' => some '\x1b'
  | 'f' => some '\x0c'
  | 'n' => some '\n'
  | 'r' => some '\x0d'
  | 't' => some '\t'
  | 'v' => some '\x0b'
  | '\\' => some '\\'
  | _ => none

def octet (n : Nat) : Char := Char.ofNat (n % 256)

/-- A text with escapes in which a zero stands in front of three octal digits; the second result
says that `\c` cut the text off. -/
def unescape (extended : Bool) : Nat → List Char → List Char × Bool
  | 0, _ => ([], false)
  | fuel + 1, cs =>
    let more (c : List Char) (rest : List Char) : List Char × Bool :=
      let (text, isCut) := unescape extended fuel rest
      (c ++ text, isCut)
    match cs with
    | [] => ([], false)
    | '\\' :: c :: rest =>
      if c == 'c' then ([], true)
      else if c == 'x' && extended && rest.head?.any Rounded.isHexDigit then
        let digits := (rest.take 2).takeWhile Rounded.isHexDigit
        more [octet (digits.foldl (fun n c => n * 16 + Rounded.digitOf c) 0)]
          (rest.drop digits.length)
      else if '0' ≤ c ∧ c ≤ '7' then
        let (n, rest) := if c == '0' then takeOctal 3 0 rest else takeOctal 3 0 (c :: rest)
        more [octet n] rest
      else match escape? c with
        | some c => more [c] rest
        | none => more ['\\'] (c :: rest)
    | c :: rest => more [c] rest

def unescaped (extended : Bool) (s : String) : String × Bool :=
  let (cs, isCut) := unescape extended (s.length + 1) s.toList
  (String.ofList cs, isCut)

inductive Amount
  | number (n : Nat)
  | argument

inductive Directive
  | text (s : String)
  | convert (flags : List Char) (width : Amount) (precision : Option Amount) (letter : Char)
  | stop
  | invalid (complaint : String)

namespace Directive

def readAmount (cs : List Char) : Amount × List Char :=
  match cs with
  | '*' :: rest => (.argument, rest)
  | _ =>
    let digits := cs.takeWhile Char.isDigit
    (.number ((String.ofList digits).toNat?.getD 0), cs.drop digits.length)

def letters (rules : FormatRules) : List Char :=
  "sbcdiuxXofFeEgGaA".toList ++ (if rules.extended then ['q'] else [])

def read (rules : FormatRules) : Nat → List Char → List Directive
  | 0, _ => []
  | fuel + 1, cs =>
    match cs with
    | [] => []
    | '%' :: '%' :: rest => text "%" :: read rules fuel rest
    | '%' :: rest =>
      let flags := rest.takeWhile "-0+ #".toList.contains
      let (width, rest) := readAmount (rest.drop flags.length)
      let (precision, rest) := match rest with
        | '.' :: rest =>
          let (p, rest) := readAmount rest
          (some p, rest)
        | rest => (none, rest)
      let rest := rest.dropWhile rules.sizes.contains
      match rest with
      | c :: rest =>
        if (letters rules).contains c then convert flags width precision c :: read rules fuel rest
        else [invalid (rules.unknown (String.ofList (cs.take (cs.length - rest.length))))]
      | [] =>
        [invalid (if rules.extended then rules.unknown (String.ofList cs)
          else "missing format character")]
    | '\\' :: c :: rest =>
      if '0' ≤ c ∧ c ≤ '7' then
        let (n, rest) := takeOctal 3 0 (c :: rest)
        text (octet n).toString :: read rules fuel rest
      else if rules.extended && c == 'c' then [stop]
      else if rules.extended && c == '"' then text "\"" :: read rules fuel rest
      else if rules.extended && c == 'x' then
        let digits := (rest.take 2).takeWhile Rounded.isHexDigit
        if digits.isEmpty then [invalid "missing hexadecimal number in escape"]
        else
          let n := digits.foldl (fun n c => n * 16 + Rounded.digitOf c) 0
          text (octet n).toString :: read rules fuel (rest.drop digits.length)
      else if rules.extended && (c == 'u' || c == 'U') then
        let count := if c == 'u' then 4 else 8
        let digits := (rest.take count).takeWhile Rounded.isHexDigit
        if digits.length < count then [invalid "missing hexadecimal number in escape"]
        else
          let n := digits.foldl (fun n c => n * 16 + Rounded.digitOf c) 0
          let shown := String.ofList (Nat.toDigits 16 n)
          let shown := (Rounded.zeros ((if n < 65536 then 4 else 8) - shown.length) ++ shown).toUpper
          if n < 0xa0 && n != 0x24 && n != 0x40 && n != 0x60 then
            [invalid ("invalid universal character name \\" ++ c.toString ++
              String.ofList digits)]
          else if n < 0x80 then text (octet n).toString :: read rules fuel (rest.drop count)
          else
            text ("\\" ++ (if n < 65536 then "u" else "U") ++ shown) ::
              read rules fuel (rest.drop count)
      else match escape? c with
        | some c => text c.toString :: read rules fuel rest
        | none => text "\\" :: read rules fuel (c :: rest)
    | c :: rest => text c.toString :: read rules fuel rest

end Directive

structure Filling where
  arguments : List String
  asked : Bool := false
  output : List String := []
  complaints : List (Nat × String) := []
  status : Nat := 0
  failure : Option String := none
  ended : Bool := false

abbrev Fill := StateM Filling

namespace Filling

def argument? : Fill (Option String) := do
  let p ← get
  set { p with arguments := p.arguments.drop 1, asked := true }
  return p.arguments.head?

def put (s : String) : Fill Unit := modify fun p => { p with output := s :: p.output }

def complain (message : String) (status : Nat) : Fill Unit :=
  modify fun p => { p with complaints := p.complaints ++ [(p.output.length, message)], status }

def warn (message : String) : Fill Unit := do complain message (← get).status

def quoted? (s : String) : Option (Nat × List Char) :=
  match s.toList with
  | q :: cs =>
    if q == '\'' || q == '"' then some ((cs.head?.map (·.toNat)).getD 0, cs.drop 1) else none
  | [] => none

variable (rules : FormatRules)

def quotedNumber (n : Nat) (rest : List Char) : Fill Nat := do
  if rules.extended && !rest.isEmpty then
    warn ("warning: " ++ String.ofList rest ++
      ": character(s) following character constant have been ignored")
  return n

def check (s : String) (rest : List Char) (inRange : Bool) : Fill Unit := do
  if !rest.isEmpty then
    complain (if rest.length = s.length then rules.notNumber s else rules.notWhole s) 1
  else if !inRange then complain (rules.outOfRange s) 1

def integer (signed : Bool) : Fill Int := do
  match ← argument? with
  | none => return 0
  | some s =>
    match quoted? s with
    | some (n, rest) => return (← quotedNumber rules n rest)
    | none =>
      let (n, rest) := Arithmetic.integerAt s.toList
      let least : Int := if signed then -(2 ^ 63) else -(2 ^ 64 - 1)
      let most : Int := if signed then 2 ^ 63 - 1 else 2 ^ 64 - 1
      check rules s rest (least ≤ n && n ≤ most)
      if signed then return max least (min most n)
      else if least ≤ n && n ≤ most then return n % 2 ^ 64 else return most

def amount : Amount → Fill Int
  | .number n => return n
  | .argument => integer rules true

def real : Fill Rounded := do
  match ← argument? with
  | none => return ⟨false, .ratio 0 1⟩
  | some s =>
    match quoted? s with
    | some (n, rest) => return ⟨false, .ratio (← quotedNumber rules n rest) 1⟩
    | none =>
      let (r, rest) := Rounded.read rules.precision s.toList
      let named := (s.toList.any fun c => c == 'n' || c == 'N')
      check rules s rest (r.magnitude != .infinite || named)
      return r

def padded (width : Nat) (left : Bool) (s : String) : String :=
  let gap := String.ofList (List.replicate (width - s.length) ' ')
  if left then s ++ gap else gap ++ s

def framed (width : Nat) (left zeros : Bool) (sign digits : String) : String :=
  let gap := if zeros && !left then Rounded.zeros (width - sign.length - digits.length) else ""
  padded width left (sign ++ gap ++ digits)

def signText (flags : List Char) (negative : Bool) : String :=
  if negative then "-" else if flags.contains '+' then "+" else if flags.contains ' ' then " " else ""

def integerText (letter : Char) (flags : List Char) (width : Nat) (left : Bool)
    (precision : Option Nat) (n : Int) : String :=
  let signed := letter == 'd' || letter == 'i'
  let base := if letter == 'o' then 8 else if letter == 'x' || letter == 'X' then 16 else 10
  let digits := String.ofList (Nat.toDigits base n.natAbs)
  let digits := if letter == 'X' then digits.toUpper else digits
  let digits := if precision = some 0 && n = 0 then "" else digits
  let digits := Rounded.zeros (precision.getD 1 - digits.length) ++ digits
  let marked := flags.contains '#'
  let digits :=
    if marked && letter == 'o' && !digits.startsWith "0" then "0" ++ digits else digits
  let sign :=
    if signed then signText flags (n < 0)
    else if marked && n != 0 && (letter == 'x' || letter == 'X') then "0" ++ letter.toString
    else ""
  framed width left (flags.contains '0' && precision.isNone) sign digits

def realText (letter : Char) (flags : List Char) (width : Nat) (left : Bool)
    (precision : Option Nat) (r : Rounded) : String :=
  let small := letter.toLower
  let raised (s : String) : String := if letter == small then s else s.toUpper
  let sign := signText flags r.negative
  let point := flags.contains '#'
  let places := precision.getD 6
  let zeros := flags.contains '0'
  match r.magnitude with
  | .infinite => padded width left (sign ++ raised "inf")
  | .undefined => padded width left (sign ++ raised "nan")
  | .ratio num den =>
    match small with
    | 'f' => framed width left zeros sign (Rounded.fixed places point num den)
    | 'e' => framed width left zeros sign (raised (Rounded.scientific 'e' places point num den))
    | 'g' => framed width left zeros sign (raised (Rounded.general 'e' places point num den))
    | _ =>
      let s := Rounded.hexadecimal rules.precision rules.lead num den
      framed width left zeros (sign ++ raised "0x") (raised (s.drop 2).toString)

def fill (d : Directive) : Fill Unit := do
  if (← get).ended then return ()
  match d with
  | .text s => put s
  | .stop => modify fun p => { p with ended := true }
  | .invalid s =>
    modify fun p => { p with ended := true, failure := some s, status := rules.status }
  | .convert flags width precision letter =>
    let width ← amount rules width
    let precision ← match precision with
      | some a => do
        let n ← amount rules a
        pure (if n < 0 then none else some n.toNat)
      | none => pure none
    let left := flags.contains '-' || width < 0
    let width := width.natAbs
    let cut (s : String) : String := precision.elim s fun n => (s.take n).toString
    match letter with
    | 'q' => put (rules.quote ((← argument?).getD ""))
    | 's' => put (padded width left (cut ((← argument?).getD "")))
    | 'c' =>
      let first := ((← argument?).getD "").toList.head?.getD '\x00'
      put (padded width left first.toString)
    | 'b' =>
      let (s, isCut) := unescaped rules.extended ((← argument?).getD "")
      put (padded width left (cut s))
      if isCut then modify fun p => { p with ended := true }
    | _ =>
      if "fFeEgGaA".toList.contains letter then
        put (realText rules letter flags width left precision (← real rules))
      else
        let signed := letter == 'd' || letter == 'i'
        put (integerText letter flags width left precision (← integer rules signed))

def fillAll (ds : List Directive) : Nat → Fill Unit
  | 0 => return ()
  | fuel + 1 => do
    modify fun p => { p with asked := false }
    for d in ds do fill rules d
    let p ← get
    if p.ended || p.arguments.isEmpty || !p.asked then return () else fillAll ds fuel

end Filling

def Filling.inOrder (p : Filling) : List (Bool × String) :=
  let rec go (n : Nat) (out : List String) : List (Nat × String) → List (Bool × String)
    | [] => out.map (false, ·)
    | (m, c) :: rest =>
      (out.take (m - n)).map (false, ·) ++ (true, c) :: go (max n m) (out.drop (m - n)) rest
  go 0 p.output.reverse p.complaints

def apply (rules : FormatRules) (format : String) (args : List String) : Filling :=
  let ds := Directive.read rules (format.length + 1) format.toList
  ((Filling.fillAll rules ds (args.length + 1)).run { arguments := args }).2

def echo (args : List String) : String :=
  let (newline, args) := match args with
    | "-n" :: rest => (false, rest)
    | args => (true, args)
  let (text, isCut) := unescaped false (" ".intercalate args)
  if newline && !isCut then text ++ "\n" else text

def shellRules : FormatRules where
  precision := Rounded.double
  lead := 1
  extended := false
  sizes := []
  notNumber s := s ++ ": expected numeric value"
  notWhole s := s ++ ": not completely converted"
  outOfRange s := s ++ ": Numerical result out of range"
  unknown s := s ++ ": invalid directive"
  status := 2

end Format

end CompiledModels.Shell
