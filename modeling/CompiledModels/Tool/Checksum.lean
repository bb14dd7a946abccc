import CompiledModels.Digest
import CompiledModels.Tool.Option
import CompiledModels.Tool.Quotation

namespace CompiledModels.Tool

open Work

structure DigestMethod where
  name : String
  digits : Nat
  digest : Bytes → Bytes

def md5Method : DigestMethod := ⟨"MD5", 32, Md5.digest⟩

def sha1Method : DigestMethod := ⟨"SHA1", 40, Sha1.digest⟩

def sha224Method : DigestMethod := ⟨"SHA224", 56, Sha256.shortDigest⟩

def sha256Method : DigestMethod := ⟨"SHA256", 64, Sha256.digest⟩

def sha384Method : DigestMethod := ⟨"SHA384", 96, Sha512.shortDigest⟩

def sha512Method : DigestMethod := ⟨"SHA512", 128, Sha512.digest⟩

namespace DigestMethod

structure Style where
  tagged : Bool := false
  binary : Bool := false
  stop : Char := '\n'

structure Checking where
  quiet : Bool
  silent : Bool
  strict : Bool
  warns : Bool
  ignoresMissing : Bool

variable (m : DigestMethod)

def digitsOf (s : String) : String := Text.hexOfBytes (m.digest (Text.octetBytes s))

def escapedName (p : String) : String :=
  ((p.replace "\\" "\\\\").replace "\n" "\\n").replace "\x0d" "\\r"

def unescapedName : List Char → List Char
  | '\\' :: 'n' :: rest => '\n' :: unescapedName rest
  | '\\' :: 'r' :: rest => '\x0d' :: unescapedName rest
  | '\\' :: '\\' :: rest => '\\' :: unescapedName rest
  | c :: rest => c :: unescapedName rest
  | [] => []

def line (y : Style) (p digits : String) : String :=
  let escaped := y.stop == '\n' && p.toList.any fun c => c == '\\' || c == '\n' || c == '\x0d'
  let name := if escaped then escapedName p else p
  let mark := if escaped then "\\" else ""
  mark ++ (if y.tagged then m.name ++ " (" ++ name ++ ") = " ++ digits
    else digits ++ (if y.binary then " *" else "  ") ++ name) ++ y.stop.toString

def showAll (y : Style) (files : List String) : Work Unit :=
  each (fun p => do
    match ← contents p with
    | .ok s => put (m.line y p (m.digitsOf s))
    | .error e => fault (Quotation.subject p ++ ": " ++ words e)) files

def isDigest (cs : List Char) : Bool :=
  cs.length = m.digits && cs.all fun c => (Text.hexValue? c).isSome

def readLine? (cs : List Char) : Option (String × String) :=
  let cs := cs.dropWhile fun c => c == ' ' || c == '\t'
  let (escaped, cs) := match cs with
    | '\\' :: rest => (true, rest)
    | _ => (false, cs)
  let name (cs : List Char) : String :=
    String.ofList (if escaped then unescapedName cs else cs)
  let tag := (m.name ++ " (").toList
  if tag.isPrefixOf cs then
    let rest := cs.drop tag.length
    let digits := (rest.reverse.takeWhile (· != ' ')).reverse
    let front := rest.take (rest.length - digits.length)
    let mark := ") = ".toList
    if m.isDigest digits && mark.isSuffixOf front then
      some (name (front.take (front.length - mark.length)), String.ofList digits)
    else none
  else
    let digits := cs.takeWhile fun c => (Text.hexValue? c).isSome
    match cs.drop digits.length with
    | ' ' :: c :: rest =>
      if m.isDigest digits && (c == ' ' || c == '*') && !rest.isEmpty then
        some (name rest, String.ofList digits)
      else none
    | _ => none

structure Tally where
  read : Nat := 0
  malformed : Nat := 0
  missing : Nat := 0
  wrong : Nat := 0
  right : Nat := 0

def checkLine (x : Checking) (p : String) (number : Nat) (t : Tally) (cs : List Char) :
    Work Tally := do
  if cs.head? == some '#' then return t
  match m.readLine? cs with
  | none =>
    if x.warns then
      complain (Quotation.subject p ++ ": " ++ toString number ++ ": improperly formatted " ++
        m.name ++ " checksum line")
    return { t with malformed := t.malformed + 1 }
  | some (name, digits) =>
    let t := { t with read := t.read + 1 }
    match ← contents name with
    | .error e =>
      if x.ignoresMissing && e = .os .noEntry then return t
      complain (Quotation.subject name ++ ": " ++ words e)
      if !x.silent then putLine (name ++ ": FAILED open or read")
      return { t with missing := t.missing + 1 }
    | .ok s =>
      if m.digitsOf s == digits.toLower then
        if !x.silent && !x.quiet then putLine (name ++ ": OK")
        return { t with right := t.right + 1 }
      else
        if !x.silent then putLine (name ++ ": FAILED")
        return { t with wrong := t.wrong + 1 }

def check (x : Checking) (p : String) : Work Unit := do
  match ← contents p with
  | .error e => fault (Quotation.subject p ++ ": " ++ words e)
  | .ok s =>
    let shown := if p == "-" then "'standard input'" else Quotation.subject p
    let rec go (number : Nat) (t : Tally) : List Line → Work Tally
      | [] => return t
      | l :: rest => do go (number + 1) (← m.checkLine x p number t l.text) rest
    let t ← go 1 {} (linesOf '\n' s.toList)
    if t.read = 0 then
      fault (shown ++ ": no properly formatted checksum lines found")
    else
      let warn (n : Nat) (one many : String) : Work Unit := do
        if n != 0 && !x.silent then
          complain ("WARNING: " ++ toString n ++ " " ++ (if n = 1 then one else many))
      warn t.malformed "line is improperly formatted" "lines are improperly formatted"
      warn t.missing "listed file could not be read" "listed files could not be read"
      warn t.wrong "computed checksum did NOT match" "computed checksums did NOT match"
      if x.ignoresMissing && t.right = 0 && t.wrong = 0 && !x.silent then
        complain (shown ++ ": no file was verified")
      if t.wrong != 0 || t.missing != 0 || (x.strict && t.malformed != 0) ||
          (x.ignoresMissing && t.right = 0) then
        setStatus 1

def options : Known :=
  .of "bctwz" ("binary/b check/c text/t warn/w zero/z tag/T quiet/q status/s strict/S " ++
    "ignore-missing/i")

def run (o : Options) (y : Style) : Work Nat := do
  if o.has 'c' then
    if o.has 'T' then misuse "the --tag option is meaningless when verifying checksums"
    let x : Checking :=
      ⟨o.has 'q', o.has 's', o.has 'S', o.has 'w' && !o.has 's', o.has 'i'⟩
    each (m.check x) (orInput o.operands)
  else
    let useless (c : Char) (name : String) : Work Unit := do
      if o.has c then
        misuse ("the --" ++ name ++ " option is meaningful only when verifying checksums")
    useless 'i' "ignore-missing"
    useless 's' "status"
    useless 'w' "warn"
    useless 'q' "quiet"
    useless 'S' "strict"
    m.showAll y (orInput o.operands)
  return (← get).status

def main : Work Nat := do
  let o ← options.read
  m.run o { tagged := o.has 'T', binary := o.last? "bt" == some 'b'
            stop := if o.has 'z' then '\x00' else '\n' }

end DigestMethod

namespace Checksum

def crcBit (n : UInt32) : UInt32 :=
  if n &&& 0x80000000 != 0 then (n <<< 1) ^^^ 0x04c11db7 else n <<< 1

def crcByte (n : UInt32) (b : UInt8) : UInt32 :=
  (List.range 8).foldl (fun n _ => crcBit n) (n ^^^ (b.toUInt32 <<< 24))

def lengthBytes : Nat → Nat → Bytes
  | 0, _ => []
  | fuel + 1, n => if n = 0 then [] else UInt8.ofNat (n % 256) :: lengthBytes fuel (n / 256)

def crc (bytes : Bytes) : Nat :=
  (~~~((bytes ++ lengthBytes 16 bytes.length).foldl crcByte 0)).toNat

def rotatingSum (bytes : Bytes) : Nat :=
  bytes.foldl (fun n b => ((n / 2 + n % 2 * 0x8000) + b.toNat) % 0x10000) 0

def foldedSum (bytes : Bytes) : Nat :=
  let n := bytes.foldl (fun n b => n + b.toNat) 0 % 2 ^ 32
  let n := n % 0x10000 + n / 0x10000
  n % 0x10000 + n / 0x10000

def padded (width : Nat) (c : Char) (n : Nat) : String :=
  let s := toString n
  String.ofList (List.replicate (width - s.length) c) ++ s

def showAll (line : String → Bytes → String) (files : List String) : Work Nat := do
  each (fun p => do
    match ← contents p with
    | .ok s =>
      let name := if files.isEmpty then "" else " " ++ p
      putLine (line name (Text.octetBytes s))
    | .error e => fault (Quotation.subject p ++ ": " ++ words e)) (orInput files)
  return (← get).status

def crcLine (name : String) (bytes : Bytes) : String :=
  toString (crc bytes) ++ " " ++ toString bytes.length ++ name

def rotatingLine (name : String) (bytes : Bytes) : String :=
  padded 5 '0' (rotatingSum bytes) ++ " " ++ padded 5 ' ' ((bytes.length + 1023) / 1024) ++ name

def foldedLine (name : String) (bytes : Bytes) : String :=
  toString (foldedSum bytes) ++ " " ++ toString ((bytes.length + 511) / 512) ++ name

def sum : Work Nat := do
  let o ← (Known.of "rs" "sysv/s").read
  showAll (if o.last? "rs" == some 's' then foldedLine else rotatingLine) o.operands

def methods : List (String × DigestMethod) := [
  ("md5", md5Method), ("sha1", sha1Method), ("sha224", sha224Method),
  ("sha256", sha256Method), ("sha384", sha384Method), ("sha512", sha512Method)]

def cksum : Work Nat := do
  let o ← (Known.of "a:cwz" ("algorithm=a check/c warn/w zero/z tag/T untagged/U quiet/q " ++
    "status/s strict/S ignore-missing/i")).read
  match o.text? 'a' with
  | none => showAll crcLine o.operands
  | some "crc" => showAll crcLine o.operands
  | some "bsd" => showAll rotatingLine o.operands
  | some "sysv" => showAll foldedLine o.operands
  | some name =>
    match methods.find? (·.1 = name) with
    | some (_, m) =>
      m.run o { tagged := !o.has 'U', stop := if o.has 'z' then '\x00' else '\n' }
    | none =>
      complain ("invalid argument " ++ Quotation.word name ++ " for '--algorithm'")
      tell ("Valid arguments are:\n" ++ String.join
        (["bsd", "sysv", "crc", "md5", "sha1", "sha224", "sha256", "sha384", "sha512", "blake2b",
          "sm3"].map fun s => "  - '" ++ s ++ "'\n"))
      pointToHelp

end Checksum

def checksums : List Program :=
  [("md5sum", md5Method), ("sha1sum", sha1Method), ("sha224sum", sha224Method),
    ("sha256sum", sha256Method), ("sha384sum", sha384Method),
    ("sha512sum", sha512Method)].map (fun (name, m) => { name, main := m.main }) ++
  [{ name := "cksum", main := Checksum.cksum }, { name := "sum", main := Checksum.sum }]

end CompiledModels.Tool
