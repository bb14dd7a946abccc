import CompiledModels.Regex.Reader
import CompiledModels.Tool.Option
import CompiledModels.Tool.Quotation

namespace CompiledModels.Tool

open Kernel (Run)
open Work

structure Marks where
  numbers : Bool := false
  sparing : Bool := false
  ends : Bool := false
  tabs : Bool := false
  hidden : Bool := false
  squeezes : Bool := false

structure Marking where
  ends : Option Nat := some 0
  line : Nat := 0
  returned : Bool := false

namespace Marks

variable (m : Marks)

def shown (c : Char) : String :=
  let low (n : Nat) : String :=
    if n < 32 then "^" ++ (Char.ofNat (n + 64)).toString
    else if n = 127 then "^?" else (Char.ofNat n).toString
  if c == '\t' then (if m.tabs then "^I" else "\t")
  else if !m.hidden then c.toString
  else if c.toNat < 128 then low c.toNat
  else "M-" ++ low (c.toNat - 128)

def number (n : Nat) : String := Text.alignRight 6 (toString n) ++ "\t"

def next (s : Marking) (c : Char) : String × Marking :=
  let pending := if s.returned then (if c == '\n' then "^M" else "\x0d") else ""
  if c == '\n' then
    let ends := (s.ends.map (· + 1)).getD 0
    if m.squeezes && 2 ≤ ends then ("", { s with ends := some 2 })
    else
      let counted := 1 ≤ ends && m.numbers && !m.sparing
      let line := if counted then s.line + 1 else s.line
      (pending ++ (if counted then number line else "") ++ (if m.ends then "$\n" else "\n"),
        { ends := some ends, line })
  else
    let counted := s.ends.isSome && m.numbers
    let line := if counted then s.line + 1 else s.line
    let start := pending ++ (if counted then number line else "")
    if c == '\x0d' && m.ends && !m.hidden then (start, { ends := none, line, returned := true })
    else (start ++ m.shown c, { ends := none, line })

end Marks

def catOptions : Known :=
  .of "AbeEnstTuv" ("number-nonblank/b number/n squeeze-blank/s show-nonprinting/v " ++
    "show-ends/E show-tabs/T show-all/A")

def feedsItself (d : Nat) : Work Bool :=
  Run.look fun process k =>
    match k.opened? process d, k.opened? process 1 with
    | some (_, a), some (_, b) =>
      match a.target with
      | .file n =>
        let size := (k.contentOf n).size
        a.target = b.target && a.position < (if b.appends then size else b.position)
      | _ => false
    | _, _ => false

def cat : Work Nat := do
  let o ← catOptions.read
  let m : Marks :=
    { numbers := o.has 'n' || o.has 'b', sparing := o.has 'b'
      ends := o.has 'E' || o.has 'e' || o.has 'A', tabs := o.has 'T' || o.has 't' || o.has 'A'
      hidden := o.has 'v' || o.has 'e' || o.has 't' || o.has 'A', squeezes := o.has 's' }
  let plain := o.given.all (·.letter = 'u')
  if (← Run.look fun process k => (k.opened? process 1).isNone) then
    refuse ("standard output: " ++ words (.os .badDescriptor))
  let rec go (s : Marking) : List String → Work Marking
    | [] => return s
    | p :: rest => do
      match ← openInput p with
      | .error e =>
        fault (Quotation.subject p ++ ": " ++ words e)
        go s rest
      | .ok d =>
        if ← feedsItself d then
          fault (Quotation.subject p ++ ": input file is output file")
          closeInput d
          go s rest
        else
          let rec blocks (s : Marking) : Nat → Work (Option FileError × Marking)
            | 0 => hang
            | turns + 1 => do
              match ← Run.read d Run.blockSize with
              | .error e => return (some e, s)
              | .ok [] => return (none, s)
              | .ok bytes =>
                let text := Text.octets bytes
                if plain then
                  put text
                  flush
                  blocks s turns
                else
                  let (parts, s) := text.foldl (fun (parts, s) c =>
                    let (part, s) := m.next s c
                    (part :: parts, s)) (([] : List String), s)
                  put (String.join parts.reverse)
                  flush
                  blocks s turns
          let (failure, s) ← blocks s maxTurns
          match failure with
          | some e => fault (Quotation.subject p ++ ": " ++ words e)
          | none => pure ()
          closeInput d
          go s rest
  let s ← go {} (orInput o.operands)
  if s.returned then put "\x0d"
  if (orInput o.operands).contains "-" &&
      (← Run.look fun process k => (k.opened? process 0).isNone) then
    fault ("closing standard input: " ++ words (.os .badDescriptor))
  return (← get).status

def pieces (before : Bool) (separator : List Char) : Nat → List Char → List Char → List (List Char)
  | 0, part, cs => [part.reverse ++ cs]
  | _, part, [] => if part.isEmpty then [] else [part.reverse]
  | fuel + 1, part, c :: cs =>
    if separator.isPrefixOf (c :: cs) then
      let rest := (c :: cs).drop separator.length
      if before then
        (if part.isEmpty then [] else [part.reverse]) ++
          pieces before separator fuel separator.reverse rest
      else (part.reverse ++ separator) :: pieces before separator fuel [] rest
    else pieces before separator fuel (c :: part) cs

def tac : Work Nat := do
  let o ← (Known.of "brs:" "before/b regex/r separator=s").read
  let separator := (o.text? 's').getD "\n"
  if separator.isEmpty && o.has 'r' then refuse "separator cannot be empty"
  let separator := if separator.isEmpty then ['\x00'] else separator.toList
  each (fun p => do
    match ← openInput p with
    | .error e =>
      fault ("failed to open " ++ Quotation.always p ++ " for reading: " ++ words e)
    | .ok d =>
      match ← Run.readAll d with
      | .error e =>
        closeInput d
        let e := if e = .os .isDirectory then .os .invalid else e
        fault (Quotation.subject p ++ ": read error: " ++ words e)
      | .ok bytes =>
        closeInput d
        let cs := (Text.octets bytes).toList
        let parts := pieces (o.has 'b') separator (cs.length + 1) [] cs
        each putChars parts.reverse) (orInput o.operands)
  return (← get).status

def rev : Work Nat := do
  let o ← (Known.of "V0" "version/V zero/0").read
  let stop := if o.has '0' then '\x00' else '\n'
  withFiles (fun p e => "cannot open " ++ p ++ ": " ++ e) (fun _ d => do
    let _ ← forLines stop d fun l => do
      put ((⟨l.text.reverse, l.ended⟩ : Line).full stop)
      return true) (orInput o.operands)
  return (← get).status

inductive Numbered
  | all
  | filled
  | none
  | matching (r : Regex)

namespace Numbered

def read (s : String) : Work Numbered := do
  match s.toList with
  | ['a'] => return .all
  | ['t'] => return .filled
  | ['n'] => return .none
  | 'p' :: cs =>
    match Regex.read ⟨false, false⟩ cs with
    | .ok (r, _) => return .matching r
    | .error e => refuse e
  | _ => misuse ("invalid body numbering style: " ++ Quotation.word s)

def applies (n : Numbered) (cs : List Char) : Bool :=
  match n with
  | .all => true
  | .filled => !cs.isEmpty
  | .none => false
  | .matching r => (r.find? { text := cs.toArray } 0).isSome

end Numbered

def numberField (format : String) (width : Nat) (n : Int) : String :=
  match format with
  | "ln" => Text.alignLeft width (toString n)
  | "rz" =>
    let digits := toString n.natAbs
    let sign := if n < 0 then "-" else ""
    sign ++ String.ofList (List.replicate (width - sign.length - digits.length) '0') ++ digits
  | _ => Text.alignRight width (toString n)

structure Counting where
  number : Int
  overflown : Bool := false
  blanks : Nat := 0
  part : Nat := 1

def nl : Work Nat := do
  let o ← (Known.of "h:b:f:v:i:pl:s:w:n:d:" ("header-numbering=h body-numbering=b " ++
    "footer-numbering=f starting-line-number=v line-increment=i no-renumber/p join-blank-lines=l " ++
    "number-separator=s number-width=w number-format=n section-delimiter=d")).read
  let number (c : Char) (unset : Int) (what : String) : Work Int := do
    match o.text? c with
    | none => return unset
    | some s =>
      match s.toInt? with
      | some n => return n
      | none => refuse ("invalid " ++ what ++ ": " ++ Quotation.word s)
  let start ← number 'v' 1 "starting line number"
  let step ← number 'i' 1 "line number increment"
  let width ← number 'w' 6 "line number field width"
  let blanks ← number 'l' 1 "line number of blank lines"
  let separator := (o.text? 's').getD "\t"
  let format := (o.text? 'n').getD "rn"
  if ! ["ln", "rn", "rz"].contains format then
    misuse ("invalid line numbering format: " ++ Quotation.word format)
  let header ← Numbered.read ((o.text? 'h').getD "n")
  let body ← Numbered.read ((o.text? 'b').getD "t")
  let footer ← Numbered.read ((o.text? 'f').getD "n")
  let mark := ((o.text? 'd').getD "\\:").toList
  let mark := if mark.length = 1 then mark ++ [':'] else mark
  let empty := String.ofList (List.replicate (width.toNat + separator.length) ' ')
  let styleOf (part : Nat) : Numbered := if part = 0 then header else if part = 1 then body else footer
  let lineOf (s : Counting) (cs : List Char) : String × Counting :=
    let isPart := if mark.isEmpty then none
      else if cs == mark ++ mark ++ mark then some 0
      else if cs == mark ++ mark then some 1
      else if cs == mark then some 2 else none
    match isPart with
    | some part =>
      ("\n", { s with part, number := if o.has 'p' then s.number else start, blanks := 0 })
    | none =>
      let counted (s : Counting) : String × Counting :=
        (numberField format width.toNat s.number ++ separator ++ String.ofList cs ++ "\n",
          { s with number := s.number + step, blanks := 0 })
      let bare (s : Counting) : String × Counting := (empty ++ String.ofList cs ++ "\n", s)
      match styleOf s.part with
      | .all =>
        if 1 < blanks && cs.isEmpty then
          if (s.blanks + 1 : Int) == blanks then counted s
          else bare { s with blanks := s.blanks + 1 }
        else counted s
      | style => if style.applies cs then counted s else bare s
  let rec go (s : Counting) : List String → Work Unit
    | [] => return ()
    | p :: rest => do
      match ← contents p with
      | .error e =>
        fault (Quotation.subject p ++ ": " ++ words e)
        go s rest
      | .ok text =>
        let (parts, s) := (linesOf '\n' text.toList).foldl (fun (parts, s) l =>
          let (part, s) := lineOf s l.text
          (part :: parts, s)) (([] : List String), s)
        each put parts.reverse
        go s rest
  go { number := start } (orInput o.operands)
  return (← get).status

def concatenation : List Program := [
  { name := "cat", main := cat }, { name := "nl", main := nl }, { name := "rev", main := rev },
  { name := "tac", main := tac }]

end CompiledModels.Tool
