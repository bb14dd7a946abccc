import CompiledModels.Kernel.Signal
import CompiledModels.Tool.Paths

namespace CompiledModels.Tool

open Kernel (Image Run SignalName.description SignalName.number? SignalName.ofNumber)
open Work

def imageOf (bindings : List (String × String)) (name : String) (args : List String) :
    Work (Except FileError Image) :=
  Run.look fun process k => k.find process name args bindings

def start (i : Image) : Work Nat := do
  flush
  Run.fork (Run.become i)

def runToEnd (i : Image) : Work ExitStatus := do
  let child ← start i
  return (← Run.waitFor child).getD (.code 0)

def becomeProgram (bindings : List (String × String)) (message : String → String)
    (name : String) (args : List String) : Work Nat := do
  match ← imageOf bindings name args with
  | .ok i =>
    flush
    Run.become i
  | .error e =>
    complain (message name ++ ": " ++ words e)
    if e = .os .noEntry && name.contains ' ' && (← get).name.endsWith "env" then
      complain "use -[v]S to pass options in shebang lines"
    finish (if e = .os .noEntry then 127 else 126)

def withVariable (name value : String) (vs : List (String × String)) : List (String × String) :=
  if vs.any (·.1 = name) then vs.map fun v => if v.1 = name then (name, value) else v
  else vs ++ [(name, value)]

def splitWords (s : String) : List String :=
  let rec go : Nat → Option Char → Option (List Char) → List Char → List String
    | 0, _, _, _ => []
    | _, _, word, [] => (word.map fun w => String.ofList w.reverse).toList
    | fuel + 1, quote, word, c :: cs =>
      let add (c : Char) : Option (List Char) := some (c :: word.getD [])
      match quote with
      | some q =>
        if c == q then go fuel none (some (word.getD [])) cs
        else if c == '\\' && q == '"' then
          match cs with
          | d :: rest => go fuel quote (add d) rest
          | [] => go fuel quote (add c) cs
        else go fuel quote (add c) cs
      | none =>
        if c == '\'' || c == '"' then go fuel (some c) (some (word.getD [])) cs
        else if Text.isBlank c then
          (word.map fun w => String.ofList w.reverse).toList ++ go fuel none none cs
        else if c == '\\' then
          match cs with
          | d :: rest => go fuel none (add d) rest
          | [] => go fuel none (add c) cs
        else go fuel none (add c) cs
  go (s.length + 1) none none s.toList

def takeAssignments (vs : List (String × String)) : List String → List (String × String) × List String
  | [] => (vs, [])
  | a :: rest =>
    if a.contains '=' then
      let name := String.ofList (a.toList.takeWhile (· != '='))
      takeAssignments (withVariable name (a.drop (name.length + 1)).toString vs) rest
    else (vs, a :: rest)

def envOptions : Known :=
  .of "C:iS:u:v0" ("ignore-environment/i null/0 unset=u chdir=C default-signal?D ignore-signal?I " ++
    "block-signal?B debug/v split-string=S") true

def env : Work Nat := do
  let c ← get
  -- The front of a line in a file is one argument.
  let args := match c.arguments with
    | a :: rest =>
      if a.startsWith "-S" && a != "-S" then splitWords (a.drop 2).toString ++ rest
      else if a.startsWith "-vS" then splitWords (a.drop 3).toString ++ rest
      else if a == "-S" || a == "--split-string" then
        match rest with
        | s :: rest => splitWords s ++ rest
        | [] => [a]
      else c.arguments
    | [] => []
  set { c with trouble := 125 }
  let o ← envOptions.readAll args
  let (bare, operands) := match o.operands with
    | "-" :: rest => (true, rest)
    | rest => (o.has 'i', rest)
  let start := if bare then [] else c.bindings.filter fun v => !(o.texts 'u').contains v.1
  let (vs, command) := takeAssignments start operands
  match o.text? 'C' with
  | some d =>
    if command.isEmpty then misuse "must specify command with --chdir (-C)"
    match ← attempt fun process k => do
        let f ← k.facts process true d
        if !f.isDirectory then throw (.os .notDirectory)
        let l ← k.resolve process true d
        return k.updateProcess process fun p => { p with directory := l } with
    | .ok () => pure ()
    | .error e =>
      refuse ("cannot change directory to " ++ Quotation.always d ++ ": " ++ words e)
  | none => pure ()
  match command with
  | [] =>
    let stop := if o.has '0' then "\x00" else "\n"
    each (fun v => put (v.1 ++ "=" ++ v.2 ++ stop)) vs
    return 0
  | name :: args =>
    if o.has '0' then misuse "cannot specify --null (-0) with command"
    becomeProgram vs Quotation.word name args

def printenv : Work Nat := do
  let c ← get
  set { c with trouble := 2 }
  let o ← (Known.of "0" "null/0" true).read
  let stop := if o.has '0' then "\x00" else "\n"
  if o.operands.isEmpty then
    each (fun v => put (v.1 ++ "=" ++ v.2 ++ stop)) c.bindings
    return 0
  each (fun name => do
    match c.bindings.find? (·.1 = name) with
    | some (_, value) => if name.contains '=' then setStatus 1 else put (value ++ stop)
    | none => setStatus 1) o.operands
  return (← get).status

def durationOf? (s : String) : Option Nat :=
  let cs := s.toList
  let (cs, unit) := match cs.getLast? with
    | some 's' => (cs.dropLast, 1)
    | some 'm' => (cs.dropLast, 60)
    | some 'h' => (cs.dropLast, 3600)
    | some 'd' => (cs.dropLast, 86400)
    | _ => (cs, 1)
  let whole := cs.takeWhile Char.isDigit
  let rest := cs.drop whole.length
  let fraction := (rest.drop 1).takeWhile Char.isDigit
  let number (cs : List Char) : Nat := (String.ofList cs).toNat?.getD 0
  let digits := fraction.take 9
  if String.ofList cs == "infinity" || String.ofList cs == "inf" then some (10 ^ 18)
  else if whole.isEmpty && fraction.isEmpty || rest.length > fraction.length + 1 ||
      rest.head?.any (· != '.') then
    none
  else some (unit * (number whole * 1000000000 + number digits * 10 ^ (9 - digits.length)))

def sleep : Work Nat := do
  let o ← (Known.of "" "").read
  if o.operands.isEmpty then misuse "missing operand"
  let bad := o.operands.filter fun s => (durationOf? s).isNone
  if !bad.isEmpty then
    each (fun s => complain ("invalid time interval " ++ Quotation.word s)) bad
    pointToHelp
  Run.spend ((o.operands.filterMap durationOf?).foldl (· + ·) 0)
  -- The time is over when the next step is done.
  Run.spend 0
  return 0

def waitUntil (child time : Nat) : Work (Option ExitStatus) :=
  Run.await fun _ k =>
    if k.isPresent child then
      match k.collect? child with
      | some (status, k) => some (some status, k)
      | none => if time ≤ k.now then some (none, k) else none
    else some (some (.code 0), k)

def signalOf? (s : String) : Option Nat :=
  let s := s.toUpper
  let s := if s.startsWith "SIG" then (s.drop 3).toString else s
  SignalName.number? s 0

def timeoutOptions : Known :=
  .of "fk:ps:v" "kill-after=k signal=s verbose/v foreground/f preserve-status/p" true

def timeout : Work Nat := do
  let c ← get
  set { c with trouble := 125 }
  let o ← timeoutOptions.read
  let duration (s : String) : Work Nat := do
    match durationOf? s with
    | some n => return n
    | none => misuse ("invalid time interval " ++ Quotation.word s)
  match o.operands with
  | [] => misuse "missing operand"
  | [only] =>
    let _ ← duration only
    misuse ("missing operand after " ++ Quotation.word only)
  | d :: name :: args =>
    let limit ← duration d
    let killAfter ← match o.text? 'k' with
      | some s => do pure (some (← duration s))
      | none => pure none
    let signal ← match o.text? 's' with
      | none => pure 15
      | some s =>
        match signalOf? s with
        | some n => pure n
        | none => misuse (Quotation.word s ++ ": invalid signal")
    match ← imageOf c.bindings name args with
    | .error e =>
      complain ("failed to run command " ++ Quotation.always name ++ ": " ++ words e)
      finish (if e = .os .noEntry then 127 else 126)
    | .ok i =>
      let child ← start i
      let now ← Run.look fun _ k => k.now
      let statusOf : ExitStatus → Work Nat
        | .code n => return n
        | .signal n => return 128 + n
      -- A process that wakes this one when the time is over.
      let alarm ← if limit = 0 then pure 0 else Run.fork (do
        Run.spend limit
        Run.spend 0
        return 0)
      let first ←
        if limit = 0 then Run.waitFor child else waitUntil child (now + limit)
      let quiet : Work Unit := Run.change fun _ k =>
        if alarm = 0 then k else k.send alarm 9
      match first with
      | some status =>
        quiet
        statusOf status
      | none =>
        let kill (signal : Nat) : Work Unit := do
          if o.has 'v' then
            complain ("sending signal " ++ SignalName.ofNumber signal ++ " to command " ++
              Quotation.always name)
          Run.change fun _ k => (k.send child signal).send child 18
        kill signal
        let status ← match killAfter with
          | none => Run.waitFor child
          | some n => do
            let now ← Run.look fun _ k => k.now
            let _ ← Run.fork (do
              Run.spend n
              Run.spend 0
              return 0 : Run Context Nat)
            match ← waitUntil child (now + n) with
            | some status => pure (some status)
            | none =>
              kill 9
              Run.waitFor child
        match status with
        | some (.signal 9) => return 137
        | some s => if o.has 'p' then statusOf s else return 124
        | none => return 124

def nohup : Work Nat := do
  let c ← get
  set { c with trouble := 125 }
  let o ← (Known.of "" "" true).read
  match o.operands with
  | [] => misuse "missing operand"
  | name :: args =>
    Run.change fun process k => k.dispose process 1 true false
    becomeProgram c.bindings (fun name => "failed to run command " ++ Quotation.always name)
      name args

def nice : Work Nat := do
  let c ← get
  set { c with trouble := 125 }
  let o ← (Known.of "n:" "adjustment=n" true).read
  match o.operands with
  | [] =>
    putLine "0"
    return 0
  | name :: args => becomeProgram c.bindings Quotation.always name args

def setsid : Work Nat := do
  let c ← get
  let o ← (Known.of "cfw" "ctty/c fork/f wait/w" true).read
  match o.operands with
  | [] => misuse "no command specified"
  | name :: args => becomeProgram c.bindings (fun name => "failed to execute " ++ name) name args

structure Batching where
  command : List String
  most : Option Nat
  mark : Option String
  shows : Bool
  asks : Bool

def quotedArguments (s : String) : Except String (List (String × Bool)) :=
  let rec go : Nat → Option (List Char) → List Char → List (String × Bool) →
      Except String (List (String × Bool))
    | 0, _, _, done => .ok done.reverse
    | fuel + 1, word, cs, done =>
      let close (ended : Bool) : List (String × Bool) :=
        match word with
        | some w => (String.ofList w.reverse, ended) :: done
        | none =>
          match done with
          | (s, _) :: rest => if ended then (s, true) :: rest else done
          | [] => []
      match cs with
      | [] => .ok (close true).reverse
      | '\n' :: rest => go fuel none rest (close true)
      | ' ' :: rest => go fuel none rest (close false)
      | '\t' :: rest => go fuel none rest (close false)
      | '\\' :: c :: rest => go fuel (some (c :: word.getD [])) rest done
      | c :: rest =>
        if c == '\'' || c == '"' then
          let inside := rest.takeWhile fun d => d != c && d != '\n'
          match rest.drop inside.length with
          | d :: rest =>
            if d == '\n' then .error (if c == '"' then "double" else "single")
            else go fuel (some (inside.reverse ++ word.getD [])) rest done
          | [] => .error (if c == '"' then "double" else "single")
        else go fuel (some (c :: word.getD [])) rest done
  go (s.length + 1) none s.toList []

def batches {α : Type} (most : Nat) : Nat → List α → List (List α)
  | 0, _ => []
  | _, [] => []
  | fuel + 1, as => as.take most :: batches most fuel (as.drop most)

def lineBatches (count : Nat) (as : List (String × Bool)) : List (List String) :=
  let (done, last, _) := as.foldl (fun (done, now, lines) (a, ended) =>
    let lines := if ended then lines + 1 else lines
    if lines = count then ((a :: now).reverse :: done, [], 0) else (done, a :: now, lines))
    (([] : List (List String)), ([] : List String), 0)
  (if last.isEmpty then done else last.reverse :: done).reverse

def replaceMark (mark new s : String) : String :=
  if mark.isEmpty then s else new.intercalate (s.splitOn mark)

def xargsOptions : Known :=
  .of "0a:E:e::i::I:l::L:n:prs:txP:d:" ("null/0 arg-file=a delimiter=d eof?e replace?i max-lines?l " ++
    "max-args=n interactive/p no-run-if-empty/r max-chars=s verbose/t show-limits/S exit/x " ++
    "max-procs=P process-slot-var=V open-tty/o") true

def delimiterOf (s : String) : Work Char := do
  match s.toList with
  | [c] => return c
  | ['\\', 'n'] => return '\n'
  | ['\\', 't'] => return '\t'
  | ['\\', '0'] => return '\x00'
  | ['\\', 'r'] => return '\x0d'
  | ['\\', '\\'] => return '\\'
  | _ => refuse ("Invalid input delimiter specification " ++ s ++ ": the delimiter must be either " ++
      "a single character or an escape sequence starting with \\.")

def xargs : Work Nat := do
  let c ← get
  let o ← xargsOptions.read
  let number (l : Char) : Work (Option Nat) := do
    match o.text? l with
    | none => return none
    | some s =>
      match s.toNat? with
      | some (n + 1) => return some (n + 1)
      | some 0 =>
        complain ("value " ++ s ++ " for -" ++ l.toString ++ " option should be >= 1")
        pointToHelp
      | none =>
        complain ("invalid number \"" ++ s ++ "\" for -" ++ l.toString ++ " option")
        pointToHelp
  let most ← number 'n'
  let lines ← number 'L'
  let lines := lines.or (if o.has 'l' then some (((o.text? 'l').bind (·.toNat?)).getD 1) else none)
  let mark := if o.has 'I' then o.text? 'I'
    else if o.has 'i' then some ((o.text? 'i').getD "\x7b\x7d") else none
  let text ← match ← contents ((o.text? 'a').getD "-") with
    | .ok s => pure s
    | .error e =>
      refuse ("Cannot open input file " ++ Quotation.always ((o.text? 'a').getD "-") ++ ": " ++
        words e)
  let delimiter ← match o.text? 'd' with
    | some s => do pure (some (← delimiterOf s))
    | none => pure (if o.has '0' then some '\x00' else none)
  let args : List (String × Bool) ← match delimiter with
    | some d => pure ((linesOf d text.toList).map fun l => (String.ofList l.text, true))
    | none =>
      if mark.isSome then
        let ls := (linesOf '\n' text.toList).map fun l => l.text.dropWhile isBlankCharacter
        let parts ← (ls.filter (!·.isEmpty)).mapM fun cs => do
          -- Blanks belong to the text here.
          let protectedText := cs.flatMap fun c =>
            if c == ' ' || c == '\t' then ['\\', c] else [c]
          match quotedArguments (String.ofList protectedText) with
          | .ok as => return (String.join (as.map (·.1)), true)
          | .error kind => unmatched kind
        pure parts
      else match quotedArguments text with
        | .ok as => pure as
        | .error kind => unmatched kind
  let args := match o.text? 'E' with
    | some stop => args.takeWhile (·.1 != stop)
    | none => args
  let command := if o.operands.isEmpty then ["echo"] else o.operands
  let b : Batching := { command, most, mark, shows := o.has 't' || o.has 'p', asks := o.has 'p' }
  let commands : List (List String) := match b.mark with
    | some mark => args.map fun a => b.command.map (replaceMark mark a.1)
    | none =>
      let groups := match lines, b.most with
        | some n, _ => lineBatches n args
        | none, some n => batches n (args.length + 1) (args.map (·.1))
        | none, none => if args.isEmpty then [] else [args.map (·.1)]
      let groups := if groups.isEmpty && !o.has 'r' then [[]] else groups
      groups.map (b.command ++ ·)
  let noInput : Work Unit := do
    if !o.has 'a' then
      Run.close 0
      let _ ← Run.openFile "/dev/null" .reading
  noInput
  each (fun cmd => do
    if b.shows then
      tell (" ".intercalate (cmd.map Quotation.sparing) ++ (if b.asks then "?..." else "\n"))
    if !b.asks then
      match ← imageOf c.bindings (cmd.headD "") (cmd.drop 1) with
      | .error e =>
        complain (cmd.headD "" ++ ": " ++ words e)
        finish (if e = .os .noEntry then 127 else 126)
      | .ok i =>
        match ← runToEnd i with
        | .code 255 =>
          complain (cmd.headD "" ++ ": exited with status 255; aborting")
          finish 124
        | .code 0 => pure ()
        | .code _ => setStatus 123
        | .signal n =>
          complain (cmd.headD "" ++ ": terminated by signal " ++ toString n)
          finish 125) commands
  return (← get).status
where
  isBlankCharacter (c : Char) : Bool := c == ' ' || c == '\t'
  unmatched {α : Type} (kind : String) : Work α :=
    refuse ("unmatched " ++ kind ++ " quote; by default quotes are special to xargs unless you " ++
      "use the -0 option")

def killProgram : Work Nat := do
  let c ← get
  let (signal, rest) : Option Nat × List String := match c.arguments with
    | "-s" :: s :: rest => (signalOf? s, rest)
    | a :: rest =>
      if a.startsWith "-" && a != "--" && a != "-l" then (signalOf? (a.drop 1).toString, rest)
      else (some 15, a :: rest)
    | [] => (some 15, [])
  match signal, rest with
  | none, _ => refuse ("unknown signal name " ++ ((c.arguments.head?.map fun a =>
      if a == "-s" then (c.arguments[1]?).getD "" else (a.drop 1).toString).getD ""))
  | some _, "-l" :: names =>
    let names := if names.isEmpty then (List.range 31).map (toString <| · + 1) else names
    each (fun s => match s.toNat? with
      | some n => putLine (SignalName.ofNumber (if 128 < n then n - 128 else n))
      | none => putLine (toString ((signalOf? s).getD 0))) names
    return 0
  | some signal, rest =>
    let rest := if rest.head? == some "--" then rest.drop 1 else rest
    if rest.isEmpty then
      complain "not enough arguments"
      finish 1
    each (fun s => do
      match s.toNat? with
      | none => refuse ("cannot find process \"" ++ s ++ "\"")
      | some n =>
        let sent ← Run.act fun _ k =>
          if k.isPresent n then (true, k.send n signal) else (false, k)
        if !sent then fault ("sending signal to " ++ s ++ " failed: No such process")) rest
    return (← get).status

def launchers : List Program := [
  { name := "env", main := env }, { name := "kill", main := killProgram },
  { name := "nice", main := nice }, { name := "nohup", main := nohup },
  { name := "printenv", main := printenv }, { name := "setsid", main := setsid },
  { name := "sleep", main := sleep }, { name := "timeout", main := timeout },
  { name := "xargs", main := xargs }]

end CompiledModels.Tool
