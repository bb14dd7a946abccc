import CompiledModels.Shell.Builtin.Option
import CompiledModels.Shell.Job

namespace CompiledModels.Shell.Builtin

open Eval
open Kernel (Run SignalName.ofNumber SignalName.number? SignalName.count)

def killUsage : String :=
  "Usage: kill [-s sigspec | -signum | -sigspec] [pid | job]... or\nkill -l [exitstatus]"

def listSignals : List String → Eval Nat
  | [] => do
    say "0\n"
    for n in (List.range SignalName.count).drop 1 do say (SignalName.ofNumber n ++ "\n")
    return 0
  | a :: _ => do
    let n ← number a
    let n := if 128 < n then n - 128 else n
    if n = 0 || SignalName.count ≤ n then fail ("invalid signal number or exit status: " ++ a)
    say (SignalName.ofNumber n ++ "\n")
    return 0

def sendTo (signal target : Nat) : Eval Bool :=
  lift (Run.act fun process k =>
    if k.isPresent target then (true, k.send target signal)
    else (signal = 0 && (target = 1 || (k.process? process).any (·.parent = target)), k))

def sendAll (signal : Nat) : List String → Eval Nat
  | [] => return 0
  | a :: rest => do
    let target : Option Nat ←
      if a.startsWith "%" then pure (some (← jobNamed a).leader)
      else if a.startsWith "-" then
        let _ ← number (a.drop 1).toString
        pure none
      else pure (some (← number a))
    let sent ← match target with
      | some n => sendTo signal n
      | none => pure false
    if !sent then complain "No such process\n"
    let status ← sendAll signal rest
    return if sent then status else 1

def kill (args : List String) : Eval Nat := do
  match args with
  | [] => fail killUsage
  | a :: rest =>
    if !a.startsWith "-" then sendAll 15 args
    else match SignalName.number? (a.drop 1).toString 1 with
      | some n => if rest.isEmpty then fail killUsage else sendAll n rest
      | none =>
        let o ← options "ls:" args
        let signal ← match o.value? 's' with
          | none => pure 15
          | some name =>
            match SignalName.number? name 1 with
            | some n => pure n
            | none => fail ("invalid signal number or name: " ++ name)
        if o.has 'l' then
          if o.has 's' then fail killUsage else listSignals o.rest
        else if o.rest.isEmpty then fail killUsage
        else sendAll signal o.rest

def standing (j : Job) : String :=
  if !j.isDone then "Running"
  else match j.outcome? with
    | some (.code 0) => "Done"
    | some (.code n) => "Done(" ++ toString n ++ ")"
    | some (.signal n) => Kernel.SignalName.description n
    | none => ""

def pad (width : Nat) (s : String) : String :=
  s ++ String.ofList (List.replicate (width - s.length) ' ')

def jobWidth : Nat := 33

def showJob (numbered : Bool) (sign : String) (j : Job) : String :=
  let start := "[" ++ toString j.number ++ "] " ++ sign ++ " "
  let process (i : Nat) : String :=
    toString (((j.processes[i]?).map (·.1)).getD 0) ++ " "
  if numbered then
    let first := pad jobWidth (start ++ process 0 ++ standing j)
    let gap := String.ofList (List.replicate start.length ' ')
    let others := ((List.range j.processes.length).drop 1).map fun i =>
      " |\n" ++ pad jobWidth (gap ++ process i)
    first ++ String.join others ++ "\n"
  else
    pad jobWidth (start ++ standing j) ++
      String.join ((j.processes.drop 1).map fun _ => " | ") ++ "\n"

def noteEnded : Eval Unit := do
  noteEnds none (← lift (Run.act fun process k => k.reap process))

def jobs (args : List String) : Eval Nat := do
  let o ← options "lp" args
  noteEnded
  let all := (← get).jobs.filter (·.background)
  let shown (j : Job) : Eval Unit := do
    let sign :=
      if all.head?.any (·.number = j.number) then "+"
      else if (all.drop 1).head?.any (·.number = j.number) then "-" else " "
    if o.has 'p' then say (toString ((j.processes.head?).elim 0 (·.1)) ++ "\n")
    else say (showJob (o.has 'l') sign j)
    if j.isDone then removeJob j.number
  if o.rest.isEmpty then
    for j in all do shown j
  for a in o.rest do shown (← jobNamed a)
  return 0

def waitAll : Nat → Eval (Option Nat)
  | 0 => hang
  | fuel + 1 => do
    if (← get).jobs.all (·.isDone) then
      modify fun s => { s with jobs := s.jobs.map fun j => { j with seen := true } }
      return none
    else
      let (dead, signal) ← awaitEnds true
      noteEnds none dead
      if signal.isSome then return signal else waitAll fuel

def waitEach (status : Nat) : List String → Eval Nat
  | [] => return status
  | a :: rest => do
    let found : Option Job ←
      if a.startsWith "%" then pure (some (← jobNamed a))
      else
        let n ← number a
        pure ((← get).jobs.find? (·.leader = n))
    match found with
    | none => waitEach status rest
    | some j =>
      match ← awaitJob j.number true maxEnds with
      | some signal => return 128 + signal
      | none =>
        updateJob j.number fun j => { j with seen := true }
        let status := ((← job? j.number).bind (·.outcome?)).elim 127 statusOf
        waitEach status rest

def wait (args : List String) : Eval Nat := do
  let o ← options "" args
  if o.rest.isEmpty then
    match ← waitAll maxEnds with
    | some signal => return 128 + signal
    | none => return 0
  else waitEach 127 o.rest

def control (args : List String) : Eval Nat := do
  let o ← options "" args
  let j ← jobNamed (o.rest.head?.getD "%")
  fail ("job " ++ toString j.number ++ " not created under job control")

def showTraps : Eval Unit := do
  for (n, action) in (← get).traps.mergeSort fun a b => a.1 ≤ b.1 do
    say ("trap -- " ++ quote action ++ " " ++ SignalName.ofNumber n ++ "\n")

def setTraps (action : Option String) : List String → Eval Nat
  | [] => return 0
  | a :: rest => do
    match SignalName.number? a 0 with
    | none =>
      tell ("trap: " ++ a ++ ": bad trap\n")
      return 1
    | some n =>
      modify fun s =>
        { s with traps := (action.toList.map (n, ·)) ++ s.traps.filter (·.1 ≠ n) }
      if n != 0 then
        lift (Run.change fun process k =>
          k.dispose process n (action = some "") (action.any (!·.isEmpty)))
      setTraps action rest

def trap (args : List String) : Eval Nat := do
  let o ← options "" args
  match o.rest with
  | [] =>
    showTraps
    return 0
  | first :: others =>
    if others.isEmpty || (Kernel.SignalName.digits? first).isSome then setTraps none o.rest
    else setTraps (if first == "-" then none else some first) others

def times (_ : List String) : Eval Nat := do
  let zero := "0m0.000000s 0m0.000000s\n"
  say (zero ++ zero)
  return 0

end CompiledModels.Shell.Builtin
