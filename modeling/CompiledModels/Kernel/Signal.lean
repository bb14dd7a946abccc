import CompiledModels.Kernel.Open

/-!
The life of processes: they are born, receive signals, end, and are waited for.
-/

namespace CompiledModels.Kernel

variable (k : Kernel)

def harmless : List Nat := [0, 17, 18, 23, 28]

def stopping : List Nat := [19, 20, 21, 22]

def makeProcess (parent : Nat) : Nat × Kernel :=
  match k.process? parent with
  | none => (0, k)
  | some p =>
    let child := { p with number := k.nextProcess, parent, pending := [] }
    (k.nextProcess,
      { k with processes := k.processes ++ [child], nextProcess := k.nextProcess + 1 })

def bury : Kernel :=
  let alive (n : Nat) : Bool := k.processes.any fun p => p.number = n && p.ended.isNone
  { k with processes := k.processes.filter fun p => p.ended.isNone || alive p.parent || p.parent = 0 }

def endProcess (process : Nat) (status : ExitStatus) : Kernel :=
  (k.updateProcess process fun p =>
    { p with ended := some status, descriptors := [], time := k.now }).sweep.bury

def parentOf (process : Nat) : Nat :=
  let parent := ((k.process? process).map (·.parent)).getD 1
  match k.process? parent with
  | some p => if p.ended.isSome then 1 else parent
  | none => parent

def isPresent (process : Nat) : Bool := (k.process? process).isSome

def send (process signal : Nat) : Kernel :=
  match k.process? process with
  | none => k
  | some p =>
    if p.ended.isSome || signal = 0 then k
    else if signal = 18 then k.updateProcess process fun p => { p with stopped := false }
    else if signal = 9 then k.endProcess process (.signal 9)
    else if p.ignored.contains signal && signal != 19 then k
    else if p.caught.contains signal then
      k.updateProcess process fun p => { p with pending := p.pending ++ [signal] }
    else if stopping.contains signal then
      k.updateProcess process fun p => { p with stopped := true }
    else if harmless.contains signal then k
    else k.endProcess process (.signal signal)

def dispose (process signal : Nat) (ignores catches : Bool) : Kernel :=
  k.updateProcess process fun p =>
    let without (l : List Nat) : List Nat := l.filter (· ≠ signal)
    { p with ignored := if ignores then signal :: without p.ignored else without p.ignored
             caught := if catches then signal :: without p.caught else without p.caught }

def collect? (child : Nat) : Option (ExitStatus × Kernel) := do
  let p ← k.process? child
  let status ← p.ended
  return (status, { k with processes := k.processes.filter (·.number ≠ child) })

def reap (process : Nat) : List (Nat × ExitStatus) × Kernel :=
  let dead := k.processes.filter fun p => p.parent = process && p.ended.isSome
  let dead := dead.mergeSort fun a b => a.time ≤ b.time
  (dead.filterMap fun p => p.ended.map (p.number, ·),
    if dead.isEmpty then k
    else { k with processes := k.processes.filter fun p =>
      !(p.parent = process && p.ended.isSome) })

def pendingOf (process : Nat) : List Nat := ((k.process? process).map (·.pending)).getD []

def takePending (process : Nat) : Option (Nat × Kernel) :=
  (k.pendingOf process).min?.map fun n =>
    (n, k.updateProcess process fun p => { p with pending := p.pending.filter (· ≠ n) })

def replaceProgram (process : Nat) : Kernel :=
  (k.updateProcess process fun p =>
    { p with descriptors := p.descriptors.filter (!·.transient), caught := [], pending := [] }).sweep

def spend (process nanos : Nat) : Kernel :=
  k.updateProcess process fun p => { p with time := p.time + nanos }

end CompiledModels.Kernel

namespace CompiledModels.Kernel.SignalName

def count : Nat := 65

def ordinary : List String := [
  "EXIT", "HUP", "INT", "QUIT", "ILL", "TRAP", "ABRT", "BUS", "FPE", "KILL", "USR1", "SEGV",
  "USR2", "PIPE", "ALRM", "TERM", "STKFLT", "CHLD", "CONT", "STOP", "TSTP", "TTIN", "TTOU", "URG",
  "XCPU", "XFSZ", "VTALRM", "PROF", "WINCH", "IO", "PWR", "SYS"]

def realTime (n : Nat) : String :=
  if n < 34 then toString n
  else if n = 34 then "RTMIN"
  else if n = 64 then "RTMAX"
  else if n < 50 then "RTMIN+" ++ toString (n - 34)
  else "RTMAX-" ++ toString (64 - n)

def ofNumber (n : Nat) : String :=
  if n = 16 then "16" else if n < 32 then ordinary.getD n "" else realTime n

def digits? (s : String) : Option Nat :=
  if !s.isEmpty && s.all Char.isDigit then s.toNat?.filter (· < count) else none

def number? (s : String) (least : Nat) : Option Nat :=
  (digits? s).or ((List.range count).find? fun n => least ≤ n && ofNumber n == s.toUpper)

def descriptions : List String := [
  "", "Hangup", "Interrupt", "Quit", "Illegal instruction", "Trace/breakpoint trap", "Aborted",
  "Bus error", "Floating point exception", "Killed", "User defined signal 1",
  "Segmentation fault", "User defined signal 2", "Broken pipe", "Alarm clock", "Terminated",
  "Stack fault", "Child exited", "Continued", "Stopped (signal)", "Stopped",
  "Stopped (tty input)", "Stopped (tty output)", "Urgent I/O condition",
  "CPU time limit exceeded", "File size limit exceeded", "Virtual timer expired",
  "Profiling timer expired", "Window changed", "I/O possible", "Power failure",
  "Bad system call"]

def description (n : Nat) : String :=
  if n < 32 then descriptions.getD n ""
  else if n < 34 then "Unknown signal " ++ toString n
  else "Real-time signal " ++ toString (n - 34)

end CompiledModels.Kernel.SignalName
