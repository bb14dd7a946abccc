import CompiledModels.Duration
import CompiledModels.Files.Tree

/-!
Started programs: how one is invoked, how it ends, and what it does in the meantime.
-/

namespace CompiledModels

inductive ExitStatus
  | code (n : Nat)
  | signal (n : Nat)
  deriving DecidableEq

namespace ExitStatus

def signalNames : List String := [
  "SIGHUP", "SIGINT", "SIGQUIT", "SIGILL", "SIGTRAP", "SIGABRT", "SIGBUS", "SIGFPE", "SIGKILL",
  "SIGUSR1", "SIGSEGV", "SIGUSR2", "SIGPIPE", "SIGALRM", "SIGTERM", "SIGSTKFLT", "SIGCHLD",
  "SIGCONT", "SIGSTOP", "SIGTSTP", "SIGTTIN", "SIGTTOU", "SIGURG", "SIGXCPU", "SIGXFSZ",
  "SIGVTALRM", "SIGPROF", "SIGWINCH", "SIGIO", "SIGPWR", "SIGSYS"]

def success : ExitStatus → Bool
  | .code n => n == 0
  | .signal _ => false

def text : ExitStatus → String
  | .code n => "exit status: " ++ toString n
  | .signal n =>
    let name := signalNames.getD (n - 1) ""
    "signal: " ++ toString n ++ (if name.isEmpty then "" else " (" ++ name ++ ")")

end ExitStatus

/-- Where what a program writes goes: into a pipe of its caller, to the caller's own descriptor,
or nowhere. -/
inductive Channel
  | piped
  | inherited
  | discarded
  deriving DecidableEq

structure Invocation where
  program : Path
  arguments : List String
  out : Channel
  err : Channel

/-- How an argument is shown. One with NUL in it cannot be passed to a program; a mark stands for
it. -/
def Invocation.shown (argument : String) : String :=
  if argument.any (· == '\x00') then "<string-with-nul>" else argument

inductive Effect
  | files (change : Files.Tree → Files.Tree)
  | out (bytes : Bytes)
  | err (bytes : Bytes)
  | errAt (place : Nat) (bytes : Bytes)
  | errCut (size : Nat)

/-- All that a started program does. Instants count from its start, `none` stands for never. A
stream may end later than the program, as long as a descendant holds it. -/
structure Activity where
  effects : List (Duration × Effect)
  exit : Option (Duration × ExitStatus)
  outEnd : Option Duration
  errEnd : Option Duration

structure Environment where
  bindings : List (String × String)
  directory : Path
  executable : Option Path
  processNumber : Nat

namespace Environment

def get? (e : Environment) (name : String) : Option String :=
  (e.bindings.find? (·.1 = name)).map (·.2)

def location (e : Environment) : Files.Location :=
  (Path.segments e.directory.text).filter (· ≠ "")

def temporaryDirectory (e : Environment) : Path :=
  Path.ofText ((e.get? "TMPDIR").getD "/tmp")

end Environment

end CompiledModels
