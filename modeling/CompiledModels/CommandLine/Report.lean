import CompiledModels.Machine.Program
import CompiledModels.Text.Blank

/-!
What the commands tell the user: results on the output, and lines with a status on the stream for
diagnostics. Colours are used unless the environment speaks against them.
-/

namespace CompiledModels.CommandLine

open Program

def printLine (text : String) : Program Unit :=
  perform (.print Descriptors.output (Text.encode (text ++ "\n")))

def printDiagnostic (text : String) : Program Unit :=
  perform (.print Descriptors.diagnostics (Text.encode (text ++ "\n")))

structure Style where
  colour : Option Nat

namespace Style

def bold : Style := ⟨none⟩
def red : Style := ⟨some 31⟩
def green : Style := ⟨some 32⟩
def yellow : Style := ⟨some 33⟩
def cyan : Style := ⟨some 36⟩

def apply (s : Style) (text : String) : String :=
  let colour := (s.colour.map fun n => ";" ++ toString n).getD ""
  "\x1b[1" ++ colour ++ "m" ++ text ++ "\x1b[0m"

end Style

def showsColours (e : Environment) : Bool :=
  (e.get? "NO_COLOR").isNone && e.get? "TERM" != some "dumb"

def styled (s : Style) (text : String) : Program String := do
  let e ← perform .environment
  return if showsColours e then s.apply text else text

inductive Status
  | compiling
  | finished
  | cached
  | removing
  | cleaning
  | removed
  | skipping
  | warning
  | error

namespace Status

def text : Status → String
  | compiling => "Compiling"
  | finished => "Finished"
  | cached => "Cached"
  | removing => "Removing"
  | cleaning => "Cleaning"
  | removed => "Removed"
  | skipping => "Skipping"
  | warning => "Warning"
  | error => "Error"

def style : Status → Style
  | cached => .cyan
  | skipping | warning => .yellow
  | error => .red
  | _ => .green

end Status

def report (s : Status) (message : String) : Program Unit := do
  printDiagnostic ((← styled s.style (Text.alignRight 12 s.text)) ++ " " ++ message)

def printHeading (text : String) : Program Unit := do printLine (← styled .bold text)

end CompiledModels.CommandLine
