import CompiledModels.Files.Path
import CompiledModels.Number.Reading
import CompiledModels.Text.Blank

/-!
The command line: which commands there are, and how arguments are read as one of them.
-/

namespace CompiledModels.CommandLine

inductive Command
  | compile (name : String) (file : Path) (data : Option Path) (force : Bool)
  | inspect (name : String) (data : Option Path)
  | logDensity (name : String) (values : List Binary64) (data : Option Path)
      (jacobian gradient : Bool)
  | list
  | clean (model : Option String) (dryRun : Bool)
  deriving DecidableEq

inductive Stop
  | usage
  | version
  | help
  deriving DecidableEq

/-- What an option takes: nothing, a value that does not look like an option, or any value. Only
an option that takes any value may be given more than once. -/
inductive Takes
  | nothing
  | value
  | anyValue
  deriving DecidableEq

structure Switch where
  name : String
  letter : Option Char
  takes : Takes

namespace Switch

def verbose : Switch := ⟨"verbose", some 'v', .nothing⟩
def help : Switch := ⟨"help", some 'h', .nothing⟩
def version : Switch := ⟨"version", some 'V', .nothing⟩
def data : Switch := ⟨"data", some 'd', .value⟩
def force : Switch := ⟨"force", some 'f', .nothing⟩
def params : Switch := ⟨"params", some 'p', .anyValue⟩
def noJacobian : Switch := ⟨"no-jacobian", none, .nothing⟩
def grad : Switch := ⟨"grad", some 'g', .nothing⟩
def dryRun : Switch := ⟨"dry-run", none, .nothing⟩
def model : Switch := ⟨"model", some 'm', .value⟩

end Switch

structure Given where
  options : List (String × String)
  positionals : List String
  pending : Option Switch
  escaped : Bool

namespace Given

def empty : Given := ⟨[], [], none, false⟩

def has (g : Given) (o : Switch) : Bool := g.options.any (·.1 = o.name)

def values (g : Given) (o : Switch) : List String :=
  (g.options.filter (·.1 = o.name)).map (·.2)

def give (g : Given) (o : Switch) (value : String) : Except Stop Given :=
  if o.name = Switch.help.name then .error .help
  else if o.name = Switch.version.name then .error .version
  else if o.takes ≠ .anyValue ∧ g.has o then .error .usage
  else .ok { g with options := g.options ++ [(o.name, value)], pending := none }

def readLong (known : List Switch) (g : Given) (name : List Char) (value : Option (List Char)) :
    Except Stop Given :=
  match known.find? (·.name = String.ofList name), value with
  | none, _ => .error .usage
  | some o, none => if o.takes = .nothing then g.give o "" else .ok { g with pending := some o }
  | some o, some v => if o.takes = .nothing then .error .usage else g.give o (String.ofList v)

def readLetters (known : List Switch) (g : Given) : List Char → Except Stop Given
  | [] => .ok g
  | c :: cs =>
    match known.find? (·.letter = some c) with
    | none => .error .usage
    | some o =>
      if o.takes = .nothing then do readLetters known (← g.give o "") cs
      else match cs with
        | [] => .ok { g with pending := some o }
        | '=' :: v => g.give o (String.ofList v)
        | v => g.give o (String.ofList v)

def isOption (arg : String) : Bool := arg.startsWith "-" && arg ≠ "-"

def read (known : List Switch) (g : Given) (arg : String) : Except Stop Given :=
  match g.pending with
  | some o =>
    if o.takes = .anyValue ∨ !isOption arg then g.give o arg else .error .usage
  | none =>
    if g.escaped then .ok { g with positionals := g.positionals ++ [arg] }
    else match arg.toList with
      | ['-', '-'] => .ok { g with escaped := true }
      | '-' :: '-' :: cs =>
        let name := cs.takeWhile (· ≠ '=')
        let value := cs.dropWhile (· ≠ '=')
        g.readLong known name (if value.isEmpty then none else some (value.drop 1))
      | '-' :: c :: cs => g.readLetters known (c :: cs)
      | _ => .ok { g with positionals := g.positionals ++ [arg] }

def readAll (known : List Switch) (args : List String) : Except Stop Given := do
  let g ← args.foldlM (read (Switch.verbose :: Switch.help :: known)) empty
  if g.pending.isSome then throw .usage else return g

def path? (g : Given) (o : Switch) : Except Stop (Option Path) :=
  match g.values o with
  | [] => .ok none
  | s :: _ => if s.isEmpty then .error .usage else .ok (some (Path.ofText s))

def numbers (s : String) : Except Stop (List Binary64) :=
  let parts := (Text.splitAll (· == ',') s.toList).map String.ofList
  parts.mapM fun part =>
    match Binary64.read? part with
    | some x => .ok x
    | none => .error .usage

end Given

namespace Command

def names : List String := ["compile", "inspect", "log-prob", "list", "clean"]

def readCompile (args : List String) : Except Stop Command := do
  let g ← Given.readAll [.data, .force] args
  let data ← g.path? .data
  match g.positionals with
  | [name, file] =>
    if file.isEmpty then throw .usage
    else return compile name (Path.ofText file) data (g.has .force)
  | _ => throw .usage

def readInspect (args : List String) : Except Stop Command := do
  let g ← Given.readAll [.data] args
  let data ← g.path? .data
  match g.positionals with
  | [name] => return inspect name data
  | _ => throw .usage

def readLogDensity (args : List String) : Except Stop Command := do
  let g ← Given.readAll [.params, .data, .noJacobian, .grad] args
  let values ← (g.values .params).mapM Given.numbers
  let data ← g.path? .data
  match g.positionals with
  | [name] => return logDensity name values.flatten data (!g.has .noJacobian) (g.has .grad)
  | _ => throw .usage

def readList (args : List String) : Except Stop Command := do
  let g ← Given.readAll [] args
  if g.positionals.isEmpty then return list else throw .usage

def readClean (args : List String) : Except Stop Command := do
  let g ← Given.readAll [.dryRun, .model] args
  if g.positionals.isEmpty then return clean (g.values .model).head? (g.has .dryRun)
  else throw .usage

def readHelp (args : List String) : Stop :=
  match args with
  | [] => .help
  | [name] => if name = "help" ∨ name ∈ names then .help else .usage
  | _ => .usage

def readNamed (name : String) (args : List String) : Except Stop Command :=
  match name with
  | "compile" => readCompile args
  | "inspect" => readInspect args
  | "log-prob" => readLogDensity args
  | "list" => readList args
  | "clean" => readClean args
  | "help" => .error (readHelp args)
  | _ => .error .usage

def readFrom (g : Given) : List String → Except Stop Command
  | [] => .error .usage
  | arg :: args =>
    if arg = "--" then .error .usage
    else if Given.isOption arg then do
      readFrom (← g.read [.verbose, .help, .version] arg) args
    else readNamed arg args

def ofArguments (args : List String) : Except Stop Command := readFrom .empty args

end Command

end CompiledModels.CommandLine
