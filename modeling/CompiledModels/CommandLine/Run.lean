import CompiledModels.CommandLine.Arguments
import CompiledModels.CommandLine.Report
import CompiledModels.Model
import CompiledModels.Number.Layout

/-!
What each command does.
-/

namespace CompiledModels.CommandLine

open Program

inductive Failure
  | of (e : Error)
  | evaluation (e : EvalError)
  | file (e : FileError)
  | unreadable (path : Path) (e : FileError)
  | notCached (name : String)

def Failure.text : Failure → String
  | .of e => e.text
  | .evaluation e => e.text
  | .file e => e.text
  | .unreadable path e => "failed to read " ++ path.text ++ ": " ++ e.text
  | .notCached name =>
    "no cached model named '" ++ name ++ "'; run \x60stanbind compile\x60 first"

abbrev Action (α : Type) := Attempt Failure α

def tell (p : Program Unit) : Action Unit := ExceptT.lift p

def identityOf (name : String) : Action ModelIdentity :=
  Attempt.ofExcept (ModelIdentity.ofName name) fun e => .of (.config e)

def openEngine : Action Engine := do
  let e ← perform .environment
  let config ← Attempt.ofExcept (Config.ofEnvironment e) fun e => Failure.of (.config e)
  ExceptT.lift (Engine.ofConfig config)

def readData : Option Path → Action ModelData
  | none => return .empty
  | some file => Attempt.of (ModelData.ofFile file).run .of

def cachedIdentity (e : Engine) (name : String) : Action ModelIdentity := do
  let id ← identityOf name
  if ← e.exists? id then return id else throw (.notCached name)

def nodeSize : Files.Node → Nat
  | .file _ c _ => c.size
  | .link target => target.utf8ByteSize
  | _ => 0

def sumSizes (size : Files.DirectoryEntry → Program (Except FileError Nat)) :
    List Files.DirectoryEntry → Program (Except FileError Nat)
  | [] => return .ok 0
  | entry :: entries => do
    match ← size entry with
    | .error e => return .error e
    | .ok n => return (← sumSizes size entries).map (n + ·)

def sizeBelow : Nat → Path → Program (Except FileError Nat)
  | 0, _ => return .error (.os .nameTooLong)
  | nesting + 1, p => do
    match ← perform (.list p) with
    | .error e => return .error e
    | .ok entries =>
      let size (entry : Files.DirectoryEntry) : Program (Except FileError Nat) := do
        let p := p.join entry.name
        if ← isDirectory p then sizeBelow nesting p
        else return (← perform (.stat p false)).map nodeSize
      sumSizes size entries

def sizeOf (p : Path) : Program (Except FileError Nat) := do
  if ← isDirectory p then sizeBelow maxNesting p
  else return (← perform (.stat p true)).map nodeSize

def outputOf? : Error → Option String
  | .build e => if (Text.trim e.output).isEmpty then none else some (Text.trimEnd e.output)
  | _ => none

def secondsText (nanos : Nat) : String := twoPlaces (roundHalfEven nanos 10000000)

def reportEach (s : Status) : List String → Program Unit
  | [] => return
  | line :: lines => do
    report s line
    reportEach s lines

def reportCompiled (m : Model) (c : Compiled) (nanos : Nat) : Program Unit := do
  let notBlank (s : String) : Bool := !(Text.trim s).isEmpty
  reportEach .warning ((Text.lines c.warnings).filter notBlank)
  if notBlank c.diagnostics then printDiagnostic (Text.trimEnd c.diagnostics)
  if c.cached then report .cached (m.identity.key ++ " is up to date")
  else report .finished (m.identity.key ++ " in " ++ secondsText nanos ++ "s")
  match m.parameterCount with
  | some n => printLine ("parameters: " ++ toString n)
  | none => report .warning "parameter count unavailable for the given data"

def compile (name : String) (file : Path) (data : Option Path) (force : Bool) :
    Action Unit := do
  let source ← Attempt.of (readText file) (.unreadable file)
  let data ← readData data
  let engine ← openEngine
  let m ← Attempt.ofExcept (Model.ofName engine name source data) fun e => .of (.config e)
  let m ← if force then do
      let (r, m) ← m.delete
      Attempt.ofExcept r .of
      pure m
    else pure m
  let started ← perform .now
  tell (report .compiling (name ++ " (" ++ file.text ++ ")"))
  let (r, m) ← m.compile
  match r with
  | .ok c => tell (reportCompiled m c ((← perform .now) - started))
  | .error e =>
    match outputOf? e with
    | some text => tell (printDiagnostic text)
    | none => pure ()
    throw (.of e)

def printManifest (m : Manifest) : Program Unit := do
  printLine ("  module:      " ++ m.moduleFile)
  printLine ("  compiler:    " ++ m.compiler)
  printLine ("  source:      sha256:" ++ String.ofList (m.sourceDigest.toList.take 16))

def nameKinds : List (String × NameKind) :=
  [("names", .parameters), ("constrained", .constrained), ("unconstrained", .unconstrained)]

def printNames (e : Engine) (id : ModelIdentity) (data : ModelData) :
    List (String × NameKind) → Action Unit
  | [] => return
  | (label, kind) :: rest => do
    let names ← Attempt.of (e.evaluate id data (.parameterNames kind)).run .evaluation
    tell (printLine ("  " ++ Text.alignLeft 13 (label ++ ":") ++ Text.joinWith ", " names))
    printNames e id data rest

def inspect (name : String) (data : Option Path) : Action Unit := do
  let e ← openEngine
  let id ← cachedIdentity e name
  let data ← readData data
  tell (printHeading id.key)
  match ← (e.cache.loadManifest id).run with
  | .ok m => tell (printManifest m)
  | .error _ => pure ()
  let count ← Attempt.of (e.evaluate id data .parameterCount).run .evaluation
  tell (printLine ("  parameters:  " ++ toString count))
  printNames e id data nameKinds

def valuesText (values : List Binary64) : String :=
  "[" ++ Text.joinWith ", " (values.map Binary64.plain) ++ "]"

def logDensity (name : String) (values : List Binary64) (data : Option Path)
    (jacobian gradient : Bool) : Action Unit := do
  let e ← openEngine
  let id ← cachedIdentity e name
  let data ← readData data
  let density ← Attempt.of (e.evaluate id data (.logDensity values jacobian)).run .evaluation
  tell (printLine ("log_prob: " ++ Binary64.plain density))
  if gradient then
    let slopes ← Attempt.of (e.evaluate id data (.gradient values jacobian)).run .evaluation
    tell (printLine ("gradient: " ++ valuesText slopes))

def printModels (c : Cache) : List ModelIdentity → Program Unit
  | [] => return
  | id :: ids => do
    let status := if ← c.exists? id then "" else " (incomplete)"
    let size := match ← sizeOf (c.entryDirectory id) with
      | .ok n => n
      | .error _ => 0
    printLine (Text.alignLeft 24 id.name ++ " " ++ Text.alignRight 10 (formatSize size) ++ status)
    printModels c ids

def list : Action Unit := do
  let e ← openEngine
  match ← Attempt.of e.cache.identities.run fun err => Failure.of (.cache err) with
  | [] => tell (printLine ("No cached models in " ++ e.cache.root.text))
  | ids => tell (printModels e.cache ids)

def measured (p : Path) : Action String := return formatSize (← Attempt.of (sizeOf p) .file)

def cleanModel (e : Engine) (name : String) (dryRun : Bool) : Action Unit := do
  let id ← identityOf name
  let dir := e.cache.entryDirectory id
  if !(← pathExists dir) then tell (printLine ("No cached model named '" ++ name ++ "'"))
  else
    let label := id.key ++ " (" ++ (← measured dir) ++ ")"
    if dryRun then tell (report .skipping (label ++ " - dry run"))
    else
      tell (report .removing label)
      Attempt.of (e.delete id).run .of
      tell (report .removed id.key)

def cleanAll (e : Engine) (dryRun : Bool) : Action Unit := do
  let label := "model cache (" ++ (← measured e.cache.root) ++ ")"
  if dryRun then tell (report .skipping (label ++ " - dry run"))
  else
    tell (report .cleaning label)
    Attempt.of e.cache.clear.run fun err => .of (.cache err)
    tell (report .removed "model cache")

def clean (model : Option String) (dryRun : Bool) : Action Unit := do
  let e ← openEngine
  if !(← pathExists e.cache.root) then tell (printLine "Nothing to clean.")
  else match model with
    | some name => cleanModel e name dryRun
    | none => cleanAll e dryRun

def Command.action : Command → Action Unit
  | .compile name file data force => CommandLine.compile name file data force
  | .inspect name data => CommandLine.inspect name data
  | .logDensity name values data jacobian gradient =>
    CommandLine.logDensity name values data jacobian gradient
  | .list => CommandLine.list
  | .clean model dryRun => CommandLine.clean model dryRun

def versionText : String := "stanbind 0.1.0"

def usageText : String :=
  "Usage: stanbind [-v] compile NAME FILE [-d FILE] [-f]\n" ++
  "       stanbind [-v] inspect NAME [-d FILE]\n" ++
  "       stanbind [-v] log-prob NAME [-p VALUES] [-d FILE] [--no-jacobian] [-g]\n" ++
  "       stanbind [-v] list\n" ++
  "       stanbind [-v] clean [-m NAME] [--dry-run]"

def execute (args : List String) : Program Nat := do
  match Command.ofArguments args with
  | .error .version => printLine versionText; return 0
  | .error .help => printLine usageText; return 0
  | .error .usage => printDiagnostic usageText; return 2
  | .ok command =>
    match ← command.action.run with
    | .ok () => return 0
    | .error f => report .error f.text; return 1

end CompiledModels.CommandLine
