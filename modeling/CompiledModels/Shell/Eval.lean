import CompiledModels.Kernel.Execute
import CompiledModels.Shell.Builtin.Table
import CompiledModels.Shell.Parser
import CompiledModels.Shell.Redirect

namespace CompiledModels.Shell

open Kernel (Run)

structure Position where
  tested : Bool := false
  last : Bool := false

namespace Eval

def commandCost : Nat := 5000

def passTime : Eval (Option Nat) :=
  lift (Run.act fun process k =>
    let k := k.spend process commandCost
    match k.takePending process with
    | some (n, k) => (some n, k)
    | none => (none, k))

/-- Begins a part of the text as a process of its own: what is kept for signals is forgotten, and so
are the jobs. In the background there is no input. -/
def enterProcess (background noInput : Bool) : Eval Unit := do
  modify fun s => { s with traps := s.traps.filter (·.2.isEmpty), jobs := [], decided := none }
  lift (Run.change fun process k =>
    let k := k.updateProcess process fun p => { p with caught := [], pending := [] }
    if background then (k.dispose process 2 true false).dispose process 3 true false else k)
  if background && noInput then
    lift (Run.close 0)
    let _ ← lift (Run.openFile "/dev/null" .reading)

inductive Target
  | function (body : Command)
  | builtin (name : String)
  | program

def target (s : State) (functions : Bool) (name : String) : Target :=
  match if functions then s.functions.find? (·.1 = name) else none with
  | some (_, body) => .function body
  | none => if Builtin.isBuiltin name then .builtin name else .program

structure Aim where
  words : List String
  shielded : Bool := false
  searchPath : Option String := none
  unclear : Bool := false

def passOptions (searchPath : Option String) : List String → Option Aim
  | [] => some ⟨[], true, searchPath, true⟩
  | a :: rest =>
    if a == "--" then some ⟨rest, true, searchPath, rest.isEmpty⟩
    else if !a.startsWith "-" || a == "-" then some ⟨a :: rest, true, searchPath, false⟩
    else if (a.toList.drop 1).all (· == 'p') then
      passOptions (some Kernel.defaultSearchPath) rest
    else none

def aim (s : State) (a : Aim) : Nat → Aim
  | 0 => a
  | fuel + 1 =>
    match a.words with
    | "command" :: rest =>
      match target s (!a.shielded) "command", passOptions a.searchPath rest with
      | .builtin _, some b => if b.unclear then { b with words := a.words } else aim s b fuel
      | _, _ => a
    | _ => a

section

variable (substitute : Command → Eval String)

def assignmentOf? (word : List Part) : Option (String × List Part) :=
  match word with
  | .text s false :: rest =>
    match Builtin.splitAssignment s with
    | (name, some value) =>
      if Builtin.isName name then some (name, .text value false :: rest) else none
    | _ => none
  | _ => none

def commandFields (fields : List String) : List (List Part) → Eval (List String)
  | [] => return fields
  | w :: ws => do
    let s ← get
    let a := aim s { words := fields } (fields.length + 1)
    let declares := match a.words with
      | name :: _ =>
        Builtin.declaring.contains name &&
          (match target s (!a.shielded) name with
            | .builtin _ => true
            | _ => false)
      | [] => false
    match if declares && !a.unclear then assignmentOf? w else none with
    | some (name, value) =>
      let text := name ++ "=" ++ (← wordText substitute .value value)
      commandFields (fields ++ [text]) ws
    | none => commandFields (fields ++ (← wordFields substitute w)) ws

def traceMark : Eval String := do
  let text ← valueOr "PS4" "+ "
  let options := (← get).options
  modify fun s => { s with options := options.filter (· != 'x') }
  let parsed := (Parse.doubleQuoted true (Parse.depthFor text.toList)).run
    { rest := text.toList, line := 1 }
  let mark ← match parsed with
    | .ok (parts, _) => wordText substitute .nowhere parts
    | .error _ => pure text
  modify fun s => { s with options }
  return mark

def trace (d : Nat) (words : List String) : Eval Unit := do
  if ← hasOption 'x' then
    let mark ← traceMark substitute
    lift (Run.print d (mark ++ " ".intercalate words ++ "\n"))

end

def programWords (e : FileError) : String :=
  if e = .os .noEntry || e = .os .notDirectory then "not found" else errorWords e

def imageAt (k : Kernel) (process : Nat) (name : String) (args : List String)
    (bindings : List (String × String)) (worst : FileError) :
    List String → Except FileError Kernel.Image
  | [] => .error worst
  | p :: rest =>
    match k.imageOf process p name args bindings with
    | .ok i => .ok i
    | .error e =>
      let skipped := e = .os .noEntry || e = .os .notDirectory
      imageAt k process name args bindings (if skipped then worst else e) rest

def replaceBy (searchPath : Option String) (name : String) (args : List String) : Eval Unit := do
  let s ← get
  let searchPath ← searchPath.elim (valueOr "PATH" Kernel.defaultSearchPath) pure
  let paths := Kernel.candidates searchPath name
  let found ← lift (Run.look fun process k =>
    imageAt k process name args s.exported (.os .noEntry) paths)
  match found with
  | .ok i => lift (Run.become i)
  | .error e =>
    complain (name ++ ": " ++ programWords e)
    let missing : List FileError :=
      [.os .noEntry, .os .notDirectory, .os .tooManyLinks, .os .nameTooLong]
    setStatus (if missing.contains e then 127 else 126)
    throw .stop

def programAt (k : Kernel) (process : Nat) (worst : FileError) :
    List String → Except FileError String
  | [] => .error worst
  | p :: rest =>
    match k.facts process true p with
    | .error e =>
      let skipped := e = .os .noEntry || e = .os .notDirectory
      programAt k process (if skipped then worst else e) rest
    | .ok f =>
      if f.isFile && f.mode &&& 0o111 != 0 then .ok p
      else programAt k process (.os .accessDenied) rest

def findProgram (searchPath : Option String) (name : String) : Eval (Except FileError String) := do
  if name.contains '/' then return .ok name
  else
    let searchPath ← searchPath.elim (valueOr "PATH" Kernel.defaultSearchPath) pure
    let paths := Kernel.candidates searchPath name
    lift (Run.look fun process k => programAt k process (.os .noEntry) paths)

def describe (verbose : Bool) (searchPath : Option String) (name : String) : Eval Nat := do
  let s ← get
  let shown (text : String) : Eval Nat := do
    say ((if verbose then name ++ " is " ++ text else name) ++ "\n")
    return 0
  if (Parse.closers ++ Parse.openers).contains name then shown "a shell keyword"
  else match s.aliases.find? (·.1 = name) with
    | some (_, text) =>
      if verbose then shown ("an alias for " ++ text)
      else
        say ("alias " ++ name ++ "=" ++ Builtin.quote text ++ "\n")
        return 0
    | none =>
      match target s true name with
      | .function _ => shown "a shell function"
      | .builtin _ =>
        shown ((if Builtin.isSpecial name then "a special" else "a") ++ " shell builtin")
      | .program =>
        let tracked := searchPath.isNone && s.found.any (·.1 = name)
        let found ← findProgram searchPath name
        let there ← match found with
          | .ok p => do
            let facts ← lift (Run.facts true p)
            pure facts.toOption.isSome
          | .error _ => pure false
        match found, there with
        | .ok p, true =>
          say ((if verbose then name ++ " is" ++ (if tracked then " a tracked alias for" else "") ++
            " " ++ p else p) ++ "\n")
          return 0
        | _, _ =>
          if verbose then say (name ++ ": not found\n")
          return 127

def sourceFile (name : String) : Eval String := do
  if name.contains '/' then return name
  else
    let paths := Kernel.candidates (← valueOr "PATH" Kernel.defaultSearchPath) name
    let found ← lift (Run.look fun process k =>
      paths.find? fun p => (k.facts process true p).toOption.any (·.isFile))
    match found with
    | some p => return p
    | none => fail (name ++ ": not found")

def readFile (p : String) : Eval (Except FileError Bytes) := do
  match ← lift (Run.openFile p .reading) with
  | .error e => return .error e
  | .ok d =>
    let bytes ← lift (Run.readAll d)
    lift (Run.close d)
    match bytes with
    | .error _ => return .ok []
    | .ok bytes => return .ok bytes

structure Source where
  cursor : Cursor
  isFile : Bool

def sourceOf (isFile : Bool) (text : String) : Source :=
  ⟨{ rest := text.toList.filter (· != '\x00'), line := 1 }, isFile⟩

def count (args : List String) (unset : Nat) : Eval Nat :=
  match args with
  | a :: _ => Builtin.number a
  | [] => pure unset

def leaveLoops (args : List String) (flow : Nat → Flow) : Eval Nat := do
  let n ← count args 1
  if n = 0 then fail "Illegal number: 0"
  let n := min n (← get).loops
  setStatus 0
  if n = 0 then return 0 else throw (flow n)

def exitText (args : List String) : Eval Nat := do
  match args with
  | a :: _ =>
    let n ← Builtin.number a
    modify fun s => { s with decided := some n }
  | [] => pure ()
  throw .exit

def leaveFunction (args : List String) : Eval Nat := do
  let s ← get
  setStatus (← count args s.status)
  throw (.return (!args.isEmpty))

inductive Turn
  | done
  | again
  | leave

def inLoop (body : Eval Unit) : Eval Turn := do
  let r : Except Flow Unit ← lift body.run
  match r with
  | .ok () => return .done
  | .error (.continue n) => if n ≤ 1 then return .again else throw (.continue (n - 1))
  | .error (.break n) => if n ≤ 1 then return .leave else throw (.break (n - 1))
  | .error flow => throw flow

def withLoop (body : Eval Unit) : Eval Unit := do
  modify fun s => { s with loops := s.loops + 1 }
  andThen body (modify fun s => { s with loops := s.loops - 1 })

def runProgram (place : Position) (searchPath : Option String) (name : String)
    (args : List String) : Eval Unit := do
  match ← findProgram searchPath name with
  | .error e =>
    complain (name ++ ": " ++ programWords e)
    setStatus 127
  | .ok p =>
    if !name.contains '/' && searchPath.isNone then
      modify fun s =>
        { s with found := if s.found.any (·.1 = name) then s.found else (name, p) :: s.found }
    if place.last && !(← get).hasTraps then replaceBy searchPath name args
    else
      let child ← lift (Run.fork (do
        let _ ← (replaceBy searchPath name args).run
        return (← get).status))
      let job ← makeJob [child] false
      setStatus (← finishJob job)

mutual

def substitution (c : Command) : Nat → Eval String
  | 0 => hang
  | fuel + 1 => do
    match c with
    | .sequence [] => return ""
    | _ =>
      let (r, w) ← lift (Run.act fun process k => k.makePipe process)
      let child ← forked false false (do
        lift (Run.close r)
        if w != 1 then moveDescriptor w 1
        execute { last := true } c fuel) fuel
      let job ← makeJob [child] false
      lift (Run.close w)
      let bytes := ((← lift (Run.readAll r)).toOption).getD []
      lift (Run.close r)
      let status ← finishJob job
      modify fun s => { s with substituted := status }
      let text := bytes.filter (· != 0)
      return Text.octets (text.reverse.dropWhile (· == 10)).reverse

def forked (background noInput : Bool) (body : Eval Unit) : Nat → Eval Nat
  | 0 => hang
  | fuel + 1 => do
    let child : Eval Unit := do
      enterProcess background noInput
      body
    lift (Run.fork (concluded child fuel))

def concluded (body : Eval Unit) : Nat → Run State Nat
  | 0 => Run.await fun _ _ => none
  | fuel + 1 => do
    let settle (r : Except Flow Unit) : Run State Unit := do
      match r with
      | .error .exit => modify fun s => { s with status := s.decided.getD s.status }
      | _ => pure ()
    settle (← body.run)
    let s ← get
    match s.traps.find? (·.1 = 0) with
    | some (_, action) =>
      set { s with traps := s.traps.filter (·.1 ≠ 0), decided := some s.status, loops := 0 }
      let r ← (runText {} (sourceOf false action) fuel).run
      match r with
      | .ok () => modify fun t => { t with status := s.status }
      | r => settle r
    | none => pure ()
    let _ ← (flush).run
    return (← get).status % 256

def runTraps (signal : Option Nat) : Nat → Eval Unit
  | 0 => hang
  | fuel + 1 => do
    match signal with
    | none => return ()
    | some n =>
      let s ← get
      match s.traps.find? (·.1 = n) with
      | none => pure ()
      | some (_, action) =>
        modify fun t => { t with decided := some (s.decided.getD s.status) }
        let r : Except Flow Unit ← lift (runText {} (sourceOf false action) fuel).run
        match r with
        | .ok () => modify fun t => { t with status := s.status, decided := s.decided }
        | .error .exit => throw .exit
        | .error .stop => throw .stop
        | .error .failed => throw .failed
        | .error (.return true) =>
          modify fun t => { t with decided := s.decided }
          throw (.return true)
        | .error flow =>
          modify fun t => { t with status := s.status, decided := s.decided }
          throw flow
      let next ← lift (Run.act fun process k =>
        match k.takePending process with
        | some (n, k) => (some n, k)
        | none => (none, k))
      runTraps next fuel

def runText (place : Position) (source : Source) : Nat → Eval Unit
  | 0 => hang
  | fuel + 1 => do
    let aliases := (← get).aliases
    match Parse.nextLine { source.cursor with aliases } with
    | .error e =>
      modify fun s => { s with line := e.line }
      fail e.message
    | .ok none => return ()
    | .ok (some (cs, cursor)) =>
      modify fun s => { s with reached := cursor.line }
      if source.isFile && (← hasOption 'v') then
        let read := source.cursor.rest.length - cursor.rest.length
        tell (String.ofList (source.cursor.rest.take read))
      execute { place with last := place.last && cursor.rest.isEmpty } (.sequence cs) fuel
      runText place { source with cursor } fuel

def runInside (place : Position) (source : Source) : Nat → Eval Nat
  | 0 => hang
  | fuel + 1 => do
    let reached := (← get).reached
    let isEmpty := match Parse.nextLine source.cursor with
      | .ok none => true
      | _ => false
    if isEmpty then return 0
    runText place source fuel
    modify fun s => { s with reached }
    return (← get).status

def steer (place : Position) (name : String) (args : List String) : Nat → Eval Nat
  | 0 => hang
  | fuel + 1 => do
    match name with
    | "exit" => exitText args
    | "return" => leaveFunction args
    | "break" => leaveLoops args .break
    | "continue" => leaveLoops args .continue
    | "eval" => runInside place (sourceOf false (" ".intercalate args)) fuel
    | "." =>
      match (← Builtin.options "" args).rest with
      | [] => return 0
      | name :: _ =>
        let p ← sourceFile name
        match ← readFile p with
        | .error e => fail ("cannot open " ++ p ++ ": " ++ openWords false e)
        | .ok bytes =>
          modify fun s => { s with command := some p }
          let r : Except Flow Nat ←
            lift (runInside {} (sourceOf true (Text.octets bytes)) fuel).run
          match r with
          | .ok n => return n
          | .error (.return _) => return (← get).status
          | .error flow => throw flow
    | "exec" =>
      match (← Builtin.options "" args).rest with
      | [] => return 0
      | name :: args =>
        replaceBy none name args
        return 0
    | "type" =>
      let mut status := 0
      for a in args do
        let n ← describe true none a
        status := status ||| n
      return status
    | _ =>
      let o ← Builtin.options "pvV" args
      let searchPath := if o.has 'p' then some Kernel.defaultSearchPath else none
      match o.rest with
      | name :: _ =>
        if o.has 'v' || o.has 'V' then describe (o.has 'V') searchPath name else return 0
      | [] => return 0

def runBuiltin (place : Position) (special : Bool) (name : String) (args : List String) :
    Nat → Eval Unit
  | 0 => hang
  | fuel + 1 => do
    let before := (← get).command
    modify fun s => { s with command := some name, unwritten := false }
    let run : Eval Nat :=
      match Builtin.table.find? (·.1 = name) with
      | some (_, f) => f args
      | none => steer { tested := place.tested } name args fuel
    let r : Except Flow Nat ← lift run.run
    match r with
    | .ok n =>
      flush
      let s ← get
      if s.unwritten then complain (name ++ ": I/O error")
      modify fun t =>
        { t with command := before, unwritten := false
                 status := if s.unwritten then n ||| 1 else n }
    | .error flow =>
      modify fun s => { s with command := before }
      if flow = .failed && !special then return () else throw flow

def runFunction (place : Position) (body : Command) (args : List String) : Nat → Eval Unit
  | 0 => hang
  | fuel + 1 => do
    let before ← get
    modify fun s =>
      { s with arguments := args, nextOption := 1, letters := none, loops := 0 }
    let r : Except Flow Unit ← lift (execute { tested := place.tested } body fuel).run
    modify fun s =>
      { s with arguments := before.arguments, nextOption := before.nextOption
               letters := before.letters, loops := before.loops }
    match r with
    | .ok () => return ()
    | .error (.return _) => return ()
    | .error flow => throw flow

def runSimple (place : Position) (line : Nat) (assignments : List (String × List Part))
    (words : List (List Part)) (rs : List Redirection) : Nat → Eval Unit
  | 0 => hang
  | fuel + 1 => do
    let substitute (c : Command) : Eval String := substitution c fuel
    modify fun s => { s with line, substituted := 0 }
    let fields ← commandFields substitute [] words
    let s ← get
    let a := aim s { words := fields } (fields.length + 1)
    let (goal, special) := match fields, a.words with
      | first :: _, name :: _ =>
        (target s (!a.shielded) name,
          Builtin.isSpecial first && (match target s true first with
            | .builtin _ => true
            | _ => false))
      | _, _ => (.program, false)
    let lasting := match goal with
      | .builtin name => name == "exec"
      | _ => false
    let exported := lasting && 1 < a.words.length && special
    let isLocal := !fields.isEmpty && !special
    let give (name value : String) : Eval Unit := do
      if isLocal then Builtin.hide name
      update name fun v =>
        { v with value := some value, exported := v.exported || isLocal || exported }
    let rec giveAll : List (String × List Part) → Eval (List String)
      | [] => return []
      | (name, word) :: rest => do
        let value ← wordText substitute .value word
        give name value
        return (name ++ "=" ++ value) :: (← giveAll rest)
    let body (diagnostics : Nat) : Eval Unit := do
      let given ← giveAll assignments
      if !given.isEmpty || !a.words.isEmpty then trace substitute diagnostics (given ++ a.words)
      match a.words with
      | [] => setStatus (← get).substituted
      | name :: args =>
        match goal with
        | .function body => runFunction place body args fuel
        | .builtin name => runBuiltin place special name args fuel
        | .program => runProgram place a.searchPath name args
    let prepared ← prepare substitute rs
    let run : Eval Unit := do
      let made ← redirecting substitute prepared lasting body
      if !made && special then throw .failed
    if isLocal then
      modify fun s => { s with frames := {} :: s.frames }
      andThen run do
        let frames := (← get).frames
        modify fun s => { s with frames := s.frames.drop 1 }
        match frames with
        | f :: _ => restore f
        | [] => pure ()
    else run

def startPipeline (place : Position) (background : Bool) (input : Option Nat) (cs : List Command) :
    Nat → Eval (List Nat)
  | 0 => hang
  | fuel + 1 => do
    match cs with
    | [] => return []
    | c :: rest =>
      let pipe : Option (Nat × Nat) ←
        if rest.isEmpty then pure none
        else (do
          let p ← lift (Run.act fun process k => k.makePipe process)
          pure (some p))
      let child ← forked background input.isNone (do
        match pipe with
        | some (r, _) => lift (Run.close r)
        | none => pure ()
        match input with
        | some d => if d != 0 then moveDescriptor d 0
        | none => pure ()
        match pipe with
        | some (_, w) => if w != 1 then moveDescriptor w 1
        | none => pure ()
        execute { place with last := true } c fuel) fuel
      match input with
      | some d => lift (Run.close d)
      | none => pure ()
      match pipe with
      | some (_, w) => lift (Run.close w)
      | none => pure ()
      return child :: (← startPipeline place background (pipe.map (·.1)) rest fuel)

def runLoop (place : Position) (whileTrue : Bool) (condition body : Command) (status : Nat) :
    Nat → Eval Unit
  | 0 => hang
  | fuel + 1 => do
    match ← inLoop (execute { tested := true } condition fuel) with
    | .leave => setStatus status
    | .again => runLoop place whileTrue condition body status fuel
    | .done =>
      if ((← get).status == 0) == whileTrue then
        match ← inLoop (execute place body fuel) with
        | .leave => return ()
        | _ => runLoop place whileTrue condition body (← get).status fuel
      else setStatus status

def runEach (place : Position) (name : String) (values : List String) (body : Command) :
    Nat → Eval Unit
  | 0 => hang
  | fuel + 1 => do
    match values with
    | [] => return ()
    | v :: values =>
      assign name v
      match ← inLoop (execute place body fuel) with
      | .leave => return ()
      | _ => runEach place name values body fuel

def runCases (place : Position) (text : String) (cases : List (List (List Part) × Command)) :
    Nat → Eval Unit
  | 0 => hang
  | fuel + 1 => do
    match cases with
    | [] => setStatus 0
    | ([], _) :: rest => runCases place text rest fuel
    | (p :: ps, body) :: rest =>
      let pattern ← wordPattern (fun c => substitution c fuel) p
      if wordMatches pattern text.toList then executeSome place body fuel
      else runCases place text ((ps, body) :: rest) fuel

def runSequence (place : Position) (cs : List Command) : Nat → Eval Unit
  | 0 => hang
  | fuel + 1 => do
    match cs with
    | [] => return ()
    | [c] => execute place c fuel
    | c :: cs =>
      execute { tested := place.tested } c fuel
      runSequence place cs fuel

def executeSome (place : Position) (c : Command) : Nat → Eval Unit
  | 0 => hang
  | fuel + 1 => do
    match c with
    | .sequence [] => setStatus 0
    | c => execute place c fuel

def execute (place : Position) (c : Command) : Nat → Eval Unit
  | 0 => hang
  | fuel + 1 => do
    let settled (body : Eval Unit) : Eval Unit := do
      body
      runTraps (← passTime) fuel
      let s ← get
      if s.options.contains 'e' && !place.tested && s.status != 0 then throw .stop
    let tested : Position := { tested := true }
    let inner : Position := { tested := place.tested }
    let substitute (c : Command) : Eval String := substitution c fuel
    if ← hasOption 'n' then return ()
    match c with
    | .simple line assignments words rs =>
      settled (runSimple place line assignments words rs fuel)
    | .pipeline cs => settled do
      let job ← makeJob (← startPipeline inner false none cs fuel) false
      setStatus (← finishJob job)
    | .negation c =>
      execute tested c fuel
      setStatus (if (← get).status == 0 then 1 else 0)
    | .conjunction a b =>
      execute tested a fuel
      if (← get).status == 0 then execute place b fuel
    | .disjunction a b =>
      execute tested a fuel
      if (← get).status != 0 then execute place b fuel
    | .sequence cs => runSequence place cs fuel
    | .background c => settled do
      let processes ← match c with
        | .pipeline cs => startPipeline inner true none cs fuel
        | c => do
          let child ← forked true true (execute { last := true } c fuel) fuel
          pure [child]
      let _ ← makeJob processes true
      modify fun s => { s with lastJob := processes.getLast?, status := 0 }
    | .subshell c => settled do
      if place.last && !(← get).hasTraps then execute place c fuel
      else
        let job ← makeJob [← forked false false (execute { inner with last := true } c fuel) fuel]
          false
        setStatus (← finishJob job)
    | .branch condition yes no =>
      execute tested condition fuel
      executeSome place (if (← get).status == 0 then yes else no) fuel
    | .loop whileTrue condition body =>
      withLoop (runLoop inner whileTrue condition body 0 fuel)
    | .each line name words body =>
      modify fun s => { s with line }
      let values ← match words with
        | none => pure (← get).arguments
        | some ws => do
          let fields ← ws.mapM (wordFields substitute)
          pure fields.flatten
      if values.isEmpty then setStatus 0
      withLoop (runEach inner name values body fuel)
    | .select line word cases =>
      modify fun s => { s with line }
      let text ← wordText substitute .front word
      runCases place text cases fuel
    | .function name body =>
      modify fun s =>
        { s with functions := (name, body) :: s.functions.filter (·.1 ≠ name), status := 0 }
    | .redirected line (.subshell c) rs => settled do
      modify fun s => { s with line }
      let prepared ← prepare substitute rs
      let body (place : Position) : Eval Unit := do
        if ← redirecting substitute prepared true fun _ => return () then execute place c fuel
      if place.last && !(← get).hasTraps then body place
      else
        let job ← makeJob [← forked false false (body { inner with last := true }) fuel] false
        setStatus (← finishJob job)
    | .redirected line c rs =>
      modify fun s => { s with line }
      let prepared ← prepare substitute rs
      let made ← redirecting substitute prepared false fun _ => execute inner c fuel
      runTraps (← passTime) fuel
      if !made && (← hasOption 'e') && !place.tested then throw .stop

end

end Eval

end CompiledModels.Shell
