import CompiledModels.Regex.Reader
import CompiledModels.Shell.Pattern
import CompiledModels.Tool.Launch
import CompiledModels.Tool.Listing

namespace CompiledModels.Tool

open Kernel (Facts Run)
open Work

inductive Bound
  | less (n : Nat)
  | exactly (n : Nat)
  | more (n : Nat)

namespace Bound

def read? (s : String) : Option (Bound × List Char) :=
  let (make, cs) : (Nat → Bound) × List Char := match s.toList with
    | '+' :: cs => (more, cs)
    | '-' :: cs => (less, cs)
    | cs => (exactly, cs)
  let digits := cs.takeWhile Char.isDigit
  (String.ofList digits).toNat?.map fun n => (make n, cs.drop digits.length)

def holds (n : Nat) : Bound → Bool
  | less m => n < m
  | exactly m => n = m
  | more m => m < n

end Bound

structure Candidate where
  path : String
  start : String
  depth : Nat
  facts : Facts

inductive Condition
  | always (b : Bool)
  | name (folds : Bool) (pattern : String)
  | path (folds : Bool) (pattern : String)
  | regex (r : Regex) (folds : Bool)
  | linkName (folds : Bool) (pattern : String)
  | kind (letters : List Char)
  | empty
  | size (b : Bound) (unit : Nat)
  | newer (time : Int)
  | age (b : Bound) (unit : Nat)
  | permissions (sign : Option Char) (mode : Nat)
  | names (b : Bound)
  | index (b : Bound)
  | same (key : Option Kernel.Key)
  | access (bits : Nat)
  | prune
  | quit
  | write (stop : String)
  | format (text : String)
  | list
  | delete
  | run (here asks : Bool) (command : List String)
  | runAll (number : Nat) (here : Bool) (command : List String)
  | not (c : Condition)
  | both (a b : Condition)
  | either (a b : Condition)
  | second (a b : Condition)

namespace Condition

def acts : Condition → Bool
  | write _ => true
  | format _ => true
  | list => true
  | delete => true
  | quit => false
  | run .. => true
  | runAll .. => true
  | not c => c.acts
  | both a b => a.acts || b.acts
  | either a b => a.acts || b.acts
  | second a b => a.acts || b.acts
  | _ => false

end Condition

structure Search where
  most : Option Nat := none
  least : Nat := 0
  depthFirst : Bool := false
  follows : Bool := false
  followsStart : Bool := false
  pending : List (Nat × Bool × List String × List String) := []
  runs : Nat := 0
  rest : List String := []
  last : String := ""

abbrev Asking := StateT Search (Run Context)

namespace Asking

def refuse {α : Type} (message : String) : Asking α := liftM (Work.refuse message : Work α)

def argument (name : String) : Asking String := do
  match (← get).rest with
  | a :: rest =>
    modify fun s => { s with rest }
    return a
  | [] => refuse ("missing argument to \x60" ++ name ++ "'")

def number (name : String) : Asking Nat := do
  let a ← argument name
  match a.toNat? with
  | some n => return n
  | none =>
    refuse ("Expected a positive decimal integer argument to " ++ name ++ ", but got " ++
      Quotation.word a)

def bound (name : String) : Asking (Bound × List Char) := do
  let a ← argument name
  match Bound.read? a with
  | some b => return b
  | none => refuse ("invalid argument \x60" ++ a ++ "' to \x60" ++ name ++ "'")

def command (name : String) : Asking (List String × Bool) := do
  let words := (← get).rest
  let isEnd (i : Nat) (w : String) : Bool :=
    w == ";" || w == "+" && (words[i - 1]?) == some "\x7b\x7d" && 0 < i
  match words.zipIdx.find? fun (w, i) => isEnd i w with
  | none => refuse ("missing argument to \x60" ++ name ++ "'")
  | some (w, i) =>
    if i = 0 then refuse ("invalid argument \x60;' to \x60" ++ name ++ "'")
    modify fun s => { s with rest := words.drop (i + 1) }
    return (words.take i, w == "+")

def factsOf (p : String) : Asking Facts := do
  match ← liftM (Run.facts true p : Work _) with
  | .ok f => return f
  | .error e => refuse (Quotation.word p ++ ": " ++ words e)

def unitOf? (cs : List Char) : Option Nat :=
  match cs with
  | [] => some 512
  | ['b'] => some 512
  | ['c'] => some 1
  | ['w'] => some 2
  | ['k'] => some 1024
  | ['M'] => some (1024 ^ 2)
  | ['G'] => some (1024 ^ 3)
  | _ => none

def simple (w : String) : Asking Condition := do
  let age (unit : Nat) : Asking Condition := return .age (← bound w).1 unit
  match w with
  | "-name" => return .name false (← argument w)
  | "-iname" => return .name true (← argument w)
  | "-path" => return .path false (← argument w)
  | "-wholename" => return .path false (← argument w)
  | "-ipath" => return .path true (← argument w)
  | "-iwholename" => return .path true (← argument w)
  | "-lname" => return .linkName false (← argument w)
  | "-ilname" => return .linkName true (← argument w)
  | "-regextype" =>
    let _ ← argument w
    return .always true
  | "-regex" => return .regex (← regexOf (← argument w)) false
  | "-iregex" => return .regex (← regexOf (← argument w)) true
  | "-type" => return .kind (← kinds w)
  | "-xtype" => return .kind (← kinds w)
  | "-empty" => return .empty
  | "-size" =>
    let a := (← get).rest.headD ""
    let (b, unit) ← bound w
    match unitOf? unit with
    | some u => return .size b u
    | none => refuse ("invalid -size type \x60" ++ a ++ "'")
  | "-newer" => return .newer (← factsOf (← argument w)).time
  | "-newermm" => return .newer (← factsOf (← argument w)).time
  | "-newermt" =>
    let a ← argument w
    let now ← liftM (Run.look fun _ k => k.clock : Work Int)
    match Moment.ofDate? now a with
    | some t => return .newer t
    | none =>
      refuse ("I cannot figure out how to interpret " ++ Quotation.word a ++
        " as a date or time")
  | "-anewer" => return .newer (← factsOf (← argument w)).time
  | "-cnewer" => return .newer (← factsOf (← argument w)).time
  | "-mtime" => age 86400
  | "-atime" => age 86400
  | "-ctime" => age 86400
  | "-mmin" => age 60
  | "-amin" => age 60
  | "-cmin" => age 60
  | "-perm" =>
    let a ← argument w
    let (sign, spec) := match a.toList with
      | '-' :: cs => (some '-', String.ofList cs)
      | '/' :: cs => (some '/', String.ofList cs)
      | _ => (none, a)
    match Kernel.Permission.change? spec false 0 0 with
    | some mode => return .permissions sign mode
    | none => refuse ("invalid mode " ++ Quotation.word a)
  | "-links" => return .names (← bound w).1
  | "-inum" => return .index (← bound w).1
  | "-samefile" => return .same (← factsOf (← argument w)).key
  | "-user" => owner w
  | "-group" => owner w
  | "-uid" => return .always ((← bound w).1.holds 0)
  | "-gid" => return .always ((← bound w).1.holds 0)
  | "-nouser" => return .always false
  | "-nogroup" => return .always false
  | "-readable" => return .always true
  | "-writable" => return .always true
  | "-executable" => return .access 0o111
  | "-true" => return .always true
  | "-false" => return .always false
  | "-maxdepth" =>
    let n ← number w
    modify fun s => { s with most := some n }
    return .always true
  | "-mindepth" =>
    let n ← number w
    modify fun s => { s with least := n }
    return .always true
  | "-depth" => deep
  | "-d" => deep
  | "-follow" =>
    modify fun s => { s with follows := true, followsStart := true }
    return .always true
  | "-xdev" => return .always true
  | "-mount" => return .always true
  | "-noleaf" => return .always true
  | "-warn" => return .always true
  | "-nowarn" => return .always true
  | "-ignore_readdir_race" => return .always true
  | "-noignore_readdir_race" => return .always true
  | "-daystart" => return .always true
  | "-prune" => return .prune
  | "-quit" => return .quit
  | "-print" => return .write "\n"
  | "-print0" => return .write "\x00"
  | "-printf" => return .format (← argument w)
  | "-ls" => return .list
  | "-delete" =>
    modify fun s => { s with depthFirst := true }
    return .delete
  | "-exec" => exec w false false
  | "-execdir" => exec w true false
  | "-ok" => exec w false true
  | "-okdir" => exec w true true
  | _ =>
    if w.startsWith "-" then refuse ("unknown predicate \x60" ++ w ++ "'")
    else
      refuse ("paths must precede expression: \x60" ++ w ++ "'")
where
  deep : Asking Condition := do
    modify fun s => { s with depthFirst := true }
    return .always true
  owner (w : String) : Asking Condition := do
    let a ← argument w
    if a == "root" || a == "0" then return .always true
    else if a.toList.all Char.isDigit then return .always false
    else refuse (Quotation.word a ++ " is not the name of " ++
        (if w == "-user" then "a known user" else "an existing group"))
  kinds (w : String) : Asking (List Char) := do
    let a ← argument w
    let parts := Text.splitAll (· == ',') a.toList
    let rec go : List (List Char) → Asking (List Char)
      | [] => return []
      | [c] :: rest => do
        if "bcdpflsD".contains c then return c :: (← go rest)
        else refuse ("Unknown argument to " ++ w ++ ": " ++ c.toString)
      | _ :: _ =>
        refuse ("Must separate multiple arguments to " ++ w ++ " using: ','")
    go parts
  regexOf (s : String) : Asking Regex := do
    match Regex.read ⟨false, true⟩ s.toList with
    | .ok (r, _) => return r
    | .error e =>
      refuse ("failed to compile regular expression '" ++ s ++ "': " ++ e)
  exec (w : String) (here asks : Bool) : Asking Condition := do
    let (words, many) ← command w
    if many then
      let n := (← get).runs
      let words := words.dropLast
      modify fun s => { s with runs := n + 1, pending := s.pending ++ [(n, here, words, [])] }
      return .runAll n here words
    else return .run here asks words

mutual

def listed : Nat → Asking Condition
  | 0 => return .always true
  | fuel + 1 => do
    let a ← either fuel
    if (← get).rest.head? == some "," then
      modify fun s => { s with rest := s.rest.drop 1 }
      return .second a (← listed fuel)
    else return a

def either : Nat → Asking Condition
  | 0 => return .always true
  | fuel + 1 => do
    let a ← both fuel
    match (← get).rest.head? with
    | some w =>
      if w == "-o" || w == "-or" then
        modify fun s => { s with rest := s.rest.drop 1, last := w }
        return .either a (← either fuel)
      else return a
    | none => return a

def both : Nat → Asking Condition
  | 0 => return .always true
  | fuel + 1 => do
    let a ← negation fuel
    match (← get).rest.head? with
    | none => return a
    | some w =>
      if w == "-a" || w == "-and" then
        modify fun s => { s with rest := s.rest.drop 1, last := w }
        return .both a (← both fuel)
      else if w == "-o" || w == "-or" || w == "," || w == ")" then return a
      else return .both a (← both fuel)

def negation : Nat → Asking Condition
  | 0 => return .always true
  | fuel + 1 => do
    match (← get).rest with
    | [] =>
      let last := (← get).last
      refuse (if last.isEmpty then "invalid expression" else
        "expected an expression after '" ++ last ++ "'")
    | w :: rest =>
      modify fun s => { s with rest, last := w }
      if w == "!" || w == "-not" then return .not (← negation fuel)
      else if w == "(" then
        if rest.head? == some ")" then
          refuse "invalid expression; empty parentheses are not allowed."
        if rest.isEmpty then
          refuse ("invalid expression; expected to find a ')' but didn't see one. " ++
            "Perhaps you need an extra predicate after '('")
        let c ← listed fuel
        match (← get).rest with
        | ")" :: rest =>
          modify fun s => { s with rest }
          return c
        | _ =>
          refuse ("invalid expression; I was expecting to find a ')' somewhere but did not " ++
            "see one.")
      else if ["-a", "-and", "-o", "-or", ","].contains w then
        refuse ("invalid expression; you have used a binary operator '" ++ w ++
          "' with nothing before it.")
      else if w == ")" then
        refuse "invalid expression; you have too many ')'"
      else simple w

end

end Asking

structure Finding where
  search : Search
  pruned : Bool := false
  done : Bool := false

abbrev Finder := StateT Finding (Run Context)

namespace Finder

def work {α : Type} (w : Work α) : Finder α := liftM w

def lastPart (p : String) : String := Name.base p

def behind (c : Candidate) : Finder Facts :=
  work do return (← facts? true c.path).getD c.facts

def runCommand (here : Option String) (words : List String) : Work Bool := do
  let c ← Work.context
  match ← imageOf c.bindings (words.headD "") (words.drop 1) with
  | .error e =>
    fault (Quotation.word (words.headD "") ++ ": " ++ Work.words e)
    return false
  | .ok i =>
    flush
    let child ← Run.fork (do
      match here with
      | some d => Run.change fun process k =>
          match k.resolve process true d with
          | .ok l => k.updateProcess process fun p => { p with directory := l }
          | .error _ => k
      | none => pure ()
      Run.become i)
    return (← Run.waitFor child) == some (.code 0)

def filled (c : Candidate) : Nat → List Char → String
  | 0, _ => ""
  | _, [] => ""
  | fuel + 1, '\\' :: d :: cs =>
    if '0' ≤ d ∧ d ≤ '7' then
      let digits := ((d :: cs).take 3).takeWhile fun c => '0' ≤ c && c ≤ '7'
      let n := digits.foldl (fun n c => n * 8 + (c.toNat - 0x30)) 0
      (Char.ofNat (n % 256)).toString ++ filled c fuel ((d :: cs).drop digits.length)
    else
      let one := match d with
        | 'n' => "\n"
        | 't' => "\t"
        | 'a' => "\x07"
        | 'b' => "\x08"
        | 'f' => "\x0c"
        | 'r' => "\x0d"
        | 'v' => "\x0b"
        | '\\' => "\\"
        | d => "\\" ++ d.toString
      if d == 'c' then "" else one ++ filled c fuel cs
  | fuel + 1, '%' :: cs =>
    let flags := cs.takeWhile fun c => "-+ #0".contains c
    let rest := cs.drop flags.length
    let digits := rest.takeWhile Char.isDigit
    let rest := rest.drop digits.length
    let precision := match rest with
      | '.' :: rest => some (rest.takeWhile Char.isDigit)
      | _ => none
    let rest := match precision with
      | some ds => rest.drop (ds.length + 1)
      | none => rest
    let width := (String.ofList digits).toNat?.getD 0
    match rest with
    | [] => "%"
    | d :: rest =>
      let f := c.facts
      let m := Moment.ofNanos f.time
      let full := m.formatted "%a %b %e %H:%M:%S.%N0 %Y"
      let kind := match f.kind with
        | .file => "f"
        | _ => (kindLetter f).toString
      let target := match f.kind with
        | .link t => t
        | _ => ""
      let below := (c.path.drop c.start.length).toString
      let below := if below.startsWith "/" then (below.drop 1).toString else below
      let (text, rest) : Option String × List Char := match d, rest with
        | 'T', t :: rest =>
          (if t == '@' then some (toString m.seconds ++ "." ++ Moment.padded '0' 9 m.nanosecond ++ "0")
            else if t == 'S' then some (m.formatted "%S.%N0")
            else if t == '+' then some (m.formatted "%Y-%m-%d+%H:%M:%S.%N0")
            else some (m.formatted ("%" ++ t.toString)), rest)
        | _, _ =>
          (match d with
          | 'p' => some c.path
          | 'f' => some (lastPart c.path)
          | 'h' =>
            some (if c.path.contains '/' then
              (let dir := Name.directory (Name.withoutSlashes c.path); dir) else ".")
          | 'P' => some below
          | 'H' => some c.start
          | 's' => some (toString f.size)
          | 'k' => some (toString ((blocksOf f + 1) / 2))
          | 'b' => some (toString (blocksOf f))
          | 'm' => some (Kernel.Permission.octalText f.mode)
          | 'M' => some (modeLetters f)
          | 'y' => some kind
          | 'Y' => some kind
          | 'd' => some (toString c.depth)
          | 'l' => some target
          | 'n' => some (toString f.names)
          | 'i' => some (toString (indexOf f))
          | 'u' => some "root"
          | 'g' => some "root"
          | 'U' => some "0"
          | 'G' => some "0"
          | 't' => some full
          | 'a' => some full
          | 'c' => some full
          | '%' => some "%"
          | _ => none, rest)
      match text with
      | some s =>
        let s := match precision with
          | some ds => (s.take ((String.ofList ds).toNat?.getD 0)).toString
          | none => s
        (if flags.contains '-' then Text.alignLeft width s
          else if flags.contains '0' then
            String.ofList (List.replicate (width - s.length) '0') ++ s
          else Text.alignRight width s) ++ filled c fuel rest
      | none => "%" ++ d.toString ++ filled c fuel rest
  | fuel + 1, d :: cs => d.toString ++ filled c fuel cs

def matchesPattern (folds : Bool) (pattern s : String) : Bool :=
  let fold (s : String) : String := if folds then s.toLower else s
  Shell.wordMatches (Shell.patternOf (fold pattern).toList) (fold s).toList

def isKind (f : Facts) (c : Char) : Bool :=
  match f.kind with
  | .file => c == 'f'
  | k => c == kindLetter { f with kind := k }

def holds (c : Candidate) : Condition → Finder Bool
  | .always b => return b
  | .name folds pattern => return matchesPattern folds pattern (lastPart c.path)
  | .path folds pattern => return matchesPattern folds pattern c.path
  | .regex r folds =>
    let s : Regex.Subject := { text := c.path.toList.toArray, folds }
    return (s.ways r ⟨0, []⟩).any (·.place = s.text.size)
  | .linkName folds pattern =>
    return match c.facts.kind with
      | .link target => matchesPattern folds pattern target
      | _ => false
  | .kind letters => return letters.any (isKind c.facts)
  | .empty => do
    match c.facts.kind with
    | .file => return c.facts.size = 0
    | .directory =>
      work do return ((← entriesOf c.path).toOption.map (·.isEmpty)).getD false
    | _ => return false
  | .size b unit => return b.holds ((c.facts.size + unit - 1) / unit)
  | .newer time => return time < c.facts.time
  | .age b unit => do
    let now ← work (Run.look fun _ k => k.clock)
    return b.holds ((now - c.facts.time) / (unit * Moment.nanosPerSecond)).toNat
  | .permissions sign mode =>
    return match sign with
      | none => c.facts.mode = mode
      | some '-' => c.facts.mode &&& mode = mode
      | some _ => mode = 0 || c.facts.mode &&& mode != 0
  | .names b => return b.holds c.facts.names
  | .index b => return b.holds (indexOf c.facts)
  | .same key => return c.facts.key.isSome && c.facts.key = key
  | .access bits => do
    let f ← behind c
    return f.isDirectory || f.mode &&& bits != 0
  | .prune => do
    modify fun s => { s with pruned := true }
    return true
  | .quit => do
    modify fun s => { s with done := true }
    return true
  | .write stop => do
    work (put (c.path ++ stop))
    return true
  | .format text => do
    work (put (filled c (text.length + 1) text.toList))
    return true
  | .list => do
    let now ← work (Run.look fun _ k => k.clock)
    let f := c.facts
    let target := match f.kind with
      | .link t => " -> " ++ t
      | _ => ""
    let size := toString f.size
    work (putLine (Text.alignRight 9 (toString (indexOf f)) ++ " " ++
      Text.alignRight 6 (toString ((blocksOf f + 1) / 2)) ++ " " ++ modeLetters f ++ " " ++
      Text.alignRight 3 (toString f.names) ++ " " ++ Text.alignLeft 8 "root" ++ " " ++
      Text.alignLeft 8 "root" ++ " " ++ Text.alignRight 8 size ++ " " ++
      (ListStyle.mk {}).timeOf now f ++ " " ++ c.path ++ target))
    return true
  | .delete => do
    match ← work (attempt fun process k => k.remove process c.facts.isDirectory c.path) with
    | .ok () => return true
    | .error e =>
      work (fault ("cannot delete " ++ Quotation.word c.path ++ ": " ++ Work.words e))
      return false
  | .run here asks command => do
    let name := if here then "./" ++ lastPart c.path else c.path
    let words := command.map (replaceMark "\x7b\x7d" name)
    if asks then
      work (tell ("< " ++ (command.headD "") ++ " ... " ++ c.path ++ " > ? "))
      let line ← work (Run.await fun process k => k.readLine process 0)
      let yes := ((line.toOption.getD []).head?).any fun b => b = 121 || b = 89
      if yes then work (runCommand (if here then some (Name.directory c.path) else none) words)
      else return false
    else work (runCommand (if here then some (Name.directory c.path) else none) words)
  | .runAll n here command => do
    if here then
      let name := "./" ++ lastPart c.path
      let ok ← work (runCommand (some (Name.directory c.path)) (command ++ [name]))
      if !ok then work (setStatus 1)
    else
      modify fun s => { s with search := { s.search with pending := s.search.pending.map fun p =>
        if p.1 = n then (p.1, p.2.1, p.2.2.1, p.2.2.2 ++ [c.path]) else p } }
    return true
  | .not a => do return !(← holds c a)
  | .both a b => do
    if ← holds c a then (do if (← get).done then return false else holds c b) else return false
  | .either a b => do if ← holds c a then return true else holds c b
  | .second a b => do
    let _ ← holds c a
    holds c b

def visit (condition : Condition) (start : String) (depth : Nat) : Nat → String → Finder Unit
  | 0, _ => return ()
  | fuel + 1, p => do
    let s := (← get).search
    if (← get).done then return ()
    let follow := s.follows || s.followsStart && depth = 0
    let known : Except FileError Facts ← work do
      match ← Run.facts follow p with
      | .ok f => return Except.ok f
      | .error e => if follow then Run.facts false p else return Except.error e
    match known with
    | .error e => work (fault (Quotation.word p ++ ": " ++ Work.words e))
    | .ok f =>
      let c : Candidate := ⟨p, start, depth, f⟩
      let look : Finder Unit := do
        if s.least ≤ depth && !(← get).done then
          let _ ← holds c condition
      modify fun s => { s with pruned := false }
      if !s.depthFirst then look
      let pruned := (← get).pruned && !s.depthFirst
      if f.isDirectory && !pruned && s.most.all (depth < ·) && !(← get).done then
        match ← work (entriesOf p) with
        | .error e => work (fault (Quotation.word p ++ ": " ++ Work.words e))
        | .ok entries => entries.forM (visit condition start (depth + 1) fuel)
      if s.depthFirst then look

end Finder

def startsCondition (a : String) : Bool :=
  a.startsWith "-" && a != "-" || a == "(" || a == "!" || a == "," && false

def find : Work Nat := do
  let args := (← get).arguments
  let rec leading (s : Search) : List String → Search × List String
    | "-H" :: rest => leading { s with follows := false, followsStart := true } rest
    | "-L" :: rest => leading { s with follows := true, followsStart := true } rest
    | "-P" :: rest => leading { s with follows := false, followsStart := false } rest
    | rest => (s, rest)
  let (s, rest) := leading {} args
  let starts := rest.takeWhile (!startsCondition ·)
  let words := rest.drop starts.length
  let (condition, s) ← (do
    if (← get).rest.isEmpty then return Condition.write "\n"
    let c ← Asking.listed (4 * words.length + 4)
    match (← get).rest with
    | w :: _ =>
      if w == ")" then Asking.refuse "invalid expression; you have too many ')'"
      else Asking.refuse ("paths must precede expression: \x60" ++ w ++ "'")
    | [] => pure ()
    return if c.acts then c else .both c (.write "\n") : Asking Condition).run { s with rest := words }
  let starts := if starts.isEmpty then ["."] else starts
  let (_, finding) ← (starts.forM fun p => Finder.visit condition p 0 maxDepth p :
    Finder Unit).run { search := s }
  each (fun (_, _, command, files) => do
    if !files.isEmpty then
      let ok ← Finder.runCommand none (command ++ files)
      if !ok then setStatus 1) finding.search.pending
  return (← get).status

def searches : List Program := [{ name := "find", main := find }]

end CompiledModels.Tool
