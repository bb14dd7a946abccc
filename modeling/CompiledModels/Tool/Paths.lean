import CompiledModels.Tool.Amount

namespace CompiledModels.Tool

open Kernel (Facts Run)
open Work

def facts? (follow : Bool) (p : String) : Work (Option Facts) :=
  return (← Run.facts follow p).toOption

def isDirectory (p : String) : Work Bool := return (← facts? true p).any (·.isDirectory)

def isThere (p : String) : Work Bool := return (← facts? false p).isSome

def attempt (f : Nat → Kernel → Except FileError Kernel) : Work (Except FileError Unit) :=
  Run.tryChange f

def confirm (question : String) : Work Bool := do
  tell ((← get).name ++ ": " ++ question)
  let line ← Run.await fun process k => k.readLine process 0
  return ((line.toOption.getD []).head?).any fun b => b = 121 || b = 89

def confirmIf (asks : Bool) (question : String) : Work Bool :=
  if asks then confirm question else return true

namespace Name

def base (s : String) : String :=
  let parts := (Path.segments s).filter (· ≠ "")
  if parts.isEmpty then (if s.isEmpty then "" else "/") else parts.getLast?.getD ""

def directory (s : String) : String :=
  let cs := (s.toList.reverse.dropWhile (· == '/')).dropWhile (· != '/')
  let kept := (cs.dropWhile (· == '/')).reverse
  if cs.isEmpty then (if s.startsWith "/" then "/" else ".")
  else if kept.isEmpty then "/" else String.ofList kept

def withoutSuffix (suffix name : String) : String :=
  if name.endsWith suffix && name != suffix then
    String.ofList (name.toList.take (name.length - suffix.length))
  else name

def withoutSlashes (s : String) : String :=
  let cs := (s.toList.reverse.dropWhile (· == '/')).reverse
  if cs.isEmpty then (if s.isEmpty then "" else "/") else String.ofList cs

def isDots (s : String) : Bool :=
  let last := (Path.segments (withoutSlashes s)).getLast?.getD ""
  last == "." || last == ".."

def ofLocation (l : Files.Location) : String := "/" ++ "/".intercalate (l.map Text.toOctets)

end Name

def basename : Work Nat := do
  let o ← (Known.of "as:z" "multiple/a suffix=s zero/z" true).read
  let stop := if o.has 'z' then "\x00" else "\n"
  let showAll (suffix : String) : Work Unit :=
    each (fun p => put (Name.withoutSuffix suffix (Name.base p) ++ stop)) o.operands
  if o.has 'a' || o.has 's' then
    if o.operands.isEmpty then misuse "missing operand"
    showAll ((o.text? 's').getD "")
  else match o.operands with
    | [] => misuse "missing operand"
    | [p] => put (Name.base p ++ stop)
    | [p, suffix] => put (Name.withoutSuffix suffix (Name.base p) ++ stop)
    | _ :: _ :: extra :: _ => misuse ("extra operand " ++ Quotation.word extra)
  return 0

def dirname : Work Nat := do
  let o ← (Known.of "z" "zero/z" true).read
  if o.operands.isEmpty then misuse "missing operand"
  let stop := if o.has 'z' then "\x00" else "\n"
  each (fun p => put (Name.directory p ++ stop)) o.operands
  return 0

inductive Needs
  | all
  | parents
  | none
  deriving DecidableEq

def followParts (k : Kernel) (needs : Needs) : Nat → Files.Location → List String →
    Except FileError Files.Location
  | 0, _, _ => .error (.os .tooManyLinks)
  | _, l, [] => .ok l
  | fuel + 1, l, s :: rest =>
    if s.isEmpty || s == "." then followParts k needs fuel l rest
    else if s == ".." then followParts k needs fuel l.dropLast rest
    else
      let m := l ++ [Text.ofOctets s]
      let isLast := rest.all fun s => s.isEmpty || s == "."
      match k.files.get? m with
      | some (.link target) =>
        let start := if target.startsWith "/" then [] else l
        followParts k needs fuel start (Path.segments (Text.toOctets target) ++ rest)
      | some .directory => followParts k needs fuel m rest
      | some _ =>
        if rest.isEmpty || needs = .none then followParts k needs fuel m rest
        else .error (.os .notDirectory)
      | none =>
        if needs = .none || needs = .parents && isLast then followParts k needs fuel m rest
        else .error (.os .noEntry)

def canonical (needs : Needs) (p : String) : Work (Except FileError String) :=
  Run.look fun process k =>
    if p.isEmpty then .error (.os .noEntry)
    else
      let start := if p.startsWith "/" then [] else k.directory process
      let fuel := (p.length + 2) * 64
      (followParts k needs fuel start (Path.segments p)).map Name.ofLocation

def readlink : Work Nat := do
  let o ← (Known.of "efmnqsvz" ("canonicalize/f canonicalize-existing/e canonicalize-missing/m " ++
    "no-newline/n quiet/q silent/q verbose/v zero/z")).read
  if o.operands.isEmpty then misuse "missing operand"
  let bare := o.has 'n' && o.operands.length = 1
  if o.has 'n' && 1 < o.operands.length then
    complain "ignoring --no-newline with multiple arguments"
  let stop := if bare then "" else if o.has 'z' then "\x00" else "\n"
  let needs : Option Needs := match o.last? "efm" with
    | some 'e' => some .all
    | some 'f' => some .parents
    | some 'm' => some .none
    | _ => none
  each (fun p => do
    let found : Except FileError String ← match needs with
      | some needs => canonical needs p
      | none => do
        match ← Run.facts false p with
        | .ok f =>
          match f.kind with
          | .link target => pure (.ok target)
          | _ => pure (.error (.os .invalid))
        | .error e => pure (.error e)
    match found with
    | .ok s => put (s ++ stop)
    | .error e =>
      setStatus 1
      if o.has 'v' then complain (Quotation.subject p ++ ": " ++ words e)) o.operands
  return (← get).status

def relativePath (base p : String) : String :=
  let parts (s : String) : List String := (Path.segments s).filter (· ≠ "")
  let rec go : List String → List String → List String
    | a :: as, b :: bs => if a == b then go as bs else (a :: as).map (fun _ => "..") ++ b :: bs
    | as, bs => as.map (fun _ => "..") ++ bs
  let path := go (parts base) (parts p)
  if path.isEmpty then "." else "/".intercalate path

def logicalPath (p : String) : Work String := do
  let cwd ← Run.look fun process k => Name.ofLocation (k.directory process)
  let full := if p.startsWith "/" then p else cwd ++ "/" ++ p
  let names := (Path.segments full).foldl (fun names s =>
    if s.isEmpty || s == "." then names
    else if s == ".." then names.drop 1 else s :: names) ([] : List String)
  return "/" ++ "/".intercalate names.reverse

def realpath : Work Nat := do
  let o ← (Known.of "eLmPqsz" ("canonicalize-existing/e canonicalize-missing/m logical/L " ++
    "physical/P quiet/q strip/s no-symlinks/s zero/z relative-to=t relative-base=b")).read
  if o.operands.isEmpty then misuse "missing operand"
  let needs : Needs := match o.last? "em" with
    | some 'e' => .all
    | some _ => .none
    | none => .parents
  let stop := if o.has 'z' then "\x00" else "\n"
  let find (p : String) : Work (Except FileError String) := do
    if p.isEmpty then return .error (.os .noEntry)
    if o.has 's' then return .ok (← logicalPath p) else canonical needs p
  let base : Option String ← match o.text? 't' with
    | none => pure none
    | some d =>
      match ← find d with
      | .ok s => pure (some s)
      | .error e => refuse (Quotation.subject d ++ ": " ++ words e)
  each (fun p => do
    match ← find p with
    | .ok s => put ((base.elim s (relativePath · s)) ++ stop)
    | .error e =>
      if o.has 'q' then setStatus 1 else fault (Quotation.subject p ++ ": " ++ words e)) o.operands
  return (← get).status

def pwd : Work Nat := do
  let o ← (Known.of "LP" "logical/L physical/P").read
  if !o.operands.isEmpty then complain "ignoring non-option arguments"
  let told ← setting? "PWD"
  let logical : Option String ← Run.look fun process k =>
    told.filter fun p => p.startsWith "/" && !((Path.segments p).any fun s => s == "." || s == "..") &&
      (k.resolve process true p).toOption = some (k.directory process)
  let physical ← Run.look fun process k => Name.ofLocation (k.directory process)
  let strict := (← setting? "POSIXLY_CORRECT").isSome
  let wantsLogical := (o.last? "LP").elim strict (· == 'L')
  putLine (if wantsLogical then logical.getD physical else physical)
  return 0

def paths : List Program := [
  { name := "basename", main := basename }, { name := "dirname", main := dirname },
  { name := "pwd", main := pwd }, { name := "readlink", main := readlink },
  { name := "realpath", main := realpath }]

end CompiledModels.Tool
