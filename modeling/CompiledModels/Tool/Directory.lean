import CompiledModels.Kernel.Permission
import CompiledModels.Tool.Paths

namespace CompiledModels.Tool

open Kernel (Permission.change? Run)
open Work

def maskOf : Work Nat :=
  Run.look fun process k => ((k.process? process).map (·.mask)).getD 0

def demandMode (o : Options) (directory : Bool) (usual : Nat) : Work Nat := do
  let mask ← maskOf
  match o.text? 'm' with
  | none => return usual &&& (0o7777 ^^^ mask)
  | some s =>
    match Permission.change? s directory mask usual with
    | some mode => return mode
    | none =>
      if directory then refuse ("invalid mode: " ++ Quotation.word s)
      else refuse "invalid mode"

def ancestry (s : String) : List String :=
  let cs := s.toList
  let rec ends : Nat → Bool → List Char → List Nat
    | _, _, [] => []
    | n, inName, c :: rest =>
      if c == '/' then (if inName then [n] else []) ++ ends (n + 1) false rest
      else if rest.all (· == '/') then [cs.length]
      else ends (n + 1) true rest
  (ends 0 false cs).map fun n => String.ofList (cs.take n)

def mkdir : Work Nat := do
  let o ← (Known.of "m:pvZ" "context?Z mode=m parents/p verbose/v").read
  if o.operands.isEmpty then misuse "missing operand"
  let mode ← demandMode o true 0o777
  let mask ← maskOf
  let between := 0o777 &&& (0o7777 ^^^ (mask &&& 0o477))
  let make (mode : Nat) (p : String) : Work Bool := do
    match ← attempt fun process k => k.makeDirectory process mode p with
    | .ok () =>
      if o.has 'v' then putLine ((← get).name ++ ": created directory " ++ Quotation.always p)
      return true
    | .error e =>
      fault ("cannot create directory " ++ Quotation.always p ++ ": " ++ words e)
      return false
  let rec makeAll : List String → Work Unit
    | [] => return ()
    | p :: rest => do
      if ← isDirectory p then makeAll rest
      else if !rest.isEmpty && (← facts? true p).isSome then
        fault ("cannot create directory " ++ Quotation.always p ++ ": " ++
          words (.os .notDirectory))
      else if ← make (if rest.isEmpty then mode else between) p then makeAll rest
  each (fun p => do
    if o.has 'p' then
      if p.isEmpty then let _ ← make mode p
      else makeAll (ancestry p)
    else let _ ← make mode p) o.operands
  return (← get).status

def rmdir : Work Nat := do
  let o ← (Known.of "pv" "ignore-fail-on-non-empty/i parents/p path/p verbose/v").read
  if o.operands.isEmpty then misuse "missing operand"
  let remove (what p : String) : Work Bool := do
    if o.has 'v' then putLine ((← get).name ++ ": removing directory, " ++ Quotation.always p)
    match ← attempt fun process k => k.remove process true p with
    | .ok () => return true
    | .error e =>
      if !(o.has 'i' && e = .os .notEmpty) then
        fault ("failed to remove " ++ what ++ Quotation.always p ++ ": " ++ words e)
      return false
  let rec removeAll : List String → Work Unit
    | [] => return ()
    | p :: rest => do if ← remove "directory " p then removeAll rest
  each (fun p => do
    if ← remove "" p then
      if o.has 'p' then removeAll ((ancestry p).dropLast.reverse)) o.operands
  return (← get).status

def kindWord (f : Kernel.Facts) : String :=
  match f.kind with
  | .file => if f.size = 0 then "regular empty file" else "regular file"
  | .directory => "directory"
  | .link _ => "symbolic link"
  | .pipe => "fifo"
  | .device _ => "character special file"

def entriesOf (p : String) : Work (Except FileError (List String)) :=
  Run.look fun process k =>
    (k.list process p).map fun names => names.map (Path.joinText p)

def maxDepth : Nat := 2000

structure Removal where
  recursive : Bool
  directories : Bool
  force : Bool
  asks : Bool
  verbose : Bool

namespace Removal

variable (r : Removal)

def failed (p : String) (e : FileError) : Work Bool := do
  if r.force && (e = .os .noEntry || e = .os .notDirectory) then return true
  fault ("cannot remove " ++ Quotation.always p ++ ": " ++ words e)
  return false

def removeOne (p : String) (f : Kernel.Facts) : Work Bool := do
  if !(← confirmIf r.asks ("remove " ++ kindWord f ++ " " ++ Quotation.always p ++ "? ")) then
    return false
  match ← attempt fun process k => k.remove process f.isDirectory p with
  | .ok () =>
    if r.verbose then
      putLine ("removed " ++ (if f.isDirectory then "directory " else "") ++ Quotation.always p)
    return true
  | .error e => r.failed p e

def remove : Nat → String → Work Bool
  | 0, _ => return false
  | depth + 1, p => do
    match ← Run.facts false p with
    | .error e => r.failed p e
    | .ok f =>
      if !f.isDirectory then r.removeOne p f
      else if !r.recursive then
        if r.directories then r.removeOne p f else r.failed p (.os .isDirectory)
      else
        match ← entriesOf p with
        | .error e => r.failed p e
        | .ok [] => r.removeOne p f
        | .ok entries =>
          if !(← confirmIf r.asks
              ("descend into directory " ++ Quotation.always p ++ "? ")) then
            return false
          let gone ← entries.mapM (remove depth)
          if gone.all id then r.removeOne p f else return false

end Removal

def rm : Work Nat := do
  let o ← (Known.of "dfiIrRv" ("force/f interactive?x one-file-system/o no-preserve-root/N " ++
    "preserve-root?P recursive/r dir/d verbose/v")).read
  let asking := o.given.reverse.find? fun g => "fiIx".contains g.letter
  let asks := match asking with
    | some ⟨'i', _⟩ => true
    | some ⟨'x', text⟩ => text.all (· == "always")
    | _ => false
  let asksOnce := match asking with
    | some ⟨'I', _⟩ => true
    | some ⟨'x', some "once"⟩ => true
    | _ => false
  let force := asking.any (·.letter = 'f')
  if o.operands.isEmpty then
    if force then finish 0 else misuse "missing operand"
  let r : Removal :=
    { recursive := o.has 'r' || o.has 'R', directories := o.has 'd', force, asks
      verbose := o.has 'v' }
  let count := o.operands.length
  if asksOnce && (r.recursive || 3 < count) then
    let question := "remove " ++ toString count ++ (if count = 1 then " argument" else " arguments") ++
      (if r.recursive then " recursively? " else "? ")
    if !(← confirm question) then finish 0
  each (fun p => do
    if r.recursive && !p.isEmpty && Name.isDots p then
      fault ("refusing to remove '.' or '..' directory: skipping " ++ Quotation.always p)
    else if r.recursive && Name.withoutSlashes p == "/" && !o.has 'N' then
      if p == "/" then
        complain "it is dangerous to operate recursively on '/'"
      else complain ("it is dangerous to operate recursively on " ++ Quotation.always p ++
        " (same as '/')")
      fault "use --no-preserve-root to override this failsafe"
    else let _ ← r.remove maxDepth p) o.operands
  return (← get).status

def mkfifo : Work Nat := do
  let o ← (Known.of "m:Z" "context?Z mode=m").read
  if o.operands.isEmpty then misuse "missing operand"
  let mode ← demandMode o false 0o666
  each (fun p => do
    match ← attempt fun process k => k.makeNamedPipe process mode p with
    | .ok () => pure ()
    | .error e => fault ("cannot create fifo " ++ Quotation.always p ++ ": " ++ words e)) o.operands
  return (← get).status

def unlink : Work Nat := do
  let o ← (Known.of "" "").read
  match o.operands with
  | [] => misuse "missing operand"
  | [p] =>
    match ← attempt fun process k => k.remove process false p with
    | .ok () => return 0
    | .error e => refuse ("cannot unlink " ++ Quotation.always p ++ ": " ++ words e)
  | _ :: extra :: _ => misuse ("extra operand " ++ Quotation.word extra)

def nameChars : List Char :=
  "ABCDEFGHIJKLMNOPQRSTUVWXYZabcdefghijklmnopqrstuvwxyz0123456789".toList

def drawName : Nat → Nat → List Char
  | 0, _ => []
  | count + 1, seed =>
    nameChars.getD (seed / 1024 % nameChars.length) 'A' ::
      drawName count (seed * 6364136223846793005 % 2 ^ 64 + 1442695040888963407)

def mktemp : Work Nat := do
  let o ← (Known.of "dp:qtuV" "directory/d quiet/q dry-run/u suffix=s tmpdir?p").read
  match o.operands with
  | _ :: _ :: _ => misuse "too many templates"
  | _ => pure ()
  let template := o.operands.headD "tmp.XXXXXXXXXX"
  let suffix := o.text? 's'
  let cs := template.toList
  let behind := match suffix with
    | some s => s.toList
    | none => (cs.reverse.takeWhile (· != 'X')).reverse
  let front := if suffix.isSome then cs else cs.take (cs.length - behind.length)
  if suffix.isSome && front.getLast? != some 'X' then
    refuse ("with --suffix, template " ++ Quotation.word template ++ " must end in X")
  let marks := (front.reverse.takeWhile (· == 'X')).length
  if marks < 3 then refuse ("too few X's in template " ++ Quotation.word template)
  let inTemporary := o.operands.isEmpty || o.has 'p' || o.has 't'
  let dir ← match o.text? 'p' with
    | some d => pure d
    | none => pure ((← setting? "TMPDIR").getD "/tmp")
  if inTemporary && template.startsWith "/" && !o.has 't' then
    refuse ("invalid template, " ++ Quotation.word template ++
      "; with --tmpdir, it may not be absolute")
  let stem := String.ofList (front.take (front.length - marks))
  let nameWith (seed : Nat) : String :=
    let name := stem ++ String.ofList (drawName marks seed) ++ String.ofList behind
    if inTemporary then Path.joinText (if dir.isEmpty then "/tmp" else dir) name else name
  let seed ← Run.look fun process k => k.files.nextNumber * 7919 + process * 104729 + k.now
  let rec go : Nat → Nat → Work Nat
    | 0, _ => return 1
    | tries + 1, seed => do
      let p := nameWith (seed * 2862933555777941757 + 3037000493)
      if ← isThere p then go tries (seed + 1)
      else if o.has 'u' then
        putLine p
        return 0
      else
        let made : Except FileError Unit ←
          if o.has 'd' then attempt fun process k => k.makeDirectory process 0o700 p
          else do
            match ← Run.openFile p { Kernel.Mode.writing with onlyNew := true } with
            | .error e => pure (.error e)
            | .ok d =>
              Run.close d
              attempt fun process k => k.setMode process 0o600 p
        match made with
        | .ok () =>
          putLine p
          return 0
        | .error e =>
          let what := if o.has 'd' then "directory" else "file"
          let shown := if inTemporary then Path.joinText dir template else template
          if !o.has 'q' then
            complain ("failed to create " ++ what ++ " via template " ++ Quotation.always shown ++
              ": " ++ words e)
          return 1
  go 1000 seed

def directories : List Program := [
  { name := "mkdir", main := mkdir }, { name := "mkfifo", main := mkfifo },
  { name := "mktemp", main := mktemp }, { name := "rm", main := rm },
  { name := "rmdir", main := rmdir }, { name := "unlink", main := unlink }]

end CompiledModels.Tool
