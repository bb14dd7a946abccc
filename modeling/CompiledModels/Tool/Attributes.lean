import CompiledModels.Tool.Calendar
import CompiledModels.Tool.Directory

namespace CompiledModels.Tool

open Kernel (Facts Permission.change? Permission.lettersOf Permission.octalText Run)
open Work

def modeDigits (mode : Nat) : String :=
  let digits := Permission.octalText mode
  String.ofList (List.replicate (4 - digits.length) '0') ++ digits

def modeShown (mode : Nat) : String := modeDigits mode ++ " (" ++ Permission.lettersOf mode ++ ")"

structure ModeChange where
  mode : Nat → Bool → Nat
  vague : Nat → Bool → Nat
  recursive : Bool
  quiet : Bool
  verbose : Bool
  changes : Bool

namespace ModeChange

variable (c : ModeChange)

def apply : Nat → String → Work Unit
  | 0, _ => return ()
  | depth + 1, p => do
    match ← Run.facts true p with
    | .error e =>
      if (← facts? false p).isSome then
        if !c.quiet then
          complain ("cannot operate on dangling symlink " ++ Quotation.always p)
      else if !c.quiet then
        complain ("cannot access " ++ Quotation.always p ++ ": " ++ words e)
      setStatus 1
    | .ok f =>
      let new := c.mode f.mode f.isDirectory
      match ← attempt fun process k => k.setMode process new p with
      | .error e =>
        fault ("changing permissions of " ++ Quotation.always p ++ ": " ++ words e)
      | .ok () =>
        if new != f.mode then
          if c.verbose || c.changes then
            putLine ("mode of " ++ Quotation.always p ++ " changed from " ++ modeShown f.mode ++
              " to " ++ modeShown new)
        else if c.verbose then
          putLine ("mode of " ++ Quotation.always p ++ " retained as " ++ modeShown new)
        let plain := c.vague f.mode f.isDirectory
        if plain != new && new &&& (0o7777 ^^^ plain) != 0 then
          fault (Quotation.subject p ++ ": new permissions are " ++ Permission.lettersOf new ++
            ", not " ++ Permission.lettersOf plain)
      if c.recursive && f.isDirectory then
        match ← entriesOf p with
        | .ok entries =>
          each (fun q => do
            if !((← facts? false q).any (·.isLink)) then apply depth q) entries
        | .error e => fault ("cannot read directory " ++ Quotation.always p ++ ": " ++ words e)

end ModeChange

def isModeOption (a : String) : Bool :=
  a.startsWith "-" && 1 < a.length && !a.startsWith "--" &&
    a.toList.any (fun c => "rwxXstugoa0123456789,+=".contains c) &&
    (a.toList.drop 1).all fun c => "rwxXstugoa0123456789,+=-".contains c

def chmod : Work Nat := do
  let args := (← get).arguments
  let front := args.takeWhile (· != "--")
  let minus := front.filter isModeOption
  let others := (front.filter (!isModeOption ·)) ++ args.drop front.length
  let o ← (Known.of "Rcfv" ("changes/c recursive/R no-preserve-root/N preserve-root/P quiet/f " ++
    "silent/f verbose/v reference=r dereference/D no-dereference/h")).readAll others
  let (spec, files) := match o.text? 'r', minus with
    | some _, _ => (none, o.operands)
    | none, [] => (o.operands.head?, o.operands.drop 1)
    | none, ms => (some (",".intercalate ms), o.operands)
  if files.isEmpty then
    match spec with
    | some mode =>
      if minus.isEmpty then misuse ("missing operand after " ++ Quotation.word mode)
      else misuse "missing operand"
    | none => misuse "missing operand"
  let mask ← maskOf
  let (mode, vague) : (Nat → Bool → Nat) × (Nat → Bool → Nat) ← match spec, o.text? 'r' with
    | some s, _ =>
      match Permission.change? s false mask 0 with
      | none => misuse ("invalid mode: " ++ Quotation.word s)
      | some _ =>
        let changed (mask : Nat) (old : Nat) (d : Bool) : Nat :=
          (Permission.change? s d mask old).getD old
        pure (changed mask, if minus.isEmpty then changed mask else changed 0)
    | none, some r =>
      match ← Run.facts true r with
      | .ok f => pure ((fun _ _ => f.mode), (fun _ _ => f.mode))
      | .error e => refuse ("failed to get attributes of " ++ Quotation.always r ++ ": " ++ words e)
    | none, none => misuse "missing operand"
  let c : ModeChange :=
    { mode, vague, recursive := o.has 'R', quiet := o.has 'f', verbose := o.has 'v'
      changes := o.has 'c' }
  each (c.apply maxDepth) files
  return (← get).status

def chown : Work Nat := do
  let o ← (Known.of "HLPRcfhv" ("recursive/R changes/c dereference/d from=F no-dereference/h " ++
    "no-preserve-root/N preserve-root/P quiet/f silent/f reference=r verbose/v")).read
  let files := if o.has 'r' then o.operands else o.operands.drop 1
  match o.operands with
  | [] => misuse "missing operand"
  | owner :: _ =>
    if files.isEmpty then misuse ("missing operand after " ++ Quotation.word owner)
    let names := Text.splitAll (· == ':') owner.toList
    let known (s : List Char) : Bool :=
      s.isEmpty || s.all Char.isDigit || String.ofList s == "root"
    match if o.has 'r' then none else names.find? (!known ·) with
    | some _ =>
      let isGroup := (← get).name.endsWith "chgrp"
      refuse ((if isGroup then "invalid group: " else "invalid user: ") ++ Quotation.word owner)
    | none => pure ()
    each (fun p => do
      match ← Run.facts true p with
      | .ok _ => pure ()
      | .error e =>
        if o.has 'f' then setStatus 1
        else fault ("cannot access " ++ Quotation.always p ++ ": " ++ words e)) files
    return (← get).status

def touch : Work Nat := do
  let o ← (Known.of "acd:fhmr:t:" "time=T no-create/c date=d reference=r no-dereference/h").read
  if o.operands.isEmpty then misuse "missing file operand"
  let now ← Run.look fun _ k => k.clock
  let base : Int ← match o.text? 'r' with
    | none => pure now
    | some r =>
      match ← Run.facts true r with
      | .ok f => pure f.time
      | .error e => refuse ("failed to get attributes of " ++ Quotation.always r ++ ": " ++ words e)
  let time : Option Int ← match o.text? 'd', o.text? 't' with
    | some d, _ =>
      match Moment.ofDate? base d with
      | some t => pure (some t)
      | none => refuse ("invalid date format " ++ Quotation.word d)
    | none, some t =>
      match Moment.ofDigits? now t with
      | some t => pure (some t)
      | none => refuse ("invalid date format " ++ Quotation.word t)
    | none, none => pure (if o.has 'r' then some base else none)
  let onlyAccess := o.has 'a' && !o.has 'm' || (o.text? 'T').any fun s =>
    ["access", "atime", "use"].contains s
  each (fun p => do
    let there ← isThere p
    let made : Except FileError Unit ←
      if there || o.has 'c' then
        pure (if !there || (← facts? true p).isSome || o.has 'h' then .ok () else .ok ())
      else do
        match ← Run.openFile p { Kernel.Mode.writing with truncates := false } with
        | .ok d =>
          Run.close d
          pure (.ok ())
        | .error e => pure (.error e)
    match made with
    | .error e => fault ("cannot touch " ++ Quotation.always p ++ ": " ++ words e)
    | .ok () =>
      if !onlyAccess && (there || !o.has 'c') then
        let _ ← attempt fun process k => do
          let key ← k.keyOf process (!o.has 'h') p
          return k.setAttributes key fun a => { a with time := some (time.getD k.clock) })
    o.operands
  return (← get).status

def newSize (s : String) : Work (Nat → Nat) := do
  let cs := s.toList.dropWhile fun c => c == ' ' || c == '\t'
  let sign := cs.head?.filter fun c => "+-<>/%".contains c
  let n ← Amount.demand Amount.units "Invalid number"
    (if sign.isSome then String.ofList (cs.drop 1) else s)
  if n = 0 && (sign == some '/' || sign == some '%') then refuse "division by zero"
  return fun old =>
    match sign with
    | some '+' => old + n
    | some '-' => old - n
    | some '<' => min old n
    | some '>' => max old n
    | some '/' => old / n * n
    | some '%' => (old + n - 1) / n * n
    | _ => n

def truncate : Work Nat := do
  let o ← (Known.of "cor:s:" "no-create/c io-blocks/o reference=r size=s").read
  if !o.has 's' && !o.has 'r' then
    misuse "you must specify either '--size' or '--reference'"
  let size : Nat → Nat ← match o.text? 's', o.text? 'r' with
    | some s, none => newSize s
    | _, some r =>
      match ← Run.facts true r with
      | .ok f => do
        let change ← match o.text? 's' with
          | some s => newSize s
          | none => pure id
        pure fun _ => change f.size
      | .error e => refuse ("cannot stat " ++ Quotation.always r ++ ": " ++ words e)
    | none, none => pure id
  if o.operands.isEmpty then misuse "missing file operand"
  each (fun p => do
    if o.has 'c' && (← facts? true p).isNone then return ()
    match ← Run.openFile p { Kernel.Mode.writing with truncates := false } with
    | .error e =>
      fault ("cannot open " ++ Quotation.always p ++ " for writing: " ++ words e)
    | .ok d =>
      Run.change fun process k =>
        match k.opened? process d with
        | some (_, { target := .file n, .. }) => k.edit n (.resize (size (k.contentOf n).size))
        | _ => k
      Run.close d) o.operands
  return (← get).status

def attributes : List Program := [
  { name := "chgrp", main := chown }, { name := "chmod", main := chmod },
  { name := "chown", main := chown }, { name := "touch", main := touch },
  { name := "truncate", main := truncate }]

end CompiledModels.Tool
