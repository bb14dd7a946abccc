import CompiledModels.Tool.Directory

namespace CompiledModels.Tool

open Kernel (Facts Run)
open Work

inductive Destination
  | place (source dest : String)
  | directory (sources : List String) (dir : String)

structure Moving where
  verb : String
  verbose : Bool
  asks : Bool
  keeps : Bool
  updates : Bool
  backup : Option String
  force : Bool

def destination (o : Options) (single : Bool) : Work Destination := do
  let exact := o.has 'T'
  match o.operands, o.text? 't' with
  | [], _ => misuse "missing file operand"
  | files, some dir =>
    if exact then refuse "cannot combine --target-directory (-t) and --no-target-directory (-T)"
    match ← Run.facts true dir with
    | .ok f =>
      if f.isDirectory then return .directory files dir
      else refuse ("target directory " ++ Quotation.always dir ++ ": " ++ words (.os .notDirectory))
    | .error e => refuse ("target directory " ++ Quotation.always dir ++ ": " ++ words e)
  | [only], none =>
    if single && !exact then return .directory [only] "."
    else misuse ("missing destination file operand after " ++ Quotation.always only)
  | files, none =>
    let dir := files.getLast?.getD ""
    let sources := files.dropLast
    if exact then
      match sources with
      | [source] => return .place source dir
      | _ :: _ => misuse ("extra operand " ++ Quotation.always ((files[2]?).getD ""))
      | [] => misuse "missing file operand"
    let there ← Run.facts true dir
    match there, sources with
    | .ok f, [source] =>
      if f.isDirectory && !(o.has 'n' && single && (← facts? false dir).any (·.isLink)) then
        return .directory sources dir
      else return .place source dir
    | .error _, [source] => return .place source dir
    | .ok f, _ =>
      if f.isDirectory then return .directory sources dir
      else refuse ("target " ++ Quotation.always dir ++ ": " ++ words (.os .notDirectory))
    | .error e, _ => refuse ("target " ++ Quotation.always dir ++ ": " ++ words e)

def bringAll (bring : List String → String → String → Work Unit) : Destination → Work Unit
  | .place source dest => bring [] source dest
  | .directory sources dir =>
    let rec go (made : List String) : List String → Work Unit
      | [] => return ()
      | source :: rest => do
        let dest := Path.joinText dir (Name.base (Name.withoutSlashes source))
        bring made source dest
        go (dest :: made) rest
    go [] sources

def sameFile (a b : Facts) : Bool := a.key.isSome && a.key = b.key

def isNewer (a b : Facts) : Bool := b.time < a.time

def liesIn (inner outer : String) : Work Bool :=
  Run.look fun process k =>
    match k.resolve process true outer, k.resolve process true (Name.directory inner) with
    | .ok o, .ok i => o.isPrefixOf i
    | _, _ => false

def likeness (p : String) (mode : Nat) (time : Option Int) : Work Unit := do
  let _ ← attempt fun process k => do
    let k ← k.setMode process mode p
    match time with
    | none => return k
    | some t =>
      let key ← k.keyOf process true p
      return k.setAttributes key fun a => { a with time := some t }

def copyOpen (source dest : Nat) : Nat → Work (Except FileError Unit)
  | 0 => hang
  | turns + 1 => do
    match ← Run.read source Run.blockSize with
    | .error e => return .error e
    | .ok [] => return .ok ()
    | .ok bytes =>
      match ← Run.write dest bytes with
      | .error e => return .error e
      | .ok () => copyOpen source dest turns

structure Copying extends Moving where
  recursive : Bool
  followsNamed : Bool
  followsFound : Bool
  preserves : Bool
  links : Bool
  symbolic : Bool
  removes : Bool

namespace Moving

variable (m : Moving)

def keepOld (dest : String) : Work Unit := do
  match m.backup with
  | none => return ()
  | some suffix =>
    let _ ← attempt fun process k => k.rename process dest (dest ++ suffix)

end Moving

namespace Copying

variable (c : Copying)

def announce (source dest : String) : Work Unit := do
  if c.verbose then putLine (Quotation.always source ++ " -> " ++ Quotation.always dest)

def complainCreating (dest : String) (e : FileError) : Work Unit :=
  fault ("cannot create regular file " ++ Quotation.always dest ++ ": " ++ words e)

def copyFile (f : Facts) (source dest : String) : Work Unit := do
  match ← Run.openFile source .reading with
  | .error e => fault ("cannot open " ++ Quotation.always source ++ " for reading: " ++ words e)
  | .ok input =>
    let isNew := !(← isThere dest)
    let dangling := !isNew && (← facts? true dest).isNone
    if dangling && (← facts? false dest).any (·.isLink) then
      fault ("not writing through dangling symlink " ++ Quotation.always dest)
      Run.close input
    else
      match ← Run.openFile dest .writing with
      | .error e =>
        Run.close input
        let e := if isNew && dest.endsWith "/" && e = .os .isDirectory then .os .notDirectory else e
        complainCreating dest e
      | .ok d =>
        match ← copyOpen input d maxTurns with
        | .error e => fault ("error copying " ++ Quotation.always source ++ " to " ++
            Quotation.always dest ++ ": " ++ words e)
        | .ok () => pure ()
        Run.close input
        Run.close d
        let mask ← maskOf
        if c.preserves then likeness dest f.mode (some f.time)
        else if isNew then likeness dest (f.mode &&& 0o777 &&& (0o7777 ^^^ mask)) none

def copy (named : Bool) (made : List String) : Nat → String → String → Work Unit
  | 0, _, _ => return ()
  | depth + 1, source, dest => do
    let follow := if named then c.followsNamed else c.followsFound
    match ← Run.facts follow source with
    | .error e => fault ("cannot stat " ++ Quotation.always source ++ ": " ++ words e)
    | .ok f =>
      if f.isDirectory && !c.recursive then
        fault ("-r not specified; omitting directory " ++ Quotation.always source)
        return ()
      let there ← facts? false dest
      let target ← facts? true dest
      if made.contains dest && there.isSome then
        fault ("will not overwrite just-created " ++ Quotation.always dest ++ " with " ++
          Quotation.always source)
        return ()
      match target.or there with
      | none => pure ()
      | some t =>
        let isSame := sameFile f t && !(c.links || c.symbolic && c.force)
        if isSame && !(f.isDirectory) && !(c.removes && there.any (·.isLink)) &&
            c.backup.isNone then
          fault (Quotation.always source ++ " and " ++ Quotation.always dest ++
            " are the same file")
          return ()
        if sameFile f t && c.links then return ()
        if !f.isDirectory && t.isDirectory then
          fault ("cannot overwrite directory " ++ Quotation.always dest ++ " with non-directory")
          return ()
        if f.isDirectory && !t.isDirectory then
          fault ("cannot overwrite non-directory " ++ Quotation.always dest ++ " with directory " ++
            Quotation.always source)
          return ()
        if !f.isDirectory then
          if c.keeps then return ()
          if c.updates && !isNewer f t then return ()
          if !(← confirmIf c.asks ("overwrite " ++ Quotation.always dest ++ "? ")) then
            setStatus 1
            return ()
          c.keepOld dest
          if c.removes || (there.any (·.isLink) && f.isLink) then
            let _ ← attempt fun process k => k.remove process false dest
      if f.isDirectory then
        if ← liesIn dest source then
          fault ("cannot copy a directory, " ++ Quotation.always source ++ ", into itself, " ++
            Quotation.always dest)
          return ()
        match ← entriesOf source with
        | .error e => fault ("cannot access " ++ Quotation.always source ++ ": " ++ words e)
        | .ok entries =>
          let mask ← maskOf
          let mode := if c.preserves then f.mode else f.mode &&& (0o7777 ^^^ mask)
          if target.isNone then
            match ← attempt fun process k => k.makeDirectory process mode dest with
            | .error e =>
              fault ("cannot create directory " ++ Quotation.always dest ++ ": " ++ words e)
              return ()
            | .ok () => announce c source dest
          each (fun p => copy false [] depth p (Path.joinText dest (Name.base p))) entries
          if c.preserves then likeness dest f.mode (some f.time)
      else if c.links then
        announce c source dest
        if (← isThere dest) && c.force then
          let _ ← attempt fun process k => k.remove process false dest
        match ← attempt fun process k => k.link process follow source dest with
        | .ok () => pure ()
        | .error e => fault ("cannot create hard link " ++ Quotation.always dest ++ " to " ++
            Quotation.always source ++ ": " ++ words e)
      else if c.symbolic then
        announce c source dest
        if !source.startsWith "/" && Name.directory dest != "." then
          fault (Quotation.always dest ++
            ": can make relative symbolic links only in current directory")
        else
          match ← attempt fun process k => k.makeLink process source dest with
          | .ok () => pure ()
          | .error e => fault ("cannot create symbolic link " ++ Quotation.always dest ++ " to " ++
              Quotation.always source ++ ": " ++ words e)
      else
        announce c source dest
        match f.kind with
        | .link target =>
          match ← attempt fun process k => k.makeLink process target dest with
          | .ok () => pure ()
          | .error e =>
            fault ("cannot create symbolic link " ++ Quotation.always dest ++ ": " ++ words e)
        | .pipe =>
          if c.recursive then
            match ← attempt fun process k => k.makeNamedPipe process f.mode dest with
            | .ok () => pure ()
            | .error e =>
              fault ("cannot create fifo " ++ Quotation.always dest ++ ": " ++ words e)
          else copyFile c f source dest
        | _ => copyFile c f source dest

end Copying

def backupSuffix (o : Options) : Option String :=
  if o.has 'b' || o.has 'S' then some ((o.text? 'S').getD "~") else none

def movingOf (verb : String) (o : Options) : Moving :=
  let last := o.given.reverse.find? fun g => "finu".contains g.letter
  let update := (o.given.reverse.find? (·.letter = 'u')).map fun g => g.text.getD "older"
  { verb, verbose := o.has 'v', asks := last.any (·.letter = 'i')
    keeps := last.any (·.letter = 'n') || update == some "none" || update == some "none-fail"
    updates := update == some "older", backup := backupSuffix o, force := o.has 'f' }

def makeParents (verbose : Bool) (source dir : String) : Work Unit :=
  each (fun p => do
    let dest := Path.joinText dir p
    if !(← isDirectory dest) then
      let mode := ((← facts? true p).map (·.mode)).getD 0o755
      let _ ← attempt fun process k => k.makeDirectory process mode dest
      if verbose then putLine (p ++ " -> " ++ dest)) (ancestry source).dropLast

def cpOptions : Known :=
  .of "abdfHilLnprst:uvxPRS:TZ" ("archive/a backup?b copy-contents/C dereference/L force/f " ++
    "interactive/i link/l no-clobber/n no-dereference/P no-preserve=N no-target-directory/T " ++
    "one-file-system/x parents/q preserve?p recursive/R remove-destination/D sparse=X " ++
    "strip-trailing-slashes/Y suffix=S symbolic-link/s target-directory=t update?u verbose/v")

def cp : Work Nat := do
  let o ← cpOptions.read
  let recursive := o.has 'r' || o.has 'R' || o.has 'a'
  let following := o.last? "LPHda"
  let c : Copying :=
    { movingOf "copy" o with
      recursive
      followsNamed := match following with
        | some 'L' => true
        | some 'H' => true
        | some _ => false
        | none => !recursive && !o.has 'l'
      followsFound := following == some 'L' || (following.isNone && !recursive)
      preserves := o.has 'p' || o.has 'a', links := o.has 'l', symbolic := o.has 's'
      removes := o.has 'D' }
  let goal ← destination o false
  if o.has 'q' then
    match goal with
    | .directory sources dir =>
      each (fun source => do
        makeParents (o.has 'v') source dir
        c.copy true [] maxDepth source (Path.joinText dir source)) sources
    | .place _ dest =>
      complain ("with --parents, the destination must be a directory")
      let _ := dest
      pointToHelp
  else bringAll (fun made source dest => c.copy true made maxDepth source dest) goal
  return (← get).status

def moveTo (m : Moving) (made : List String) (source dest : String) : Work Unit := do
  match ← Run.facts false source with
  | .error e => fault ("cannot stat " ++ Quotation.always source ++ ": " ++ words e)
  | .ok f =>
    let there ← facts? false dest
    let announce : Work Unit := do
      if m.verbose then
        putLine ("renamed " ++ Quotation.always source ++ " -> " ++ Quotation.always dest)
    let go : Work Unit := do
      match ← attempt fun process k => k.rename process source dest with
      | .ok () => announce
      | .error e =>
        if e = .os .invalid then
          fault ("cannot move " ++ Quotation.always source ++ " to a subdirectory of itself, " ++
            Quotation.always dest)
        else if e = .os .notEmpty then
          fault ("cannot overwrite " ++ Quotation.always dest ++ ": " ++ words e)
        else
          fault ("cannot move " ++ Quotation.always source ++ " to " ++ Quotation.always dest ++
            ": " ++ words e)
    match there with
    | none => go
    | some t =>
      if made.contains dest then
        fault ("will not overwrite just-created " ++ Quotation.always dest ++ " with " ++
          Quotation.always source)
      else if m.keeps then return ()
      else if sameFile f t && m.backup.isNone then
        if f.isDirectory then
          fault ("cannot move " ++ Quotation.always source ++ " to a subdirectory of itself, " ++
            Quotation.always (Path.joinText dest (Name.base source)))
        else if source == dest || (← canonical .parents (Name.directory source)).toOption ==
            (← canonical .parents (Name.directory dest)).toOption && Name.base source ==
              Name.base dest then
          fault (Quotation.always source ++ " and " ++ Quotation.always dest ++
            " are the same file")
        else
          let _ ← attempt fun process k => k.remove process false source
          announce
      else if !f.isDirectory && t.isDirectory then
        fault ("cannot overwrite directory " ++ Quotation.always dest ++ " with non-directory")
      else if f.isDirectory && !t.isDirectory then
        fault ("cannot overwrite non-directory " ++ Quotation.always dest ++ " with directory " ++
          Quotation.always source)
      else if m.updates && !isNewer f t then return ()
      else if !(← confirmIf (m.asks && !f.isDirectory)
          ("overwrite " ++ Quotation.always dest ++ "? ")) then
        setStatus 1
      else
        m.keepOld dest
        go

def mvOptions : Known :=
  .of "bfint:uvS:TZ" ("backup?b context/Z exchange/x force/f interactive/i no-clobber/n no-copy/C " ++
    "no-target-directory/T strip-trailing-slashes/s suffix=S target-directory=t update?u verbose/v")

def mv : Work Nat := do
  let o ← mvOptions.read
  let m := movingOf "move" o
  bringAll (moveTo m) (← destination o false)
  return (← get).status

def linkTo (m : Moving) (symbolic relative : Bool) (follow : Bool) (made : List String)
    (source dest : String) : Work Unit := do
  let kind := if symbolic then "symbolic link " else "hard link "
  let f ← Run.facts follow source
  match f with
  | .error e =>
    if !symbolic then
      fault ("failed to access " ++ Quotation.always source ++ ": " ++ words e)
      return ()
  | .ok f =>
    if !symbolic && f.isDirectory then
      fault (Quotation.subject source ++ ": hard link not allowed for directory")
      return ()
  let there ← facts? false dest
  if there.isSome && (m.force || m.asks || m.backup.isSome) then
    if made.contains dest then
      fault ("will not overwrite just-created " ++ Quotation.always dest ++ " with " ++
        Quotation.always source)
      return ()
    let isSame := match f.toOption, there with
      | some a, some b => sameFile a b
      | _, _ => false
    if isSame && !symbolic then
      fault (Quotation.always source ++ " and " ++ Quotation.always dest ++ " are the same file")
      return ()
    if there.any (·.isDirectory) then
      fault (Quotation.always dest ++ ": cannot overwrite directory")
      return ()
    if !(← confirmIf m.asks ("replace " ++ Quotation.always dest ++ "? ")) then
      setStatus 1
      return ()
    m.keepOld dest
    if (← isThere dest) && m.backup.isNone then
      let _ ← attempt fun process k => k.remove process false dest
  let target ←
    if relative then do
      let base := (← canonical .none (Name.directory dest)).toOption.getD "/"
      let goal := (← canonical .none source).toOption.getD source
      pure (relativePath base goal)
    else pure source
  let done ← attempt fun process k =>
    if symbolic then k.makeLink process target dest else k.link process follow source dest
  match done with
  | .ok () =>
    if m.verbose then
      putLine (Quotation.always dest ++ (if symbolic then " -> " else " => ") ++
        Quotation.always target)
  | .error e =>
    let shown :=
      if symbolic && (target.isEmpty || e = .os .nameTooLong) then " -> " ++ Quotation.always target
      else if !symbolic && e != .os .alreadyExists then " => " ++ Quotation.always source
      else ""
    fault ("failed to create " ++ kind ++ Quotation.always dest ++ shown ++ ": " ++ words e)

def lnOptions : Known :=
  .of "bdfinrst:vFLPS:T" ("backup?b directory/d no-dereference/n no-target-directory/T force/f " ++
    "interactive/i suffix=S target-directory=t logical/L physical/P relative/r symbolic/s verbose/v")

def ln : Work Nat := do
  let o ← lnOptions.read
  let symbolic := o.has 's'
  if o.has 'r' && !symbolic then refuse "cannot do --relative without --symbolic"
  let m : Moving :=
    { verb := "link", verbose := o.has 'v', asks := o.has 'i', keeps := false, updates := false
      backup := backupSuffix o, force := o.has 'f' }
  bringAll (linkTo m symbolic (o.has 'r') (o.has 'L')) (← destination o true)
  return (← get).status

def link : Work Nat := do
  let o ← (Known.of "" "").read
  match o.operands with
  | [] => misuse "missing operand"
  | [a] => misuse ("missing operand after " ++ Quotation.word a)
  | [a, b] =>
    match ← attempt fun process k => k.link process false a b with
    | .ok () => return 0
    | .error e =>
      refuse ("cannot create link " ++ Quotation.always b ++ " to " ++ Quotation.always a ++ ": " ++
        words e)
  | _ :: _ :: extra :: _ => misuse ("extra operand " ++ Quotation.word extra)

def installOptions : Known :=
  .of "bcCsDdg:m:o:pt:TvS:Z" ("backup?b compare/C directory/d group=g mode=m " ++
    "no-target-directory/T owner=o preserve-timestamps/p strip/s suffix=S target-directory=t " ++
    "verbose/v")

def install : Work Nat := do
  let o ← installOptions.read
  let mode ← match o.text? 'm' with
    | none => pure 0o755
    | some s =>
      match Kernel.Permission.change? s false 0 0 with
      | some mode => pure mode
      | none => refuse ("invalid mode " ++ Quotation.word s)
  let make (p : String) : Work Unit :=
    each (fun q => do
      if !(← isDirectory q) then
        match ← attempt fun process k =>
            k.makeDirectory process (if q == p && o.has 'd' then mode else 0o755) q with
        | .ok () =>
          if o.has 'v' then
            putLine ((← get).name ++ ": creating directory " ++ Quotation.always q)
        | .error e =>
          fault ("cannot create directory " ++ Quotation.always q ++ ": " ++ words e)) (ancestry p)
  if o.has 'd' then
    if o.operands.isEmpty then misuse "missing file operand"
    each make o.operands
    return (← get).status
  match o.operands with
  | [_, dest] => if o.has 'D' && !o.has 't' then make (Name.directory dest)
  | _ => if o.has 'D' then each make (o.text? 't').toList
  let c : Copying :=
    { movingOf "copy" o with
      recursive := false, followsNamed := true, followsFound := true, preserves := false
      links := false, symbolic := false, removes := true }
  bringAll (fun made source dest => do
    if ← isDirectory source then
      fault ("omitting directory " ++ Quotation.always source)
    else
      c.copy true made maxDepth source dest
      if (← facts? true source).isSome then likeness dest mode none) (← destination o false)
  return (← get).status

def transfers : List Program := [
  { name := "cp", main := cp }, { name := "install", main := install },
  { name := "link", main := link }, { name := "ln", main := ln }, { name := "mv", main := mv }]

end CompiledModels.Tool
