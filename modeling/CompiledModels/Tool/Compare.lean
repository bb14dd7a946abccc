import CompiledModels.Regex.Reader
import CompiledModels.Text.Difference
import CompiledModels.Tool.Amount
import CompiledModels.Tool.Calendar
import CompiledModels.Tool.Paths

namespace CompiledModels.Tool

open Kernel (Run)
open Work

structure ByteComparison where
  lists : Bool
  shows : Bool
  silent : Bool

def byteNumber (c : Char) : String :=
  Text.alignRight 3 (String.ofList (Nat.toDigits 8 c.toNat))

def byteLook (c : Char) : String :=
  let low (n : Nat) : String :=
    if n < 32 then "^" ++ (Char.ofNat (n + 64)).toString
    else if n = 127 then "^?" else (Char.ofNat n).toString
  if c.toNat < 128 then low c.toNat else "M-" ++ low (c.toNat - 128)

structure BytePlace where
  byte : Nat := 1
  lines : Nat := 0
  ended : Bool := true

namespace BytePlace

def next (p : BytePlace) (c : Char) : BytePlace :=
  if c == '\n' then ⟨p.byte + 1, p.lines + 1, true⟩ else ⟨p.byte + 1, p.lines, false⟩

end BytePlace

def compareBytes (x : ByteComparison) (a b : String) (width : Nat) (found : Bool) :
    BytePlace → List Char → List Char → Work Bool
  | p, c :: cs, d :: ds => do
    if c == d then compareBytes x a b width found (p.next c) cs ds
    else if x.silent then return true
    else if x.lists then
      let look (c : Char) (w : Nat) : String :=
        if x.shows then " " ++ Text.alignLeft w (byteLook c) else ""
      putLine (Text.alignRight width (toString p.byte) ++ " " ++ byteNumber c ++ look c 4 ++ " " ++
        byteNumber d ++ look d 0)
      compareBytes x a b width true (p.next c) cs ds
    else
      put (a ++ " " ++ b ++ " differ: " ++ (if x.shows then "byte " else "char ") ++
        toString p.byte ++ ", line " ++ toString (p.lines + 1))
      if x.shows then
        put (" is " ++ byteNumber c ++ " " ++ byteLook c ++ " " ++ byteNumber d ++ " " ++
          byteLook d)
      putLine ""
      return true
  | _, [], [] => return found
  | p, cs, _ => do
    if !x.silent then
      let short := if cs.isEmpty then a else b
      if p.byte = 1 then complain ("EOF on " ++ short ++ " which is empty")
      else
        let line := if p.ended then ", line " ++ toString p.lines
          else ", in line " ++ toString (p.lines + 1)
        complain ("EOF on " ++ short ++ " after byte " ++ toString (p.byte - 1) ++
          (if x.lists then "" else line))
    return true

def cmp : Work Nat := do
  let o ← (Known.of "bcn:i:lsv" ("print-bytes/b ignore-initial=i verbose/l bytes=n quiet/s " ++
    "silent/s")).read
  let name := (← get).name
  let fail {α : Type} (message : String) : Work α := do
    complain message
    complain ("Try '" ++ name ++ " --help' for more information.")
    finish 2
  let number (what s : String) : Work Nat := do
    match Amount.read Amount.units s with
    | .ok n => return n
    | .error _ => fail ("invalid --" ++ what ++ " value '" ++ s ++ "'")
  let (a, b, skips) ← match o.operands with
    | [] => fail "missing operand after 'cmp'"
    | [a] => pure (a, "-", [])
    | a :: b :: skips => pure (a, b, skips)
  match skips.drop 2 with
  | extra :: _ => fail ("extra operand '" ++ extra ++ "'")
  | [] => pure ()
  let skipsGiven := match o.text? 'i' with
    | some s => s.splitOn ":"
    | none => skips
  let skipA ← number "ignore-initial" (skipsGiven.headD "0")
  let skipB ← number "ignore-initial"
    ((skipsGiven[1]?).getD (if (o.text? 'i').isSome then skipsGiven.headD "0" else "0"))
  let most ← match o.text? 'n' with
    | some s => some <$> number "bytes" s
    | none => pure none
  if o.has 'l' && o.has 's' then fail "options -l and -s are incompatible"
  let read (p : String) (skip : Nat) : Work (List Char) := do
    match ← contents p with
    | .error e =>
      if !o.has 's' then complain (p ++ ": " ++ words e)
      finish 2
    | .ok s =>
      let cs := s.toList.drop skip
      return most.elim cs cs.take
  let cs ← read a skipA
  let ds ← if a == b then pure cs else read b skipB
  let x : ByteComparison := ⟨o.has 'l', o.has 'b', o.has 's'⟩
  let width := (toString (min cs.length ds.length)).length
  let differs ← compareBytes x a b width false {} cs ds
  return if differs then 1 else 0

structure LineComparison where
  folds : Bool
  noBlanks : Bool
  fewBlanks : Bool
  noEndBlanks : Bool
  noReturns : Bool
  noEmptyLines : Bool

namespace LineComparison

variable (x : LineComparison)

def isBlank (c : Char) : Bool := c == ' ' || ('\t' ≤ c && c ≤ '\x0d' && c != '\n')

def squeezed : List Char → List Char
  | [] => []
  | c :: cs =>
    let rest := squeezed cs
    if isBlank c then (if rest.head?.any isBlank then rest else ' ' :: rest) else c :: rest

def withoutEnd (cs : List Char) : List Char := (cs.reverse.dropWhile isBlank).reverse

def key (l : Line) : List Char × Bool :=
  let cs := if x.noReturns && l.text.getLast? == some '\x0d' then l.text.dropLast else l.text
  let cs := if x.folds then cs.map Char.toLower else cs
  let cs := if x.noBlanks then cs.filter (!isBlank ·)
    else if x.fewBlanks then withoutEnd (squeezed cs)
    else if x.noEndBlanks then withoutEnd cs else cs
  (cs, l.ended || x.noBlanks || x.fewBlanks || x.noEndBlanks)

end LineComparison

inductive DiffForm
  | plain
  | brief
  | unified (context : Nat)
  | context (count : Nat)
  | script
  deriving DecidableEq

structure DiffManner where
  comparison : LineComparison
  form : DiffForm
  recursive : Bool
  fillsIn : Bool
  fillsInOld : Bool
  reports : Bool
  isText : Bool
  labels : List String
  given : String

namespace Diff

def marked (mark : String) (l : Line) : String :=
  mark ++ String.ofList l.text ++ (if l.ended then "\n" else "\n\\ No newline at end of file\n")

def lines (mark : String) (ls : List Line) : String := String.join (ls.map (marked mark))

def range (start count : Nat) : String :=
  if count ≤ 1 then toString (start + count)
  else toString (start + 1) ++ "," ++ toString (start + count)

def plain (old new : List Line) (c : Text.Change) : String :=
  let gone := (old.drop c.oldStart).take c.oldCount
  let added := (new.drop c.newStart).take c.newCount
  let letter := if c.newCount = 0 then "d" else if c.oldCount = 0 then "a" else "c"
  range c.oldStart c.oldCount ++ letter ++ range c.newStart c.newCount ++ "\n" ++
    lines "< " gone ++ (if letter == "c" then "---\n" else "") ++ lines "> " added

def scripted (new : List Line) (c : Text.Change) : String :=
  let added := (new.drop c.newStart).take c.newCount
  let letter := if c.newCount = 0 then "d" else if c.oldCount = 0 then "a" else "c"
  range c.oldStart c.oldCount ++ letter ++ "\n" ++
    (if c.newCount = 0 then ""
      else String.join (added.map fun l => String.ofList l.text ++ "\n") ++ ".\n")

def hunks (context : Nat) : List Text.Change → List (List Text.Change)
  | [] => []
  | c :: cs =>
    match hunks context cs with
    | (d :: ds) :: rest =>
      if d.oldStart ≤ c.oldStart + c.oldCount + 2 * context then (c :: d :: ds) :: rest
      else [c] :: (d :: ds) :: rest
    | rest => [c] :: rest

structure Span where
  oldStart : Nat
  oldCount : Nat
  newStart : Nat
  newCount : Nat

def spanOf (context oldSize newSize : Nat) (h : List Text.Change) : Span :=
  let first := h.headD ⟨0, 0, 0, 0⟩
  let last := h.getLastD ⟨0, 0, 0, 0⟩
  let before := min context first.oldStart
  let oldStop := min oldSize (last.oldStart + last.oldCount + context)
  let newStop := min newSize (last.newStart + last.newCount + context)
  ⟨first.oldStart - before, oldStop - (first.oldStart - before), first.newStart - before,
    newStop - (first.newStart - before)⟩

def slice (ls : List Line) (start stop : Nat) : List Line := (ls.drop start).take (stop - start)

def unifiedRange (start count : Nat) : String :=
  if count = 0 then toString start ++ ",0"
  else if count = 1 then toString (start + 1)
  else toString (start + 1) ++ "," ++ toString count

def unifiedBody (old new : List Line) (stop : Nat) : Nat → List Text.Change → String
  | place, [] => lines " " (slice old place stop)
  | place, c :: cs =>
    lines " " (slice old place c.oldStart) ++
      lines "-" (slice old c.oldStart (c.oldStart + c.oldCount)) ++
      lines "+" (slice new c.newStart (c.newStart + c.newCount)) ++
      unifiedBody old new stop (c.oldStart + c.oldCount) cs

def unifiedHunk (context : Nat) (old new : List Line) (h : List Text.Change) : String :=
  let s := spanOf context old.length new.length h
  "@@ -" ++ unifiedRange s.oldStart s.oldCount ++ " +" ++ unifiedRange s.newStart s.newCount ++
    " @@\n" ++ unifiedBody old new (s.oldStart + s.oldCount) s.oldStart h

def contextRange (start count : Nat) : String :=
  if count ≤ 1 then toString (start + count)
  else toString (start + 1) ++ "," ++ toString (start + count)

def sideBody (alone : String) (ls : List Line) (stop : Nat)
    (part : Text.Change → Nat × Nat × Bool) : Nat → List Text.Change → String
  | place, [] => lines "  " (slice ls place stop)
  | place, c :: cs =>
    let (start, count, both) := part c
    lines "  " (slice ls place start) ++
      lines (if both then "! " else alone) (slice ls start (start + count)) ++
      sideBody alone ls stop part (start + count) cs

def contextHunk (context : Nat) (old new : List Line) (h : List Text.Change) : String :=
  let s := spanOf context old.length new.length h
  let gone := h.any (·.oldCount != 0)
  let added := h.any (·.newCount != 0)
  "***************\n*** " ++ contextRange s.oldStart s.oldCount ++ " ****\n" ++
    (if gone then
      sideBody "- " old (s.oldStart + s.oldCount)
        (fun c => (c.oldStart, c.oldCount, c.newCount != 0)) s.oldStart h else "") ++
    "--- " ++ contextRange s.newStart s.newCount ++ " ----\n" ++
    (if added then
      sideBody "+ " new (s.newStart + s.newCount)
        (fun c => (c.newStart, c.newCount, c.oldCount != 0)) s.newStart h else "")

structure Side where
  name : String
  text : String
  time : Int

def heading (m : DiffManner) (index : Nat) (f : Side) (pattern : String) : String :=
  match m.labels[index]? with
  | some l => l
  | none => f.name ++ "\t" ++ (Moment.ofNanos f.time).formatted pattern

def shown (m : DiffManner) (a b : Side) (old new : List Line) (changes : List Text.Change) :
    String :=
  match m.form with
  | .plain => String.join (changes.map (plain old new))
  | .script => String.join (changes.reverse.map (scripted new))
  | .brief => ""
  | .unified n =>
    let pattern := "%Y-%m-%d %H:%M:%S.%N %z"
    "--- " ++ heading m 0 a pattern ++ "\n+++ " ++ heading m 1 b pattern ++ "\n" ++
      String.join ((hunks n changes).map (unifiedHunk n old new))
  | .context n =>
    let pattern := "%a %b %e %T %Y"
    "*** " ++ heading m 0 a pattern ++ "\n--- " ++ heading m 1 b pattern ++ "\n" ++
      String.join ((hunks n changes).map (contextHunk n old new))

def files (m : DiffManner) (inside : Bool) (a b : Side) : Work Bool := do
  let same : Work Bool := do
    if m.reports then putLine ("Files " ++ a.name ++ " and " ++ b.name ++ " are identical")
    return false
  if a.text == b.text then same
  else
    let differ : Work Bool := do
      putLine ("Files " ++ a.name ++ " and " ++ b.name ++ " differ")
      return true
    let isOpaque := !m.isText && (a.text.contains '\x00' || b.text.contains '\x00')
    if isOpaque && m.form ≠ .brief then
      putLine ("Binary files " ++ a.name ++ " and " ++ b.name ++ " differ")
      return true
    else
      let old := linesOf '\n' a.text.toList
      let new := linesOf '\n' b.text.toList
      let changes := Text.differences (old.map m.comparison.key) (new.map m.comparison.key)
      let isEmpty (c : Text.Change) : Bool :=
        ((old.drop c.oldStart).take c.oldCount ++ (new.drop c.newStart).take c.newCount).all
          (·.text.isEmpty)
      let changes := if m.comparison.noEmptyLines then changes.filter (!isEmpty ·) else changes
      if changes.isEmpty then same
      else if m.form = .brief then differ
      else
        if inside then
          putLine ("diff" ++ m.given ++ " " ++ Quotation.sparing a.name ++ " " ++
            Quotation.sparing b.name)
        put (shown m a b old new changes)
        return true

structure Outcome where
  differs : Bool := false
  failed : Bool := false

def Outcome.and (a b : Outcome) : Outcome := ⟨a.differs || b.differs, a.failed || b.failed⟩

def look (p : String) : Work (Except FileError (Option Kernel.Facts)) := do
  if p == "-" then return .ok none
  return (← Run.facts true p).map some

def side (p : String) (there : Bool) : Work (Except FileError Side) := do
  if !there then return .ok ⟨p, "", 0⟩
  match ← contents p with
  | .error e => return .error e
  | .ok text =>
    let time ← match ← look p with
      | .ok (some f) => pure f.time
      | _ => Run.look fun _ k => k.clock
    return .ok ⟨p, text, time⟩

def failed (p : String) (e : FileError) : Work Outcome := do
  complain (p ++ ": " ++ words e)
  return { failed := true }

def twoFiles (m : DiffManner) (inside : Bool) (a b : String) (thereA thereB : Bool) :
    Work Outcome := do
  match ← side a thereA, ← side b thereB with
  | .ok x, .ok y => return { differs := ← files m inside x y }
  | .error e, .ok _ => failed a e
  | .ok _, .error e => failed b e
  | .error e, .error f => do
    let _ ← failed a e
    failed b f

def isDirectory (p : String) : Work Bool := do
  return match ← look p with
    | .ok (some f) => f.isDirectory
    | _ => false

def namesIn (p : String) : Work (List String) := do
  match ← Run.look fun process k => k.list process p with
  | .ok names => return names
  | .error _ => return []

def directories (m : DiffManner) : Nat → String → String → Work Outcome
  | 0, _, _ => return {}
  | depth + 1, a, b => do
    let inA ← namesIn a
    let inB ← namesIn b
    let all := ((inA ++ inB.filter (!inA.contains ·)).toArray.qsort (· < ·)).toList
    all.foldlM (fun r name => do
      let x := Path.joinText a name
      let y := Path.joinText b name
      let thereA := inA.contains name
      let thereB := inB.contains name
      let directoryA ← if thereA then isDirectory x else pure false
      let directoryB ← if thereB then isDirectory y else pure false
      if thereA && thereB then
        if directoryA && directoryB then
          if m.recursive then return r.and (← directories m depth x y)
          else
            putLine ("Common subdirectories: " ++ x ++ " and " ++ y)
            return r
        else if directoryA != directoryB then
          let kind (isDirectory : Bool) (p : String) : Work String := do
            if isDirectory then return "a directory"
            return match ← Run.facts true p with
              | .ok f => if f.size = 0 then "a regular empty file" else "a regular file"
              | .error _ => "a regular file"
          putLine ("File " ++ x ++ " is " ++ (← kind directoryA x) ++ " while file " ++ y ++
            " is " ++ (← kind directoryB y))
          return r.and { differs := true }
        else return r.and (← twoFiles m true x y true true)
      else
        let filled := m.fillsIn || (m.fillsInOld && thereB)
        if filled && !directoryA && !directoryB then
          return r.and (← twoFiles m true x y thereA thereB)
        else if filled && m.recursive then return r.and (← directories m depth x y)
        else
          putLine ("Only in " ++ (if thereA then a else b) ++ ": " ++ name)
          return r.and { differs := true }) {}

def operands (m : DiffManner) (a b : String) : Work Outcome := do
  let directoryA ← isDirectory a
  let directoryB ← isDirectory b
  if directoryA && directoryB then directories m 200 a b
  else
    let a' := if directoryA then Path.joinText a (Name.base b) else a
    let b' := if directoryB then Path.joinText b (Name.base a) else b
    let factsA ← look a'
    let factsB ← look b'
    match factsA, factsB with
    | .error e, .error f =>
      let _ ← failed a' e
      failed b' f
    | .error e, .ok _ =>
      if (m.fillsIn || m.fillsInOld) && e = .os .noEntry then twoFiles m false a' b' false true
      else failed a' e
    | .ok _, .error e =>
      if m.fillsIn && e = .os .noEntry then twoFiles m false a' b' true false
      else failed b' e
    | .ok _, .ok _ => if a' == b' && !m.reports then return {} else twoFiles m false a' b' true true

def options : Known :=
  .of "0123456789abBcC:deEF:hHiI:lL:nNpPqrsS:tTuU:vwW:x:X:yZ" ("text/a ignore-space-change/b " ++
    "ignore-blank-lines/B context?c ed/e brief/q ignore-case/i label=L new-file/N recursive/r " ++
    "report-identical-files/s unified?u ignore-all-space/w ignore-trailing-space/Z normal/j " ++
    "unidirectional-new-file/P strip-trailing-cr/k minimal/d speed-large-files/H exclude=x")

def main : Work Nat := do
  let o ← options.read
  let name := (← get).name
  let fail {α : Type} (message : String) : Work α := do
    complain message
    complain ("Try '" ++ name ++ " --help' for more information.")
    finish 2
  let (a, b) ← match o.operands with
    | [] => fail ("missing operand after '" ++ ((← get).arguments.getLast?.getD name) ++ "'")
    | [a] => fail ("missing operand after '" ++ a ++ "'")
    | [a, b] => pure (a, b)
    | _ :: _ :: extra :: _ => fail ("extra operand '" ++ extra ++ "'")
  let number (s : String) : Work Nat := do
    match s.toNat? with
    | some n => return n
    | none => fail ("invalid context length '" ++ s ++ "'")
  let digits := (String.ofList ((o.given.map (·.letter)).filter Char.isDigit)).toNat?
  let form : DiffForm ← match o.given.reverse.find? fun g => "qcCuUej".contains g.letter with
    | none => pure .plain
    | some ⟨'q', _⟩ => pure .brief
    | some ⟨'e', _⟩ => pure .script
    | some ⟨'j', _⟩ => pure .plain
    | some ⟨c, text⟩ => do
      let n ← match text with
        | some s => number s
        | none => pure (digits.getD 3)
      pure (if c == 'u' || c == 'U' then .unified n else .context n)
  let comparison : LineComparison :=
    ⟨o.has 'i', o.has 'w', o.has 'b', o.has 'Z', o.has 'k', o.has 'B'⟩
  let given := ((← get).arguments.takeWhile (· != "--")).filter fun a =>
    a.startsWith "-" && a != "-"
  let form := if o.has 'q' then .brief else form
  let m : DiffManner := {
    comparison, form, recursive := o.has 'r', fillsIn := o.has 'N', fillsInOld := o.has 'P'
    reports := o.has 's', isText := o.has 'a', labels := o.texts 'L'
    given := String.join (given.map fun s => " " ++ Quotation.sparing s) }
  let r ← operands m a b
  return if r.failed then 2 else if r.differs then 1 else 0

end Diff

def comparers : List Program :=
  let usage (name : String) : String :=
    name ++ ": Try '" ++ name ++ " --help' for more information.\n"
  [{ name := "cmp", trouble := 2, usage, main := cmp },
    { name := "diff", trouble := 2, usage, main := Diff.main }]

end CompiledModels.Tool
