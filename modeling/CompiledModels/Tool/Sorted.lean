import CompiledModels.Tool.Order

namespace CompiledModels.Tool

open Kernel (Run)
open Work

structure Sorting where
  keys : List SortKey
  separator : Option Char
  whole : Comparison
  unique : Bool
  stable : Bool

namespace Sorting

variable (s : Sorting)

def byKeys (a b : List Char) : Ordering :=
  s.keys.foldl (fun o k => o.then
    (k.comparison.compare (k.extract s.separator a) (k.extract s.separator b))) .eq

def compare (a b : List Char) : Ordering :=
  let o := s.byKeys a b
  if s.unique || s.stable then o
  else
    let last := Order.texts a b
    o.then (if s.whole.has 'r' then last.swap else last)

def sort (lines : List (List Char)) : List (List Char) :=
  let sorted := lines.mergeSort fun a b => s.compare a b != .gt
  if s.unique then firstOfEach sorted else sorted
where
  firstOfEach : List (List Char) → List (List Char)
    | a :: rest => a :: go a rest
    | [] => []
  go (last : List Char) : List (List Char) → List (List Char)
    | b :: rest => if s.byKeys last b == .eq then go last rest else b :: go b rest
    | [] => []

def disorder? (lines : List (List Char)) : Option (Nat × List Char) :=
  ((lines.zip (lines.drop 1)).zipIdx.find? fun p =>
    match s.compare p.1.1 p.1.2 with
    | .gt => true
    | .eq => s.unique
    | .lt => false).map fun p => (p.2 + 2, p.1.2)

def isOrderLetter (c : Char) : Bool := "bdfgiMhnRrV".contains c

def position (what : String) (cs : List Char) : Work (Nat × Option Nat × List Char) := do
  let spec := Quotation.word what
  let number (cs : List Char) (message : String) : Work (Nat × List Char) := do
    let digits := cs.takeWhile Char.isDigit
    match (String.ofList digits).toNat? with
    | some n => return (n, cs.drop digits.length)
    | none => refuse (message ++ ": invalid count at start of " ++
        Quotation.word (String.ofList cs))
  let (field, rest) ← number cs "invalid number at field start"
  if field = 0 then refuse ("field number is zero: invalid field specification " ++ spec)
  match rest with
  | '.' :: rest =>
    let (char, rest) ← number rest "invalid number after '.'"
    return (field, some char, rest)
  | _ => return (field, none, rest)

def key (s : String) : Work SortKey := do
  let (field, char, rest) ← position s s.toList
  if char = some 0 then
    refuse ("character offset is zero: invalid field specification " ++ Quotation.word s)
  let letters := rest.takeWhile isOrderLetter
  let rest := rest.drop letters.length
  let start : SortKey :=
    { field := field - 1, char := (char.getD 1) - 1, skipsStart := letters.contains 'b'
      comparison := ⟨letters.filter (· != 'b')⟩ }
  match rest with
  | [] => return start
  | ',' :: rest =>
    let (field, char, rest) ← position s rest
    let more := rest.takeWhile isOrderLetter
    if more.length < rest.length then
      refuse ("stray character in field spec: invalid field specification " ++ Quotation.word s)
    return { start with
      stop := some (if (char.getD 0) = 0 then (field - 1, 0) else (field - 1, char.getD 0))
      skipsEnd := more.contains 'b'
      comparison := ⟨start.comparison.letters ++ more.filter (· != 'b')⟩ }
  | _ =>
    refuse ("stray character in field spec: invalid field specification " ++ Quotation.word s)

def checkLetters (c : Comparison) : Work Unit := do
  let orders := "gMhnRV".toList.filter fun l => c.has l
  let plain := "d".toList.filter fun l => c.has l
  let ignoring := "i".toList.filter fun l => c.has l
  let numeric := orders.filter fun l => !"RV".contains l
  if 1 < numeric.length || (!numeric.isEmpty && !(plain ++ ignoring).isEmpty) ||
      (!numeric.isEmpty && orders.length != numeric.length) then
    let all := "dfgihMnRrV".toList.filter fun l => c.has l && l != 'r' && l != 'f'
    refuse ("options '-" ++ String.ofList all ++ "' are incompatible")

def keysFor (given : List SortKey) (whole : Comparison) (blanks : Bool) : List SortKey :=
  if given.isEmpty then [{ comparison := whole, skipsStart := blanks }]
  else given.map fun k =>
    if k.comparison.isEmpty && !k.skipsStart && !k.skipsEnd then
      { k with comparison := whole, skipsStart := blanks, skipsEnd := blanks }
    else k

end Sorting

def sortOptions : Known :=
  .of "bcCdfghik:mMno:rRsS:t:T:uVy:z" ("ignore-leading-blanks/b check?c compress-program=p " ++
    "debug/D dictionary-order/d ignore-case/f files0-from=F general-numeric-sort/g " ++
    "ignore-nonprinting/i key=k merge/m month-sort/M numeric-sort/n human-numeric-sort/h " ++
    "version-sort/V random-sort/R random-source=x sort=w output=o reverse/r stable/s " ++
    "batch-size=B buffer-size=S field-separator=t temporary-directory=T unique/u " ++
    "zero-terminated/z parallel=P")

def orderNamed (s : String) : Work Char := do
  match [("general-numeric", 'g'), ("human-numeric", 'h'), ("month", 'M'), ("numeric", 'n'),
      ("random", 'R'), ("version", 'V')].find? fun p => p.1.startsWith s with
  | some p => return p.2
  | none =>
    complain ("invalid argument " ++ Quotation.word s ++ " for " ++ Quotation.word "--sort")
    tell ("Valid arguments are:\n  - 'general-numeric'\n  - 'human-numeric'\n  - 'month'\n" ++
      "  - 'numeric'\n  - 'random'\n  - 'version'\n")
    pointToHelp

def sort : Work Nat := do
  let o ← sortOptions.read
  let given ← (o.texts 'k').mapM Sorting.key
  let named ← (o.texts 'w').mapM orderNamed
  let letters := (o.given.map (·.letter)).filter fun c => Sorting.isOrderLetter c && c != 'b'
  let whole : Comparison := ⟨letters ++ named⟩
  let keys := Sorting.keysFor given whole (o.has 'b')
  each (fun k => Sorting.checkLetters k.comparison) keys
  let separator ← match o.text? 't' with
    | none => pure none
    | some "\\0" => pure (some '\x00')
    | some t =>
      match t.toList with
      | [] => refuse "empty tab"
      | [c] => pure (some c)
      | _ => refuse ("multi-character tab " ++ Quotation.word t)
  let checks := o.given.find? fun g => g.letter == 'c' || g.letter == 'C'
  let silent := o.has 'C' || (o.texts 'c').any fun t => t == "silent" || t == "quiet"
  let stop := if o.has 'z' then '\x00' else '\n'
  let s : Sorting := { keys, separator, whole, unique := o.has 'u', stable := o.has 's' }
  let files := orInput o.operands
  if checks.isSome then
    match files with
    | _ :: extra :: _ =>
      misuse ("extra operand " ++ Quotation.word extra ++ " not allowed with -" ++
        (if o.has 'C' then "C" else "c"))
    | _ => pure ()
  let rec lines : List String → Work (List (List Char))
    | [] => return []
    | p :: rest => do
      match ← openInput p with
      | .error e =>
        refuse ((if checks.isSome then "open failed: " else "cannot read: ") ++
          Quotation.subject p ++ ": " ++ words e)
      | .ok d =>
        match ← Run.readAll d with
        | .error e => refuse ("read failed: " ++ Quotation.subject p ++ ": " ++ words e)
        | .ok bytes =>
          closeInput d
          return (linesOf stop (Text.octets bytes).toList).map (·.text) ++ (← lines rest)
  let all ← lines files
  if checks.isSome then
    match s.disorder? all with
    | none => return 0
    | some (n, l) =>
      if !silent then
        complain (Quotation.subject (files.headD "-") ++ ":" ++ toString n ++ ": disorder: " ++
          String.ofList l)
      finish 1
  let sorted := s.sort all
  match o.text? 'o' with
  | none => pure ()
  | some p =>
    match ← Run.openFile p .writing with
    | .error e => refuse ("open failed: " ++ Quotation.subject p ++ ": " ++ words e)
    | .ok d => Run.change fun process k =>
        match k.duplicate process d 1 false with
        | .ok k => k.close process d
        | .error _ => k
  each (fun l => putChars (l ++ [stop])) sorted
  return 0

def uniqOptions : Known :=
  .of "0123456789cdDf:is:uw:z" ("count/c repeated/d all-repeated?D group?g ignore-case/i " ++
    "unique/u skip-fields=f skip-chars=s check-chars=w zero-terminated/z")

def comparedPart (fields chars : Nat) (width : Option Nat) (folds : Bool) (cs : List Char) :
    List Char :=
  let rest := (SortKey.skipFields none fields cs).drop chars
  let part := width.elim rest rest.take
  if folds then part.map Char.toUpper else part

def runsOf (same : List Char → List Char → Bool) : List (List Char) → List (List (List Char))
  | [] => []
  | l :: ls =>
    match runsOf same ls with
    | (m :: ms) :: rest => if same l m then (l :: m :: ms) :: rest else [l] :: (m :: ms) :: rest
    | rest => [l] :: rest

def uniq : Work Nat := do
  let o ← uniqOptions.read
  let number (c : Char) (what : String) : Work Nat := do
    match o.text? c with
    | none => return 0
    | some s =>
      match Amount.read "" s with
      | .ok n => return n
      | .error _ => refuse (s ++ ": invalid number of " ++ what)
  let digits := (o.given.map (·.letter)).filter Char.isDigit
  let fields ← number 'f' "fields to skip"
  let fields := if digits.isEmpty then fields else ((String.ofList digits).toNat?.getD 0)
  let chars ← number 's' "bytes to skip"
  let width ← number 'w' "bytes to compare"
  let stop := if o.has 'z' then '\x00' else '\n'
  match o.operands.drop 2 with
  | extra :: _ => misuse ("extra operand " ++ Quotation.word extra)
  | [] => pure ()
  if o.has 'c' && o.has 'D' then
    misuse "printing all duplicated lines and repeat counts is meaningless"
  if o.has 'g' && (o.has 'c' || o.has 'd' || o.has 'D' || o.has 'u') then
    misuse "--group is mutually exclusive with -c/-d/-D/-u"
  let input := o.operands.headD "-"
  let d ← match ← openInput input with
    | .ok d => pure d
    | .error e => refuse (Quotation.subject input ++ ": " ++ words e)
  match o.operands[1]? with
  | none => pure ()
  | some "-" => pure ()
  | some p =>
    match ← Run.openFile p .writing with
    | .error e => refuse (Quotation.subject p ++ ": " ++ words e)
    | .ok d => Run.change fun process k =>
        match k.duplicate process d 1 false with
        | .ok k => k.close process d
        | .error _ => k
  let part := comparedPart fields chars (if o.has 'w' then some width else none) (o.has 'i')
  let method := ((o.given.reverse.find? fun g => g.letter == 'D' || g.letter == 'g').bind
    (·.text)).getD (if o.has 'g' then "separate" else "none")
  let isShown (n : Nat) : Bool :=
    if o.has 'd' && o.has 'u' then false
    else if o.has 'D' then 1 < n && !o.has 'u'
    else if o.has 'd' then 1 < n else if o.has 'u' then n = 1 else true
  let showRun (first : Bool) (run : List (List Char)) : Work Unit := do
    let n := run.length
    if o.has 'g' || o.has 'D' then
      let gap := method == "prepend" || method == "both" || method == "separate" && !first
      if gap then putChars [stop]
      each (fun l => putChars (l ++ [stop])) run
    else
      let count := if o.has 'c' then Text.alignRight 7 (toString n) ++ " " else ""
      put count
      putChars ((run.headD []) ++ [stop])
  let rec showAll (first : Bool) : List (List (List Char)) → Work Unit
    | [] => do if (method == "append" || method == "both") && !first && o.has 'g' then putChars [stop]
    | run :: rest => do
      if isShown run.length then
        if method == "append" && !first then putChars [stop]
        showRun first run
        showAll false rest
      else showAll first rest
  match ← Run.readAll d with
  | .error e => refuse (Quotation.subject input ++ ": " ++ words e)
  | .ok bytes =>
    let lines := (linesOf stop (Text.octets bytes).toList).map (·.text)
    showAll true (runsOf (fun a b => part a == part b) lines)
    return (← get).status

def demandLines (stop : Char) (p : String) : Work (List (List Char)) := do
  match ← contents p with
  | .ok text => return (linesOf stop text.toList).map (·.text)
  | .error e =>
    complain (Quotation.subject p ++ ": " ++ words e)
    finish 1

def sortedLength (less : List Char → List Char → Bool) : List (List Char) → Nat
  | a :: b :: rest => if less b a then 1 else sortedLength less (b :: rest) + 1
  | l => l.length

def commOptions : Known :=
  .of "123z" "check-order/k nocheck-order/K output-delimiter=o total/t zero-terminated/z"

inductive Side
  | left
  | right
  | both
  deriving DecidableEq

def mergedSides : Nat → List (List Char) → List (List Char) → List (Side × List Char)
  | 0, _, _ => []
  | _, [], bs => bs.map (.right, ·)
  | _, as, [] => as.map (.left, ·)
  | fuel + 1, a :: as, b :: bs =>
    match Order.texts a b with
    | .eq => (.both, a) :: mergedSides fuel as bs
    | .lt => (.left, a) :: mergedSides fuel as (b :: bs)
    | .gt => (.right, b) :: mergedSides fuel (a :: as) bs

def comm : Work Nat := do
  let o ← commOptions.read
  match o.operands with
  | [] => misuse "missing operand"
  | [a] => misuse ("missing operand after " ++ Quotation.word a)
  | a :: b :: rest =>
    match rest with
    | extra :: _ => misuse ("extra operand " ++ Quotation.word extra)
    | [] => pure ()
    let stop := if o.has 'z' then '\x00' else '\n'
    let gap := match o.text? 'o' with
      | some "" => "\x00"
      | some s => s
      | none => "\t"
    let as ← demandLines stop a
    let bs ← demandLines stop b
    let sides := mergedSides (as.length + bs.length + 1) as bs
    let indent (s : Side) : String :=
      let one := if o.has '1' then "" else gap
      let two := if o.has '2' then "" else gap
      match s with
      | .left => ""
      | .right => one
      | .both => one ++ two
    let hidden (s : Side) : Bool :=
      match s with
      | .left => o.has '1'
      | .right => o.has '2'
      | .both => o.has '3'
    each (fun (s, l) => do
      if !hidden s then put (indent s ++ String.ofList (l ++ [stop]))) sides
    if o.has 't' then
      let count (s : Side) : String := toString (sides.filter (·.1 = s)).length
      put (count .left ++ gap ++ count .right ++ gap ++ count .both ++ gap ++ "total" ++
        stop.toString)
    let unsorted (ls : List (List Char)) : Bool :=
      sortedLength (fun b a => Order.texts b a == .lt) ls < ls.length
    let pairless := sides.any (·.1 != .both)
    if (pairless || o.has 'k') && !o.has 'K' then
      if unsorted as then fault "file 1 is not in sorted order"
      if unsorted bs then fault "file 2 is not in sorted order"
      if (← get).status != 0 && !o.has 'k' then complain "input is not in sorted order"
    return (← get).status

inductive JoinColumn
  | common
  | field (second : Bool) (n : Nat)

namespace JoinColumn

def read (s : String) : Work JoinColumn := do
  match s.toList with
  | ['0'] => return .common
  | c :: '.' :: rest =>
    match (String.ofList rest).toNat? with
    | some (n + 1) =>
      if c == '1' || c == '2' then return .field (c == '2') n
      else refuse ("invalid file number in field spec: " ++ Quotation.word s)
    | _ => refuse ("invalid field number: " ++ Quotation.word (String.ofList rest))
  | _ => refuse ("invalid field specifier: " ++ Quotation.word s)

end JoinColumn

def joinOptions : Known :=
  .of "a:e:i1:2:j:o:t:v:z" "ignore-case/i check-order/k nocheck-order/K zero-terminated/z header/h"

def fieldsOf (separator : Option Char) (cs : List Char) : List (List Char) :=
  match separator with
  | some t => Text.splitAll (· == t) cs
  | none => (Text.splitAll isBlankChar cs).filter (!·.isEmpty)

def joined {α : Type} (key : α → List Char) :
    Nat → List α → List α → List (Option α × Option α)
  | 0, _, _ => []
  | _, [], bs => bs.map (none, some ·)
  | _, as, [] => as.map (some ·, none)
  | fuel + 1, a :: as, b :: bs =>
    match Order.texts (key a) (key b) with
    | .lt => (some a, none) :: joined key fuel as (b :: bs)
    | .gt => (none, some b) :: joined key fuel (a :: as) bs
    | .eq =>
      let same (x : α) : Bool := key x == key a
      let ls := (a :: as).takeWhile same
      let rs := (b :: bs).takeWhile same
      ls.flatMap (fun l => rs.map fun r => (some l, some r)) ++
        joined key fuel ((a :: as).drop ls.length) ((b :: bs).drop rs.length)

def join : Work Nat := do
  let o ← joinOptions.read
  let number (s : String) : Work Nat := do
    match s.toNat? with
    | some (n + 1) => return n
    | _ => refuse ("invalid field number: " ++ Quotation.word s)
  let both ← (o.texts 'j').mapM number
  let first ← (o.texts '1').mapM number
  let second ← (o.texts '2').mapM number
  let k1 := (first.getLast?.or both.getLast?).getD 0
  let k2 := (second.getLast?.or both.getLast?).getD 0
  let separator := (o.text? 't').map fun t => t.toList.headD '\n'
  let sides ← (o.texts 'a' ++ o.texts 'v').mapM fun s => do
    match s with
    | "1" => return 1
    | "2" => return 2
    | _ => refuse ("invalid file number: " ++ Quotation.word s)
  let shows (n : Nat) : Bool := sides.contains n
  match o.operands with
  | [] => misuse "missing operand"
  | [a] => misuse ("missing operand after " ++ Quotation.word a)
  | a :: b :: rest =>
    match rest with
    | extra :: _ => misuse ("extra operand " ++ Quotation.word extra)
    | [] => pure ()
    let stop := if o.has 'z' then '\x00' else '\n'
    let read (p : String) : Work (List (List (List Char))) :=
      return (← demandLines stop p).map (fieldsOf separator)
    let as ← read a
    let bs ← read b
    let fold (cs : List Char) : List Char := if o.has 'i' then cs.map Char.toUpper else cs
    let keyed (n : Nat) (ls : List (List (List Char))) : List (List Char × List (List Char)) :=
      ls.map fun l => (fold ((l[n]?).getD []), l)
    let empty := ((o.text? 'e').getD "").toList
    let auto := o.text? 'o' == some "auto"
    let columns ← match o.text? 'o' with
      | some "auto" => pure []
      | some _ =>
        ((o.texts 'o').flatMap fun s =>
          (Text.splitAll (fun c => c == ',' || isBlankChar c) s.toList).map String.ofList).mapM
            JoinColumn.read
      | none => pure []
    let width (ls : List (List (List Char))) : Nat := ((ls.head?).map (·.length)).getD 0
    let gap := [separator.getD ' ']
    let field (l : Option (List (List Char))) (n : Nat) : List Char :=
      match (l.bind (·[n]?)) with
      | some [] => empty
      | some cs => cs
      | none => empty
    let row (p : Option (List Char × List (List Char)) × Option (List Char × List (List Char))) :
        List Char :=
      let l := p.1.map (·.2)
      let r := p.2.map (·.2)
      let common := if l.isSome then field l k1 else field r k2
      let others (l : Option (List (List Char))) (k : Nat) (count : Nat) : List (List Char) :=
        match l with
        | some cells =>
          if auto then ((List.range count).filter (· != k)).map fun n => field (some cells) n
          else (cells.zipIdx.filter (·.2 != k)).map fun c => if c.1.isEmpty then empty else c.1
        | none => if auto then List.replicate (count - 1) empty else []
      if columns.isEmpty then
        gap.intercalate (common :: others l k1 (width as) ++ others r k2 (width bs))
      else
        gap.intercalate (columns.map fun c =>
          match c with
          | .common => common
          | .field false n => field l n
          | .field true n => field r n)
    let (headers, as, bs) :=
      if o.has 'h' then ([(as.head?, bs.head?)], as.drop 1, bs.drop 1) else ([], as, bs)
    each (fun (l, r) =>
      putChars (row (l.map ([], ·), r.map ([], ·)) ++ [stop])) headers
    let pairs := joined (·.1) (as.length + bs.length + 1) (keyed k1 as) (keyed k2 bs)
    each (fun p => do
      let isPair := p.1.isSome && p.2.isSome
      let wanted :=
        if isPair then !o.has 'v' else if p.1.isSome then shows 1 else shows 2
      if wanted then putChars (row p ++ [stop])) pairs
    let less (b a : List Char) : Bool := Order.texts b a == .lt
    let report (p : String) (ls : List (List (List Char))) (k : Nat) : Work Unit := do
      let keys := (keyed k ls).map (·.1)
      let n := sortedLength less keys
      if n < keys.length then
        let line := (gap.intercalate ((ls[n]?).getD []))
        fault (Quotation.subject p ++ ":" ++ toString (n + 1) ++ ": is not sorted: " ++
          String.ofList line)
    let alone := pairs.any fun p => p.1.isNone || p.2.isNone
    if alone && !o.has 'K' then
      report a as k1
      report b bs k2
      if (← get).status != 0 then complain "input is not in sorted order"
    return (← get).status

def sorted : List Program := [
  { name := "comm", main := comm }, { name := "join", main := join },
  { name := "sort", trouble := 2, main := sort }, { name := "uniq", main := uniq }]

end CompiledModels.Tool
