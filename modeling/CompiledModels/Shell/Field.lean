import CompiledModels.Kernel.Files
import CompiledModels.Shell.Pattern

namespace CompiledModels.Shell

inductive Item
  | char (c : Char) (quoted : Bool)
  | mark

inductive Splitting
  | never
  | separators
  | arguments
  deriving DecidableEq

structure Segment where
  items : List Item
  splitting : Splitting

def argumentEnd : Char := '\x00'

namespace Item

def ofText (quoted : Bool) (s : String) : List Item := s.toList.map (char · quoted)

def toQuoted? : Item → Option QuotedChar
  | char c quoted => some (c, quoted)
  | mark => none

end Item

def quotedChars (items : List Item) : List QuotedChar := items.filterMap Item.toQuoted?

def plainText (cs : List QuotedChar) : String := String.ofList (cs.map (·.1))

namespace Segment

def allItems (ss : List Segment) : List Item := ss.flatMap (·.items)

def text (ss : List Segment) : String := plainText (quotedChars (allItems ss))

def pattern (ss : List Segment) : List QuotedChar := quotedChars (allItems ss)

end Segment

structure Splitter where
  done : List (List Item)
  current : List Item
  gap : Bool
  left : Option Nat
  cut : Option Nat

namespace Splitter

def isBlank (c : Char) : Bool := c == ' ' || c == '\t' || c == '\n' || c == argumentEnd

def next (separates : Char → Bool) (loose : Bool) (s : Splitter) (i : Item) : Splitter :=
  let push (s : Splitter) : Splitter := { s with current := i :: s.current }
  match i with
  | .mark => push s
  | .char c _ =>
    let separating := separates c
    let blank := separating && isBlank c
    if s.left = some 0 then
      if blank then push { s with cut := s.cut.or (some s.current.length) }
      else push { s with gap := false, cut := if separating && s.gap then s.cut else none }
    else if s.gap then
      if blank then { s with current := [] }
      else if separating then { s with current := [], gap := false }
      else { s with current := [i], gap := false }
    else if separating then
      let gap := if loose then blank else false
      if s.current.isEmpty && gap then { s with gap := false }
      else match s.left with
        | some 1 => push { s with gap, left := some 0, cut := some s.current.length }
        | left =>
          { s with done := s.current.reverse :: s.done, current := [], gap
                   left := left.map (· - 1) }
    else push { s with gap := false }

def run (separators : List Char) (argumentsBefore : Bool) (s : Splitter) : List Segment → Splitter
  | [] => s
  | seg :: rest =>
    match seg.splitting with
    | .never =>
      let s := { s with current := seg.items.reverse ++ s.current }
      run separators argumentsBefore s rest
    | .arguments =>
      let s := seg.items.foldl (next (· == argumentEnd) false) { s with gap := false }
      run separators true s rest
    | .separators =>
      let separates (c : Char) : Bool := separators.contains c || c == argumentEnd
      let s := seg.items.foldl (next separates (!argumentsBefore)) { s with gap := false }
      run separators false s rest

end Splitter

def splitFields (separators : List Char) (limit : Option Nat) (ss : List Segment) :
    List (List Item) :=
  let s := Splitter.run separators false ⟨[], [], false, limit, none⟩ ss
  let lastSplit := (ss.filter (·.splitting ≠ .never)).getLast?
  let current := s.current.reverse
  let last := s.cut.elim current current.take
  let keeps := (lastSplit.map (·.splitting)) = some .arguments || !last.isEmpty
  (if keeps then last :: s.done else s.done).reverse

def isPatternSign (c : QuotedChar) : Bool := !c.2 && "*?[".toList.contains c.1

def splitSlashes : List QuotedChar → List (List QuotedChar)
  | [] => [[]]
  | c :: cs =>
    match splitSlashes cs with
    | [] => [[c]]
    | w :: ws => if c.1 == '/' then [] :: w :: ws else (c :: w) :: ws

def matchingNames (k : Kernel) (process : Nat) (start : String) (part : List QuotedChar) :
    List String :=
  if part.any isPatternSign then
    let names := (k.list process (if start.isEmpty then "." else start)).toOption.elim []
      ("." :: ".." :: ·)
    let hidden := part.head?.any (·.1 == '.')
    names.filter fun n => (hidden || !n.startsWith ".") && wordMatches part n.toList
  else [plainText part]

def matchingPaths (k : Kernel) (process : Nat) (start : String) :
    List (List QuotedChar) → List String
  | [] => []
  | [part] => (matchingNames k process start part).map (start ++ ·)
  | part :: rest =>
    (matchingNames k process start part).flatMap fun n =>
      matchingPaths k process (start ++ n ++ "/") rest

def matchFiles (k : Kernel) (process : Nat) (field : List QuotedChar) : List String :=
  if field.any isPatternSign then
    let found := (matchingPaths k process "" (splitSlashes field)).filter fun p =>
      (k.facts process false p).toOption.isSome
    if found.isEmpty then [plainText field]
    else found.mergeSort fun a b => !(b < a)
  else [plainText field]

def dropSuffix (longest : Bool) (pattern : List QuotedChar) (s : List Char) : List Char :=
  let cuts := List.range (s.length + 1)
  let cuts := if longest then cuts else cuts.reverse
  match cuts.find? fun i => wordMatches pattern (s.drop i) with
  | some i => s.take i
  | none => s

def dropStart (longest : Bool) (pattern : List QuotedChar) (s : List Char) : List Char :=
  let cuts := List.range (s.length + 1)
  let cuts := if longest then cuts.reverse else cuts
  match cuts.find? fun i => wordMatches pattern (s.take i) with
  | some i => s.drop i
  | none => s

end CompiledModels.Shell
