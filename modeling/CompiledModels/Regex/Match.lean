import CompiledModels.Text.CharSet

/-!
Regular expressions and what they match: the match that starts first, of these the longest, and of
the ways to match it the one that takes earlier alternatives and more turns.
-/

namespace CompiledModels

inductive Edge
  | lineStart
  | lineEnd
  | textStart
  | textEnd
  | wordStart
  | wordEnd
  | word
  | noWord
  deriving DecidableEq

inductive Regex
  | empty
  | char (c : Char)
  | any
  | set (s : CharSet)
  | edge (e : Edge)
  | seq (a b : Regex)
  | either (a b : Regex)
  | times (r : Regex) (least : Nat) (most : Option Nat)
  | group (number : Nat) (r : Regex)
  | again (number : Nat)

namespace Regex

def literal (cs : List Char) : Regex := cs.foldr (fun c r => seq (char c) r) empty

def hasAgain : Regex → Bool
  | seq a b => a.hasAgain || b.hasAgain
  | either a b => a.hasAgain || b.hasAgain
  | times r _ _ => r.hasAgain
  | group _ r => r.hasAgain
  | again _ => true
  | _ => false

def groupCount : Regex → Nat
  | seq a b => a.groupCount + b.groupCount
  | either a b => a.groupCount + b.groupCount
  | times r _ _ => r.groupCount
  | group _ r => r.groupCount + 1
  | _ => 0

structure Subject where
  text : Array Char
  folds : Bool := false
  hasLines : Bool := false
  exact : Bool := false

structure Progress where
  place : Nat
  groups : List (Nat × Nat × Nat)
  deriving DecidableEq

namespace Subject

variable (s : Subject)

def isWordChar (c : Char) : Bool := c.isAlphanum || c == '_'

def wordAt (place : Nat) : Bool := s.text[place]?.any isWordChar

def holds (place : Nat) (e : Edge) : Bool :=
  let before := place != 0 && s.wordAt (place - 1)
  let after := s.wordAt place
  match e with
  | .textStart => place = 0
  | .textEnd => place = s.text.size
  | .lineStart => place = 0 || s.hasLines && s.text[place - 1]? == some '\n'
  | .lineEnd => place = s.text.size || s.hasLines && s.text[place]? == some '\n'
  | .wordStart => !before && after
  | .wordEnd => before && !after
  | .word => before != after
  | .noWord => before == after

def same (a b : Char) : Bool := a == b || s.folds && a.toLower == b.toLower

def endsLine (c : Char) : Bool := s.hasLines && c == '\n'

def isIn (t : CharSet) (c : Char) : Bool :=
  (t.contains c || s.folds && (t.contains c.toLower || t.contains c.toUpper)) &&
    !(t.negated && s.endsLine c)

def accepts? : Regex → Option (Char → Bool)
  | char c => some (s.same c)
  | any => some (!s.endsLine ·)
  | set t => some (s.isIn t)
  | _ => none

def distinct : List Progress → List Progress
  | [] => []
  | p :: ps =>
    let same (q : Progress) : Bool :=
      p.place = q.place && (!s.exact || p.groups = q.groups)
    p :: (distinct ps).filter (!same ·)

def turns (step : Progress → List Progress) :
    Nat → Progress → List Progress → List Progress × List Progress
  | 0, _, seen => ([], seen)
  | fuel + 1, p, seen =>
    let isSeen := seen.any fun q => p.place = q.place && (!s.exact || p.groups = q.groups)
    if isSeen then ([], seen)
    else
      let (found, seen) := (step p).foldl (fun (found, seen) q =>
        let (more, seen) := turns step fuel q seen
        (found ++ more, seen)) ([], p :: seen)
      (found ++ [p], seen)

def fewTurns (step : Progress → List Progress) : Nat → Progress → List Progress
  | 0, p => [p]
  | most + 1, p =>
    s.distinct ((((step p).filter (·.place != p.place)).flatMap (fewTurns step most)) ++ [p])

def exactTurns (step : Progress → List Progress) : Nat → Progress → List Progress
  | 0, p => [p]
  | count + 1, p => s.distinct ((exactTurns step count p).flatMap step)

def runWithin (accepted : Char → Bool) : Nat → Nat → Nat
  | 0, _ => 0
  | count + 1, place =>
    if s.text[place]?.any accepted then runWithin accepted count (place + 1) + 1 else 0

def run (accepted : Char → Bool) (place : Nat) : Nat :=
  s.runWithin accepted (s.text.size - place) place

def groupText (p : Progress) (number : Nat) : Option (List Char) :=
  (p.groups.find? (·.1 = number)).map fun (_, a, b) => (s.text.extract a b).toList

def standsAt (cs : List Char) (place : Nat) : Bool :=
  let there := (s.text.extract place (place + cs.length)).toList
  there.length = cs.length && (there.zip cs).all fun (a, b) => s.same a b

def ways : Regex → Progress → List Progress
  | empty, p => [p]
  | char c, p => if s.text[p.place]?.any (s.same c) then [{ p with place := p.place + 1 }] else []
  | any, p =>
    if s.text[p.place]?.any (!s.endsLine ·) then [{ p with place := p.place + 1 }] else []
  | set t, p =>
    if s.text[p.place]?.any (s.isIn t) then [{ p with place := p.place + 1 }] else []
  | edge e, p => if s.holds p.place e then [p] else []
  | seq a b, p => s.distinct ((ways a p).flatMap (ways b))
  | either a b, p => s.distinct (ways a p ++ ways b p)
  | group n r, p =>
    (ways r p).map fun q =>
      { q with groups := (n, p.place, q.place) :: q.groups.filter (·.1 ≠ n) }
  | again n, p =>
    match s.groupText p n with
    | some cs => if s.standsAt cs p.place then [{ p with place := p.place + cs.length }] else []
    | none => []
  | times r least most, p =>
    match s.accepts? r with
    | some accepted =>
      let run := s.run accepted p.place
      let run := most.elim run (min run)
      if run < least then []
      else (List.range (run - least + 1)).map fun i => { p with place := p.place + (run - i) }
    | none =>
      let start := s.exactTurns (ways r) least p
      match most with
      | some n => s.distinct (start.flatMap (s.fewTurns (ways r) (n - least)))
      | none =>
        (start.foldl (fun (found, seen) q =>
          let (more, seen) := s.turns (ways r) (s.text.size + 2) q seen
          (found ++ more, seen)) ([], [])).1

def longest : List Progress → Option Progress
  | [] => none
  | p :: ps =>
    match longest ps with
    | some q => if p.place < q.place then some q else some p
    | none => some p

def matchAt (r : Regex) (place : Nat) : Option Progress := longest (s.ways r ⟨place, []⟩)

end Subject

structure Found where
  start : Nat
  stop : Nat
  groups : List (Nat × Nat × Nat)

def searchFrom (r : Regex) (s : Subject) (place : Nat) : Nat → Option Found
  | 0 => (s.matchAt r place).map fun p => ⟨place, p.place, p.groups⟩
  | count + 1 =>
    match s.matchAt r place with
    | some p => some ⟨place, p.place, p.groups⟩
    | none => searchFrom r s (place + 1) count

def isAnchored : Regex → Bool
  | edge .textStart => true
  | edge .lineStart => true
  | seq a _ => a.isAnchored
  | group _ r => r.isAnchored
  | _ => false

def find? (r : Regex) (s : Subject) (place : Nat) : Option Found :=
  if s.text.size < place then none
  else if r.isAnchored && !s.hasLines && place != 0 then none
  else
    r.searchFrom s place (if r.isAnchored && !s.hasLines then 0 else s.text.size - place)

def Found.text (f : Found) (s : Subject) (number : Nat) : List Char :=
  if number = 0 then (s.text.extract f.start f.stop).toList
  else match f.groups.find? (·.1 = number) with
    | some (_, a, b) => (s.text.extract a b).toList
    | none => []

end Regex

end CompiledModels
