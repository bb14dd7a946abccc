
namespace CompiledModels.Text

structure Change where
  oldStart : Nat
  oldCount : Nat
  newStart : Nat
  newCount : Nat
  deriving DecidableEq

structure Sides (α : Type) where
  old : Array α
  new : Array α

namespace Sides

variable {α : Type} [BEq α] (s : Sides α)

def same (i j : Int) : Bool :=
  match s.old[i.toNat]?, s.new[j.toNat]? with
  | some a, some b => a == b
  | _, _ => false

structure Front where
  places : Array Int
  low : Int
  high : Int

namespace Front

def get (f : Front) (base d : Int) : Int := f.places.getD (d - base).toNat 0

def set (f : Front) (base d x : Int) : Front :=
  { f with places := f.places.setIfInBounds (d - base).toNat x }

def widen (f : Front) (base least most unreached : Int) : Front :=
  let f := if least < f.low then
      { f.set base (f.low - 2) unreached with low := f.low - 1 }
    else { f with low := f.low + 1 }
  if f.high < most then { f.set base (f.high + 2) unreached with high := f.high + 1 }
  else { f with high := f.high - 1 }

end Front

structure Area where
  oldStart : Int
  oldStop : Int
  newStart : Int
  newStop : Int

def follow (a : Area) : Nat → Int → Int → Int
  | 0, x, _ => x
  | fuel + 1, x, y =>
    if x < a.oldStop && y < a.newStop && s.same x y then follow a fuel (x + 1) (y + 1) else x

def followBack (a : Area) : Nat → Int → Int → Int
  | 0, x, _ => x
  | fuel + 1, x, y =>
    if a.oldStart < x && a.newStart < y && s.same (x - 1) (y - 1) then
      followBack a fuel (x - 1) (y - 1)
    else x

def advance (a : Area) (base : Int) (odd : Bool) (other : Front) :
    Nat → Int → Front → Front × Option (Int × Int)
  | 0, _, f => (f, none)
  | fuel + 1, d, f =>
    if d < f.low then (f, none)
    else
      let below := f.get base (d - 1)
      let above := f.get base (d + 1)
      let x := if below < above then above else below + 1
      let x := s.follow a (s.old.size + 1) x (x - d)
      let f := f.set base d x
      if odd && other.low ≤ d && d ≤ other.high && other.get base d ≤ x then (f, some (x, x - d))
      else advance a base odd other fuel (d - 2) f

def retreat (a : Area) (base : Int) (odd : Bool) (other : Front) :
    Nat → Int → Front → Front × Option (Int × Int)
  | 0, _, f => (f, none)
  | fuel + 1, d, f =>
    if d < f.low then (f, none)
    else
      let below := f.get base (d - 1)
      let above := f.get base (d + 1)
      let x := if below < above then below else above - 1
      let x := s.followBack a (s.old.size + 1) x (x - d)
      let f := f.set base d x
      if !odd && other.low ≤ d && d ≤ other.high && x ≤ other.get base d then (f, some (x, x - d))
      else retreat a base odd other fuel (d - 2) f

def middle (a : Area) : Int × Int :=
  let least := a.oldStart - a.newStop
  let most := a.oldStop - a.newStart
  let base := least - 2
  let far : Int := s.old.size + s.new.size + 4
  let first := a.oldStart - a.newStart
  let last := a.oldStop - a.newStop
  let odd := (first - last) % 2 != 0
  let room := Array.replicate (most - base + 4).toNat (0 : Int)
  let forward := (Front.mk room first first).set base first a.oldStart
  let backward := (Front.mk room last last).set base last a.oldStop
  let rec go : Nat → Front → Front → Int × Int
    | 0, _, _ => (a.oldStart, a.newStart)
    | fuel + 1, forward, backward =>
      let forward := forward.widen base least most (-1)
      let steps := (forward.high - forward.low).toNat + 1
      let (forward, met) := s.advance a base odd backward steps forward.high forward
      match met with
      | some place => place
      | none =>
        let backward := backward.widen base least most far
        let steps := (backward.high - backward.low).toNat + 1
        let (backward, met) := s.retreat a base odd forward steps backward.high backward
        match met with
        | some place => place
        | none => go fuel forward backward
  go (s.old.size + s.new.size + 2) forward backward

structure Marks where
  old : Array Bool
  new : Array Bool

def mark (a : Area) (m : Marks) : Nat → Marks
  | 0 => m
  | fuel + 1 =>
    let x := s.follow a (s.old.size + 1) a.oldStart a.newStart
    let y := a.newStart + (x - a.oldStart)
    let a := { a with oldStart := x, newStart := y }
    let x := s.followBack a (s.old.size + 1) a.oldStop a.newStop
    let y := a.newStop - (a.oldStop - x)
    let a := { a with oldStop := x, newStop := y }
    let range (i j : Int) : List Nat :=
      (List.range (j - i).toNat).map (i.toNat + ·)
    let all (marks : Array Bool) (i j : Int) : Array Bool :=
      (range i j).foldl (fun m n => m.setIfInBounds n true) marks
    if a.oldStart = a.oldStop then { m with new := all m.new a.newStart a.newStop }
    else if a.newStart = a.newStop then { m with old := all m.old a.oldStart a.oldStop }
    else
      let (x, y) := s.middle a
      let m := mark { a with oldStop := x, newStop := y } m fuel
      mark { a with oldStart := x, newStart := y } m fuel

structure Shifting where
  changed : Array Bool
  start : Nat
  stop : Nat
  other : Nat

def isMarked (marks : Array Bool) (i : Nat) : Bool := marks.getD i false

def skipMarked (marks : Array Bool) : Nat → Nat → Nat
  | 0, i => i
  | fuel + 1, i => if isMarked marks i then skipMarked marks fuel (i + 1) else i

def skipMarkedBack (marks : Array Bool) : Nat → Nat → Nat
  | 0, i => i
  | fuel + 1, i =>
    if i != 0 && isMarked marks (i - 1) then skipMarkedBack marks fuel (i - 1) else i

def previous (marks : Array Bool) (j : Nat) : Nat :=
  let rec go : Nat → Nat → Nat
    | 0, j => j
    | fuel + 1, j => if isMarked marks j && j != 0 then go fuel (j - 1) else j
  go (marks.size + 1) (j - 1)

def itemsSame (items : Array α) (i j : Nat) : Bool :=
  match items[i]?, items[j]? with
  | some a, some b => a == b
  | _, _ => false

def shiftBack (items : Array α) (others : Array Bool) : Nat → Shifting → Shifting
  | 0, h => h
  | fuel + 1, h =>
    if h.start != 0 && itemsSame items (h.start - 1) (h.stop - 1) then
      let changed := (h.changed.setIfInBounds (h.start - 1) true).setIfInBounds (h.stop - 1) false
      let start := skipMarkedBack changed (h.start + 1) (h.start - 1)
      shiftBack items others fuel
        { changed, start, stop := h.stop - 1, other := previous others h.other }
    else h

/-- Moves marks to the end as long as the item behind them is the same as their first one; the
second result is the last place where the other sequence has marks too. -/
def shiftForth (items : Array α) (others : Array Bool) :
    Nat → Option Nat → Shifting → Shifting × Option Nat
  | 0, match_, h => (h, match_)
  | fuel + 1, match_, h =>
    if h.stop < items.size && itemsSame items h.start h.stop then
      let changed := (h.changed.setIfInBounds h.start false).setIfInBounds h.stop true
      let stop := skipMarked changed (items.size + 1) (h.stop + 1)
      let other := skipMarked others (others.size + 1) (h.other + 1)
      let match_ := if h.other + 1 < other then some stop else match_
      shiftForth items others fuel match_ { changed, start := h.start + 1, stop, other }
    else (h, match_)

def settle (items : Array α) (others : Array Bool) : Nat → Shifting → Shifting × Option Nat
  | 0, h => (h, none)
  | fuel + 1, h =>
    let length := h.stop - h.start
    let h := shiftBack items others (items.size + 1) h
    let match_ := if h.other != 0 && isMarked others (h.other - 1) then some h.stop else none
    let (h, match_) := shiftForth items others (items.size + 1) match_ h
    if h.stop - h.start = length then (h, match_) else settle items others fuel h

def matchOther (others : Array Bool) (place : Nat) : Nat → Shifting → Shifting
  | 0, h => h
  | fuel + 1, h =>
    if place < h.stop then
      let changed := (h.changed.setIfInBounds (h.start - 1) true).setIfInBounds (h.stop - 1) false
      matchOther others place fuel
        { changed, start := h.start - 1, stop := h.stop - 1, other := previous others h.other }
    else h

def shiftAll (items : Array α) (others : Array Bool) : Nat → Nat → Nat → Array Bool → Array Bool
  | 0, _, _, changed => changed
  | fuel + 1, i, j, changed =>
    if items.size ≤ i then changed
    else if !isMarked changed i then
      shiftAll items others fuel (i + 1) (skipMarked others (others.size + 1) j + 1) changed
    else
      let stop := skipMarked changed (items.size + 1) i
      let other := skipMarked others (others.size + 1) j
      let (h, match_) :=
        settle items others (items.size + 1) { changed, start := i, stop, other }
      let h := match match_ with
        | some place => matchOther others place (items.size + 1) h
        | none => h
      shiftAll items others fuel h.stop h.other h.changed

def changesOf (m : Marks) : Nat → Nat → Nat → List Change
  | 0, _, _ => []
  | fuel + 1, i, j =>
    if m.old.size ≤ i && m.new.size ≤ j then []
    else if isMarked m.old i || isMarked m.new j then
      let i' := skipMarked m.old (m.old.size + 1) i
      let j' := skipMarked m.new (m.new.size + 1) j
      ⟨i, i' - i, j, j' - j⟩ :: changesOf m fuel i' j'
    else changesOf m fuel (i + 1) (j + 1)

def changes : List Change :=
  let known (items : Array α) (a : α) : Bool := items.contains a
  let indices (items others : Array α) : List Nat :=
    (List.range items.size).filter fun i => items[i]?.any (known others)
  -- Items that the other sequence does not have are no part of the comparison.
  let oldKept := (indices s.old s.new).toArray
  let newKept := (indices s.new s.old).toArray
  let kept : Sides α :=
    ⟨oldKept.filterMap (s.old[·]?), newKept.filterMap (s.new[·]?)⟩
  let none_ (n : Nat) : Array Bool := Array.replicate n false
  let area : Area := ⟨0, kept.old.size, 0, kept.new.size⟩
  let inner := kept.mark area ⟨none_ kept.old.size, none_ kept.new.size⟩
    (kept.old.size + kept.new.size + 2)
  let spread (size : Nat) (indices : Array Nat) (marks : Array Bool) : Array Bool :=
    (List.range indices.size).foldl (fun m i =>
      m.setIfInBounds (indices.getD i 0) (isMarked marks i)) (Array.replicate size true)
  let old := spread s.old.size oldKept inner.old
  let new := spread s.new.size newKept inner.new
  let steps (items : Array α) : Nat := 2 * items.size + 2
  let old := shiftAll s.old new (steps s.old) 0 0 old
  let new := shiftAll s.new old (steps s.new) 0 0 new
  changesOf ⟨old, new⟩ (s.old.size + s.new.size + 2) 0 0

end Sides

def differences {α : Type} [BEq α] (old new : List α) : List Change :=
  (Sides.mk old.toArray new.toArray).changes

end CompiledModels.Text
