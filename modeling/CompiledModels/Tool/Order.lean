import CompiledModels.Number.Rounded
import CompiledModels.Tool.Amount

namespace CompiledModels.Tool

def isBlankChar (c : Char) : Bool := c == ' ' || c == '\t'

namespace Order

def texts : List Char → List Char → Ordering
  | [], [] => .eq
  | [], _ => .lt
  | _, [] => .gt
  | a :: as, b :: bs => if a < b then .lt else if b < a then .gt else texts as bs

structure Plain where
  negative : Bool
  whole : List Char
  fraction : List Char

def plain (cs : List Char) : Plain :=
  let cs := cs.dropWhile isBlankChar
  let (negative, cs) := match cs with
    | '-' :: cs => (true, cs)
    | cs => (false, cs)
  let whole := cs.takeWhile Char.isDigit
  let fraction := match cs.drop whole.length with
    | '.' :: cs => cs.takeWhile Char.isDigit
    | _ => []
  ⟨negative, whole.dropWhile (· == '0'), (fraction.reverse.dropWhile (· == '0')).reverse⟩

namespace Plain

def isZero (p : Plain) : Bool := p.whole.isEmpty && p.fraction.isEmpty

def compareSizes (p q : Plain) : Ordering :=
  (compare p.whole.length q.whole.length).then
    ((texts p.whole q.whole).then (texts p.fraction q.fraction))

def compare (p q : Plain) : Ordering :=
  let p := { p with negative := p.negative && !p.isZero }
  let q := { q with negative := q.negative && !q.isZero }
  match p.negative, q.negative with
  | false, false => p.compareSizes q
  | true, true => q.compareSizes p
  | true, false => .lt
  | false, true => .gt

end Plain

def unitOf (cs : List Char) : Nat :=
  let cs := cs.dropWhile isBlankChar
  let cs := if cs.head? == some '-' then cs.drop 1 else cs
  let cs := cs.dropWhile Char.isDigit
  let cs := match cs with
    | '.' :: cs => cs.dropWhile Char.isDigit
    | cs => cs
  match cs with
  | c :: _ => (("KMGTPEZYRQ".toList.findIdx? (· == (if c == 'k' then 'K' else c))).map (· + 1)).getD 0
  | [] => 0

def units (as bs : List Char) : Ordering :=
  let p := plain as
  let q := plain bs
  let rank (p : Plain) (cs : List Char) : Int :=
    if p.isZero then 0 else if p.negative then -(unitOf cs : Int) - 1 else (unitOf cs : Int) + 1
  (compare (rank p as) (rank q bs)).then (p.compare q)

def general (as bs : List Char) : Ordering :=
  let read (cs : List Char) : Option Rounded :=
    let (n, rest) := Rounded.read Rounded.extended cs
    if rest.length = cs.length then none else some n
  let rank : Option Rounded → Nat
    | none => 0
    | some ⟨_, .undefined⟩ => 1
    | some _ => 2
  let value : Option Rounded → Int × Nat × Nat
    | some ⟨s, .ratio n d⟩ => (if s then -(n : Int) else n, d, 0)
    | some ⟨s, .infinite⟩ => (if s then -1 else 1, 1, 1)
    | _ => (0, 1, 0)
  let a := read as
  let b := read bs
  (compare (rank a) (rank b)).then
    (let (m, d, i) := value a
     let (n, e, j) := value b
     if i = 1 || j = 1 then
       compare (if i = 1 then m else 0) (if j = 1 then n else 0)
     else compare (m * e) (n * d))

def months : List String := ["JAN", "FEB", "MAR", "APR", "MAY", "JUN", "JUL", "AUG", "SEP", "OCT",
  "NOV", "DEC"]

def monthOf (cs : List Char) : Nat :=
  let name := String.ofList (((cs.dropWhile isBlankChar).take 3).map Char.toUpper)
  ((months.findIdx? (· == name)).map (· + 1)).getD 0

def versionRank : Option Char → Int
  | none => 0
  | some c =>
    if c == '~' then -1 else if c.isDigit then 0 else if c.isAlpha then c.toNat else c.toNat + 256

def versionParts : Nat → List Char → List Char → Ordering
  | 0, _, _ => .eq
  | fuel + 1, as, bs =>
    if as.isEmpty && bs.isEmpty then .eq
    else
      let isLetter (cs : List Char) : Bool := cs.head?.any (!·.isDigit)
      if isLetter as || isLetter bs then
        let rank (cs : List Char) : Int := versionRank cs.head?
        match compare (rank as) (rank bs) with
        | .eq => versionParts fuel (as.drop 1) (bs.drop 1)
        | o => o
      else
        let a := as.takeWhile Char.isDigit
        let b := bs.takeWhile Char.isDigit
        let digits (cs : List Char) : List Char := cs.dropWhile (· == '0')
        match (compare (digits a).length (digits b).length).then (texts (digits a) (digits b)) with
        | .eq => versionParts fuel (as.drop a.length) (bs.drop b.length)
        | o => o

def stemLength (cs : List Char) : Nat :=
  let isEnding (part : List Char) : Bool :=
    match part with
    | c :: rest => (c.isAlpha || c == '~') && rest.all fun c => c.isAlphanum || c == '~'
    | [] => false
  let rec go : List (List Char) → Nat
    | [] => 0
    | part :: rest => if isEnding part then part.length + 1 + go rest else 0
  let parts := ((Text.splitAll (· == '.') cs).drop 1).reverse
  let n := go parts
  if cs.length < n then 0 else cs.length - n

def versions (as bs : List Char) : Ordering :=
  let special (cs : List Char) : Nat :=
    if cs.isEmpty then 0 else if cs == ['.'] then 1 else if cs == ['.', '.'] then 2
    else if cs.head? == some '.' then 3 else 4
  let fuel := as.length + bs.length + 1
  if as == bs then .eq
  else match compare (special as) (special bs) with
    | .eq =>
      let hidden := special as = 3
      let as := if hidden then as.drop 1 else as
      let bs := if hidden then bs.drop 1 else bs
      (versionParts fuel (as.take (stemLength as)) (bs.take (stemLength bs))).then
        (versionParts fuel as bs)
    | o => o

end Order

structure Comparison where
  letters : List Char := []

namespace Comparison

def has (c : Comparison) (l : Char) : Bool := c.letters.contains l

def isEmpty (c : Comparison) : Bool := c.letters.isEmpty

def prepared (c : Comparison) (cs : List Char) : List Char :=
  let cs := if c.has 'd' then cs.filter fun x => isBlankChar x || x.isAlphanum
    else if c.has 'i' then cs.filter Quotation.isVisible else cs
  if c.has 'f' then cs.map Char.toUpper else cs

def compare (c : Comparison) (as bs : List Char) : Ordering :=
  let o :=
    if c.has 'n' then (Order.plain as).compare (Order.plain bs)
    else if c.has 'h' then Order.units as bs
    else if c.has 'g' then Order.general as bs
    else if c.has 'M' then Ord.compare (Order.monthOf as) (Order.monthOf bs)
    else if c.has 'V' then Order.versions (c.prepared as) (c.prepared bs)
    else Order.texts (c.prepared as) (c.prepared bs)
  if c.has 'r' then o.swap else o

end Comparison

/-- A part of a line by which it is sorted; fields and characters are counted from zero, and an end
at character zero means the whole field. -/
structure SortKey where
  field : Nat := 0
  char : Nat := 0
  stop : Option (Nat × Nat) := none
  comparison : Comparison := {}
  skipsStart : Bool := false
  skipsEnd : Bool := false

namespace SortKey

def skipFields (separator : Option Char) : Nat → List Char → List Char
  | 0, cs => cs
  | count + 1, cs =>
    match separator with
    | some t => skipFields separator count ((cs.dropWhile (· != t)).drop 1)
    | none => skipFields separator count ((cs.dropWhile isBlankChar).dropWhile (!isBlankChar ·))

def toFieldEnd (separator : Option Char) : Nat → List Char → List Char
  | 0, cs => cs
  | 1, cs =>
    match separator with
    | some t => cs.dropWhile (· != t)
    | none => (cs.dropWhile isBlankChar).dropWhile (!isBlankChar ·)
  | count + 1, cs => toFieldEnd separator count (skipFields separator 1 cs)

def extract (separator : Option Char) (k : SortKey) (cs : List Char) : List Char :=
  let start := skipFields separator k.field cs
  let start := if k.skipsStart then start.dropWhile isBlankChar else start
  let start := start.drop k.char
  match k.stop with
  | none => start
  | some (field, char) =>
    let rest :=
      if char = 0 then toFieldEnd separator (field + 1) cs
      else
        let rest := skipFields separator field cs
        let rest := if k.skipsEnd then rest.dropWhile isBlankChar else rest
        rest.drop char
    start.take (start.length - rest.length)

end SortKey

end CompiledModels.Tool
