
namespace CompiledModels.Text

def isBlank (c : Char) : Bool :=
  let n := c.toNat
  (9 ≤ n && n ≤ 13) || n == 0x20 || n == 0x85 || n == 0xa0 || n == 0x1680 ||
    (0x2000 ≤ n && n ≤ 0x200a) || n == 0x2028 || n == 0x2029 || n == 0x202f || n == 0x205f ||
    n == 0x3000

def trimEnd (s : String) : String :=
  String.ofList (s.toList.reverse.dropWhile isBlank).reverse

def trim (s : String) : String :=
  String.ofList ((s.toList.dropWhile isBlank).reverse.dropWhile isBlank).reverse

def splitAll {α : Type} (p : α → Bool) : List α → List (List α)
  | [] => [[]]
  | c :: cs =>
    match splitAll p cs with
    | [] => [[c]]
    | w :: ws => if p c then [] :: w :: ws else (c :: w) :: ws

def words (s : String) : List String :=
  ((splitAll isBlank s.toList).filter (!·.isEmpty)).map String.ofList

/-- The lines of `s`: each ends at a line feed or at the end of the text, a carriage return
before the line feed is no part of it, and an empty rest is no line. -/
def lines (s : String) : List String :=
  let parts := splitAll (· == '\n') s.toList
  let full := parts.dropLast.map fun l => if l.getLast? == some '\r' then l.dropLast else l
  let last := (parts.getLast?.toList).filter (!·.isEmpty)
  (full ++ last).map String.ofList

def joinWith (between : String) (parts : List String) : String :=
  between.intercalate parts

def alignRight (width : Nat) (s : String) : String :=
  String.ofList (List.replicate (width - s.length) ' ') ++ s

def alignLeft (width : Nat) (s : String) : String :=
  s ++ String.ofList (List.replicate (width - s.length) ' ')

end CompiledModels.Text
