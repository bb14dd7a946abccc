import CompiledModels.Tool.Option
import CompiledModels.Tool.Quotation

namespace CompiledModels.Tool

inductive AmountError
  | invalid
  | overflow
  deriving DecidableEq

namespace Amount

def powerOf? (c : Char) : Option Nat :=
  match c with
  | 'k' => some 1
  | 'K' => some 1
  | 'm' => some 2
  | 'M' => some 2
  | 'g' => some 3
  | 'G' => some 3
  | 't' => some 4
  | 'T' => some 4
  | 'P' => some 5
  | 'E' => some 6
  | 'Z' => some 7
  | 'Y' => some 8
  | _ => none

def factor? (unit : List Char) : Option Nat :=
  match unit with
  | [] => some 1
  | ['b'] => some 512
  | ['c'] => some 1
  | ['w'] => some 2
  | [c] => (powerOf? c).map (1024 ^ ·)
  | [c, 'i', 'B'] => (powerOf? c).map (1024 ^ ·)
  | [c, 'B'] => (powerOf? c).map (1000 ^ ·)
  | _ => none

def limit : Nat := 2 ^ 64

def read (units : String) (s : String) : Except AmountError Nat :=
  let cs := s.toList.dropWhile fun c => c == ' ' || ('\t' ≤ c && c ≤ '\x0d')
  let cs := match cs with
    | '+' :: cs => cs
    | cs => cs
  let digits := cs.takeWhile Char.isDigit
  let unit := cs.drop digits.length
  if digits.isEmpty && !(unit.head?.any fun c => units.contains c) then .error .invalid
  else if unit.head?.any fun c => !units.contains c then .error .invalid
  else match factor? unit with
    | none => .error .invalid
    | some f =>
      let n := (if digits.isEmpty then 1 else (String.ofList digits).toNat?.getD 0) * f
      if limit ≤ n then .error .overflow else .ok n

def units : String := "bkKmMgGtTPEZY"

def demand (units what s : String) : Work Nat := do
  match read units s with
  | .ok n => return n
  | .error .invalid => Work.refuse (what ++ ": " ++ Quotation.word s)
  | .error .overflow =>
    Work.refuse (what ++ ": " ++ Quotation.word s ++ ": Value too large for defined data type")

end Amount

end CompiledModels.Tool
