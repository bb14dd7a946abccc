import CompiledModels.Text.Blank

namespace CompiledModels.Kernel.Permission

structure Clause where
  who : Option Nat
  sign : Char
  letters : List Char

def bitsOf (c : Char) : Nat :=
  match c with
  | 'u' => 0o4700
  | 'g' => 0o2070
  | 'o' => 0o1007
  | _ => 0o7777

def letterBits (directory : Bool) (mode : Nat) (c : Char) : Nat :=
  let spread (n : Nat) : Nat := n * 0o111
  match c with
  | 'r' => 0o444
  | 'w' => 0o222
  | 'x' => 0o111
  | 'X' => if directory || mode &&& 0o111 != 0 then 0o111 else 0
  | 's' => 0o6000
  | 't' => 0o1000
  | 'u' => spread (mode / 0o100 % 8)
  | 'g' => spread (mode / 0o10 % 8)
  | 'o' => spread (mode % 8)
  | _ => 0

def actions (who : Option Nat) : Nat → List Char → Option (List Clause)
  | 0, _ => none
  | _, [] => some []
  | fuel + 1, sign :: cs =>
    if "+-=".toList.contains sign then
      let letters := cs.takeWhile "rwxXstugo".toList.contains
      (actions who fuel (cs.drop letters.length)).map (⟨who, sign, letters⟩ :: ·)
    else none

def clausesOf (cs : List Char) : Option (List Clause) :=
  let users := cs.takeWhile "ugoa".toList.contains
  let who :=
    if users.isEmpty then none else some (users.foldl (fun n c => n ||| bitsOf c) 0)
  let rest := cs.drop users.length
  if rest.isEmpty then none else actions who (rest.length + 1) rest

def clauses? (s : String) : Option (List Clause) :=
  ((Text.splitAll (· == ',') s.toList).mapM clausesOf).map List.flatten

def without (a b : Nat) : Nat := a &&& (0o7777 ^^^ (b &&& 0o7777))

def Clause.apply (directory : Bool) (mask mode : Nat) (c : Clause) : Nat :=
  let bits := c.letters.foldl (fun n l => n ||| letterBits directory mode l) 0
  let chosen := bits &&& (c.who.getD (without 0o7777 mask))
  match c.sign with
  | '+' => mode ||| chosen
  | '-' => without mode chosen
  | _ =>
    let kept := if directory then mode &&& 0o6000 else 0
    without mode (c.who.getD 0o7777) ||| chosen ||| kept

def octal? (s : String) : Option Nat :=
  if s.isEmpty || !(s.all fun c => '0' ≤ c && c ≤ '7') then none
  else some (s.toList.foldl (fun n c => n * 8 + (c.toNat - 0x30)) 0)

def change? (s : String) (directory : Bool) (mask mode : Nat) : Option Nat :=
  match octal? s with
  | some n =>
    if n ≤ 0o7777 then
      some (if directory && s.length < 5 then n ||| (mode &&& 0o6000) else n)
    else none
  | none => (clauses? s).map fun cs => cs.foldl (Clause.apply directory mask) mode

def octalText (n : Nat) : String := String.ofList (Nat.toDigits 8 n)

def lettersOf (mode : Nat) : String :=
  let bit (b : Nat) (c : Char) : Char := if mode &&& b != 0 then c else '-'
  let last (x special : Nat) (both only : Char) : Char :=
    if mode &&& special != 0 then (if mode &&& x != 0 then both else only) else bit x 'x'
  String.ofList [bit 0o400 'r', bit 0o200 'w', last 0o100 0o4000 's' 'S', bit 0o40 'r',
    bit 0o20 'w', last 0o10 0o2000 's' 'S', bit 0o4 'r', bit 0o2 'w', last 0o1 0o1000 't' 'T']

end CompiledModels.Kernel.Permission
