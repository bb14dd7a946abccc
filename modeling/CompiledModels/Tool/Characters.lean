import CompiledModels.Text.CharSet
import CompiledModels.Tool.Amount

namespace CompiledModels.Tool

open Kernel (Run)
open Work

inductive CharItem
  | one (c : Char)
  | range (a b : Char)
  | named (name : String)
  | many (c : Char) (count : Option Nat)

namespace CharItem

def escaped : List Char → Option (Char × Bool × List Char)
  | '\\' :: c :: rest =>
    if '0' ≤ c ∧ c ≤ '7' then
      let digits := ((c :: rest).take 3).takeWhile fun c => '0' ≤ c && c ≤ '7'
      let value (cs : List Char) : Nat := cs.foldl (fun n c => n * 8 + (c.toNat - 0x30)) 0
      let digits := if 255 < value digits then digits.take 2 else digits
      some (Char.ofNat (value digits), true, (c :: rest).drop digits.length)
    else
      let d := match c with
        | 'a' => '\x07'
        | 'b' => '\x08'
        | 'f' => '\x0c'
        | 'n' => '\n'
        | 'r' => '\x0d'
        | 't' => '\t'
        | 'v' => '\x0b'
        | c => c
      some (d, true, rest)
  | c :: rest => some (c, false, rest)
  | [] => none

def bracketed (mark : Char) (cs : List Char) : Option (List Char × List Char) :=
  let rec go : List Char → List Char → Option (List Char × List Char)
    | before, a :: b :: cs =>
      if a == mark && b == ']' then some (before.reverse, cs) else go (a :: before) (b :: cs)
    | _, _ => none
  go [] cs

def repeated? (cs : List Char) : Work (Option (CharItem × List Char)) := do
  match escaped cs with
  | some (c, _, '*' :: rest) =>
    let digits := rest.takeWhile (· != ']')
    match rest.drop digits.length with
    | _ :: after =>
      if digits.isEmpty then return some (.many c none, after)
      else if !digits.all Char.isDigit then
        refuse ("invalid repeat count " ++ Quotation.word (String.ofList digits) ++
          " in [c*n] construct")
      else
        let base := if digits.head? == some '0' then 8 else 10
        let n := digits.foldl (fun n c => n * base + (c.toNat - 0x30)) 0
        return some (.many c (if n = 0 then none else some n), after)
    | [] => return none
  | _ => return none

def readAll : Nat → List Char → Work (List CharItem)
  | 0, _ => return []
  | fuel + 1, cs => do
    let named ← match cs with
      | '[' :: ':' :: rest =>
        match bracketed ':' rest with
        | some (name, after) =>
          let name := String.ofList name
          if (CharSet.class? name).isSome then pure (some (CharItem.named name, after))
          else refuse ("invalid character class " ++ Quotation.word name)
        | none => repeated? (':' :: rest)
      | '[' :: '=' :: rest =>
        match bracketed '=' rest with
        | some ([c], after) => pure (some (CharItem.one c, after))
        | some ([], _) => refuse "missing equivalence class character '[==]'"
        | some (cs, _) =>
          refuse (String.ofList cs ++ ": equivalence class operand must be a single character")
        | none => repeated? ('=' :: rest)
      | '[' :: rest => repeated? rest
      | _ => pure none
    match named with
    | some (item, rest) => return item :: (← readAll fuel rest)
    | none =>
      match escaped cs with
      | none => return []
      | some (a, _, rest) =>
        match rest with
        | '-' :: more =>
          match escaped more with
          | some (b, _, rest) =>
            if b < a then
              let shown (c : Char) : String :=
                if Quotation.isVisible c then c.toString else Quotation.escape c
              refuse ("range-endpoints of '" ++ shown a ++ "-" ++ shown b ++
                "' are in reverse collating sequence order")
            else return .range a b :: (← readAll fuel rest)
          | none => return .one a :: (← readAll fuel rest)
        | _ => return .one a :: (← readAll fuel rest)

def between (a b : Char) : List Char :=
  (List.range (b.toNat + 1 - a.toNat)).map fun i => Char.ofNat (a.toNat + i)

def allChars : List Char := (List.range 256).map Char.ofNat

def classChars (name : String) : List Char :=
  allChars.filter fun c => (⟨false, CharSet.ofClass name⟩ : CharSet).contains c

def chars (fill : Nat) : CharItem → List Char
  | one c => [c]
  | range a b => between a b
  | named name => classChars name
  | many c count => List.replicate (count.getD fill) c

def isOpen : CharItem → Bool
  | many _ none => true
  | _ => false

def isNamed : CharItem → Bool
  | named _ => true
  | _ => false

def isCase : CharItem → Bool
  | named "upper" => true
  | named "lower" => true
  | _ => false

end CharItem

structure Translation where
  deleted : Char → Bool := fun _ => false
  replaced : Char → Char := id
  squeezed : Char → Bool := fun _ => false

namespace Translation

def apply (t : Translation) (last : Option Char) (cs : List Char) : List Char × Option Char :=
  let (out, last) := cs.foldl (fun (out, last) c =>
    if t.deleted c then (out, last)
    else
      let d := t.replaced c
      if some d == last && t.squeezed d then (out, last) else (d :: out, some d))
    (([] : List Char), last)
  (out.reverse, last)

end Translation

/-- Which characters the second list gives for those of the first one. Where both lists have a class
of small or capital letters at one place, the case changes. -/
def pairs (complement truncates : Bool) (first second : List CharItem) :
    Work (List (Char × Char)) := do
  let fixed := (first.flatMap (·.chars 0))
  let source := if complement then CharItem.allChars.filter (!fixed.contains ·) else fixed
  let known := (second.flatMap (·.chars 0)).length
  let target := second.flatMap (·.chars (source.length - known))
  if second.any fun i => i.isNamed && !i.isCase then
    refuse ("when translating, the only character classes that may appear in\n" ++
      "string2 are 'upper' and 'lower'")
  let placed (items : List CharItem) (fill : Nat) : List (Nat × CharItem) :=
    (items.foldl (fun (n, out) i => (n + (i.chars fill).length, (n, i) :: out))
      (0, ([] : List (Nat × CharItem)))).2.reverse
  let starts := placed first 0
  let cases := (placed second (source.length - known)).filter (·.2.isCase)
  if cases.any fun (n, _) => !(starts.any fun (m, i) => m = n && i.isCase) then
    refuse "misaligned [:upper:] and/or [:lower:] construct"
  if complement && first.any (·.isNamed) && 1 < target.eraseDups.length && !truncates then
    refuse ("when translating with complemented character classes,\n" ++
      "string2 must map all characters in the domain to one")
  let source := if truncates then source.take target.length else source
  match target.getLast? with
  | none =>
    if truncates then return []
    else refuse "when not truncating set1, string2 must be non-empty"
  | some last =>
    return source.zipIdx.map fun (c, i) => (c, (target[i]?).getD last)

def tr : Work Nat := do
  let o ← (Known.of "cCdst" "complement/c delete/d squeeze-repeats/s truncate-set1/t" true).read
  let complement := o.has 'c' || o.has 'C'
  let deletes := o.has 'd'
  let squeezes := o.has 's'
  let translates := !deletes && !(squeezes && o.operands.length = 1)
  let least := if deletes == squeezes then 2 else 1
  let most := if deletes && !squeezes then 1 else 2
  match o.operands with
  | [] => misuse "missing operand"
  | [a] =>
    if least = 2 then
      complain ("missing operand after " ++ Quotation.word a)
      tell (if squeezes then
        "Two strings must be given when both deleting and squeezing repeats.\n"
        else "Two strings must be given when translating.\n")
      pointToHelp
  | ops =>
    match ops.drop most with
    | extra :: _ =>
      complain ("extra operand " ++ Quotation.word extra)
      if ops.length = 2 then
        tell "Only one string may be given when deleting without squeezing repeats.\n"
      pointToHelp
    | [] => pure ()
  let read (i : Nat) : Work (List CharItem) :=
    let cs := ((o.operands[i]?).getD "").toList
    CharItem.readAll (cs.length + 1) cs
  let first ← read 0
  let second ← read 1
  if first.any (·.isOpen) || first.any fun i => match i with
      | .many .. => true
      | _ => false then
    refuse "the [c*] repeat construct may not appear in string1"
  if 1 < (second.filter (·.isOpen)).length then
    refuse "only one [c*] repeat construct may appear in string2"
  if !translates && second.any (·.isOpen) then
    refuse "the [c*] construct may appear in string2 only when translating"
  let inFirst (c : Char) : Bool := ((first.flatMap (·.chars 0)).contains c) != complement
  let table (f : Char → Bool) : Char → Bool :=
    let bits := (CharItem.allChars.map f).toArray
    fun c => bits.getD c.toNat false
  let t : Translation ←
    if deletes then
      let inSecond (c : Char) : Bool := squeezes && (second.flatMap (·.chars 0)).contains c
      pure { deleted := table inFirst, squeezed := table inSecond }
    else if !translates then pure { squeezed := table inFirst }
    else do
      let known ← pairs complement (o.has 't') first second
      let targets := (known.map (·.2)).eraseDups
      let map := (CharItem.allChars.map fun c =>
        ((known.reverse.find? (·.1 = c)).map (·.2)).getD c).toArray
      let inSecond (c : Char) : Bool :=
        if o.has 't' || !complement then (second.flatMap (·.chars 1)).contains c
        else targets.contains c
      pure { replaced := fun c => map.getD c.toNat c
             squeezed := if squeezes then table inSecond else fun _ => false }
  let rec blocks (last : Option Char) : Nat → Work (Option FileError)
    | 0 => hang
    | turns + 1 => do
      match ← Run.read 0 Run.blockSize with
      | .error e => return some e
      | .ok [] => return none
      | .ok bytes =>
        let (cs, last) := t.apply last (Text.octets bytes).toList
        putChars cs
        blocks last turns
  match ← blocks none maxTurns with
  | some e => refuse ("read error: " ++ words e)
  | none => return 0

def characters : List Program := [{ name := "tr", main := tr }]

end CompiledModels.Tool
