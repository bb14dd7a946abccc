import CompiledModels.Text.CharSet

namespace CompiledModels.Shell

abbrev QuotedChar := Char × Bool

namespace Pattern

open CharSet (ofClass)

/-- Splits off the name of a class, as in `[:alpha:]`, behind its first bracket; `mark` is the
character at both of its ends. -/
def className? (mark : Char) (cs : List QuotedChar) : Option (String × List QuotedChar) :=
  match cs with
  | (c, false) :: rest =>
    if c != mark then none
    else
      let name := rest.takeWhile fun d => d.1 != mark
      match rest.drop name.length with
      | _ :: (']', _) :: rest => some (String.ofList (name.map (·.1)), rest)
      | _ => none
  | _ => none

def members : Nat → Bool → List QuotedChar → Option (List (Char × Char) × List QuotedChar)
  | 0, _, _ => none
  | fuel + 1, first, cs =>
    let more (rs : List (Char × Char)) (rest : List QuotedChar) :=
      (members fuel false rest).map fun (qs, t) => (rs ++ qs, t)
    match cs with
    | [] => none
    | (a, quoted) :: rest =>
      if a == ']' && !quoted && !first then some ([], rest)
      else
        let named :=
          if a == '[' && !quoted then
            ((className? ':' rest).map fun (n, t) => (ofClass n, t)).or
              (((className? '.' rest).or (className? '=' rest)).map fun (n, t) =>
                (n.toList.map fun c => (c, c), t))
          else none
        match named, rest with
        | some (rs, rest), _ => more rs rest
        | none, ('-', false) :: (b, q) :: rest' =>
          if b == ']' && !q then more [(a, a)] rest else more [(a, b)] rest'
        | none, _ => more [(a, a)] rest

def readSet? (cs : List QuotedChar) : Option (CharSet × List QuotedChar) :=
  match cs with
  | (c, false) :: rest =>
    if c == '^' || c == '!' then
      (members (cs.length + 1) true rest).map fun (rs, t) => (⟨true, rs⟩, t)
    else (members (cs.length + 1) true cs).map fun (rs, t) => (⟨false, rs⟩, t)
  | _ => (members (cs.length + 1) true cs).map fun (rs, t) => (⟨false, rs⟩, t)

end Pattern

/-- Whether a pattern for words matches all of `s`: `?` any character, `*` any characters, and
sets. Quoted characters stand for themselves. -/
def matchesWord : Nat → List QuotedChar → List Char → Bool
  | 0, _, _ => false
  | _ + 1, [], s => s.isEmpty
  | fuel + 1, (c, quoted) :: p, s =>
    let literal : Bool := match s with
      | d :: s => c == d && matchesWord fuel p s
      | [] => false
    if quoted then literal
    else if c == '*' then
      matchesWord fuel p s || (match s with
        | _ :: s => matchesWord fuel ((c, quoted) :: p) s
        | [] => false)
    else if c == '?' then
      match s with
      | _ :: s => matchesWord fuel p s
      | [] => false
    else if c == '[' then
      match Pattern.readSet? p, s with
      | some (set, rest), d :: s => set.contains d && matchesWord fuel rest s
      | some _, [] => false
      | none, _ => literal
    else literal

def wordMatches (p : List QuotedChar) (s : List Char) : Bool :=
  matchesWord (p.length * (s.length + 2) + s.length + 2) p s

def patternOf : List Char → List QuotedChar
  | '\\' :: c :: cs => (c, true) :: patternOf cs
  | c :: cs => (c, false) :: patternOf cs
  | [] => []

end CompiledModels.Shell
