import CompiledModels.Regex.Match

namespace CompiledModels.Regex

structure Dialect where
  extended : Bool
  lenient : Bool

/-- A reader knows what it has not read, how many groups were opened, which are closed, how many
are open, and which signs it has left out. -/
structure Reading where
  rest : List Char
  opened : Nat := 0
  closed : List Nat := []
  depth : Nat := 0
  omitted : List String := []

abbrev Read := StateT Reading (Except String)

namespace Read

def startsWith (s : String) : Read Bool := return s.toList.isPrefixOf (← get).rest

def skip (count : Nat) : Read Unit := modify fun r => { r with rest := r.rest.drop count }

def accept (s : String) : Read Bool := do
  if ← startsWith s then
    skip s.length
    return true
  else return false

def rest : Read (List Char) := return (← get).rest

variable (d : Dialect)

def sign (c : Char) : String := if d.extended then c.toString else "\\" ++ c.toString

def maxTurns : Nat := 32767

def boundsText (cs : List Char) : Option (List Char × List Char) :=
  let stop := (sign d '\x7d').toList
  let rec go : List Char → List Char → Option (List Char × List Char)
    | _, [] => none
    | before, c :: cs =>
      if stop.isPrefixOf (c :: cs) then some (before.reverse, (c :: cs).drop stop.length)
      else go (c :: before) cs
  go [] cs

def bounds? (cs : List Char) : Option (Nat × Option Nat) :=
  let first := cs.takeWhile Char.isDigit
  let number (cs : List Char) : Option Nat := (String.ofList cs).toNat?
  match cs.drop first.length with
  | [] => (number first).map fun n => (n, some n)
  | ',' :: second =>
    if !second.all Char.isDigit then none
    else some ((number first).getD 0, if second.isEmpty then none else number second)
  | _ => none

def bounds : Read (Option (Nat × Option Nat)) := do
  let cs ← rest
  match boundsText d cs with
  | none => if d.extended && d.lenient then return none else throw "Unmatched \\\x7b"
  | some (text, after) =>
    match bounds? text with
    | none =>
      if d.extended && d.lenient then return none else throw "Invalid content of \\\x7b\\\x7d"
    | some (least, most) =>
      if most.any (· < least) then throw "Invalid content of \\\x7b\\\x7d"
      if maxTurns < least || most.any (maxTurns < ·) then throw "Regular expression too big"
      modify fun r => { r with rest := after }
      return some (least, most)

def unclosedSet : String := "Unmatched [, [^, [:, [., or [="

def nameBefore (mark : Char) (cs : List Char) : Option (List Char × List Char) :=
  let rec go : List Char → List Char → Option (List Char × List Char)
    | before, a :: b :: cs =>
      if a == mark && b == ']' then some (before.reverse, cs) else go (a :: before) (b :: cs)
    | _, _ => none
  go [] cs

inductive Member
  | one (c : Char)
  | many (ranges : List (Char × Char))

def member : List Char → Except String (Member × List Char)
  | '[' :: m :: rest =>
    if m == ':' then
      match nameBefore ':' rest with
      | none => throw unclosedSet
      | some (name, rest) =>
        match CharSet.class? (String.ofList name) with
        | some ranges => return (.many ranges, rest)
        | none => throw "Invalid character class name"
    else if m == '.' || m == '=' then
      match nameBefore m rest with
      | some ([c], rest) => return (.one c, rest)
      | some _ => throw "Invalid collation character"
      | none => throw unclosedSet
    else return (.one '[', m :: rest)
  | c :: rest => return (.one c, rest)
  | [] => throw unclosedSet

def members : Nat → Bool → List Char → Except String (List (Char × Char) × List Char)
  | 0, _, _ => throw unclosedSet
  | fuel + 1, first, cs => do
    match cs with
    | [] => throw unclosedSet
    | ']' :: rest => if first then more fuel [(']', ']')] rest else return ([], rest)
    | _ =>
      match ← member cs with
      | (.many ranges, rest) => more fuel ranges rest
      | (.one a, '-' :: ']' :: rest) => more fuel [(a, a)] ('-' :: ']' :: rest)
      | (.one a, '-' :: rest) =>
        match ← member rest with
        | (.one b, rest) =>
          if b < a then throw "Invalid range end" else more fuel [(a, b)] rest
        | (.many _, _) => throw "Invalid range end"
      | (.one a, rest) => more fuel [(a, a)] rest
where
  more (fuel : Nat) (ranges : List (Char × Char)) (rest : List Char) :
      Except String (List (Char × Char) × List Char) := do
    let (others, rest) ← members fuel false rest
    return (ranges ++ others, rest)

def charSet : Read CharSet := do
  let negated ← accept "^"
  let cs ← rest
  match members (cs.length + 1) true cs with
  | .error e => throw e
  | .ok (ranges, rest) =>
    modify fun r => { r with rest }
    return ⟨negated, ranges⟩

def wordRanges : List (Char × Char) := ('_', '_') :: CharSet.ofClass "alnum"

def escaped (c : Char) : Read Regex := do
  match c with
  | 'w' => return set ⟨false, wordRanges⟩
  | 'W' => return set ⟨true, wordRanges⟩
  | 's' => return set ⟨false, CharSet.ofClass "space"⟩
  | 'S' => return set ⟨true, CharSet.ofClass "space"⟩
  | '<' => return edge .wordStart
  | '>' => return edge .wordEnd
  | 'b' => return edge .word
  | 'B' => return edge .noWord
  | '\x60' => return edge .textStart
  | '\'' => return edge .textEnd
  | c =>
    if '1' ≤ c ∧ c ≤ '9' then
      let n := c.toNat - 0x30
      if (← get).closed.contains n then return again n else throw "Invalid back reference"
    else return char c

inductive Repetition
  | bounds (least : Nat) (most : Option Nat)
  | plain

def repetitionSign? : Read (Option Char) := do
  if ← startsWith "*" then return some '*'
  else if ← startsWith (sign d '+') then return some '+'
  else if ← startsWith (sign d '?') then return some '?'
  else if ← startsWith (sign d '\x7b') then return some '\x7b'
  else return none

def repetition (c : Char) : Read Repetition := do
  let before ← get
  match c with
  | '*' =>
    skip 1
    return .bounds 0 none
  | '+' =>
    skip (sign d '+').length
    return .bounds 1 none
  | '?' =>
    skip (sign d '?').length
    return .bounds 0 (some 1)
  | _ =>
    skip (sign d '\x7b').length
    match ← bounds d with
    | some (least, most) => return .bounds least most
    | none =>
      modify fun _ => before
      return .plain

def invalidRepetition : String := "Invalid preceding regular expression"

def repeated (r : Regex) : Nat → Read Regex
  | 0 => return r
  | fuel + 1 => do
    match ← repetitionSign? d with
    | none => return r
    | some c =>
      match ← repetition d c with
      | .plain => return r
      | .bounds least most =>
        if !d.extended && !d.lenient &&
            ((← startsWith "*") || (← startsWith (sign d '\x7b'))) then
          throw invalidRepetition
        repeated (times r least most) fuel

def stray (c : Char) : Read Regex := do
  if d.extended then
    if !d.lenient then throw invalidRepetition
    match ← repetition d c with
    | .plain =>
      skip 1
      return char c
    | .bounds .. =>
      let shown := if c == '\x7b' then "\x7b...\x7d" else c.toString
      modify fun r => { r with omitted := r.omitted ++ [shown] }
      return empty
  else if c == '\x7b' && !d.lenient then throw invalidRepetition
  else
    skip (if c == '*' then 1 else 2)
    return char c

def lineEdge (first : Bool) : Read (Option Edge) := do
  match ← rest with
  | '^' :: _ =>
    if d.extended || first then
      skip 1
      return some .lineStart
    else return none
  | '$' :: after =>
    let ends := after.isEmpty || (sign d ')').toList.isPrefixOf after ||
      (sign d '|').toList.isPrefixOf after
    if d.extended || ends then
      skip 1
      return some .lineEnd
    else return none
  | _ => return none

mutual

def alternatives : Nat → Read Regex
  | 0 => return empty
  | fuel + 1 => do
    let a ← sequence true fuel
    if ← accept (sign d '|') then return either a (← alternatives fuel) else return a

def sequence (first : Bool) : Nat → Read Regex
  | 0 => return empty
  | fuel + 1 => do
    if (← rest).isEmpty || (← startsWith (sign d '|')) then return empty
    if ← startsWith (sign d ')') then
      if (← get).depth != 0 || !(d.extended && d.lenient) then return empty
    let starts ← if first then repetitionSign? d else pure none
    match starts with
    | some c =>
      let a ← stray d c
      let a ← if d.extended then pure a else repeated d a fuel
      return seq a (← sequence d.extended fuel)
    | none =>
      let anchor ← lineEdge d first
      match anchor with
      | some e => return seq (edge e) (← sequence (first && e = .lineStart) fuel)
      | none =>
        let a ← atom fuel
        return seq (← repeated d a fuel) (← sequence false fuel)

def atom : Nat → Read Regex
  | 0 => return empty
  | fuel + 1 => do
    if ← accept (sign d '(') then
      let n := (← get).opened + 1
      modify fun r => { r with opened := n, depth := r.depth + 1 }
      let a ← alternatives fuel
      if !(← accept (sign d ')')) then throw "Unmatched ( or \\("
      modify fun r => { r with closed := n :: r.closed, depth := r.depth - 1 }
      return group n a
    else match ← rest with
      | ['\\'] => throw "Trailing backslash"
      | '\\' :: c :: _ =>
        skip 2
        escaped c
      | '[' :: _ =>
        skip 1
        return set (← charSet)
      | '.' :: _ =>
        skip 1
        return any
      | c :: _ =>
        skip 1
        return char c
      | [] => return empty

end

end Read

def read (d : Dialect) (cs : List Char) : Except String (Regex × List String) := do
  match cs with
  | '[' :: ':' :: rest =>
    if rest.getLast? == some ']' && rest.dropLast.getLast? == some ':' &&
        !(rest.dropLast.dropLast).contains ']' then
      throw "character class syntax is [[:space:]], not [:space:]"
  | _ => pure ()
  let (r, reading) ← (Read.alternatives d (8 * cs.length + 8)).run { rest := cs }
  if reading.rest.isEmpty then return (r, reading.omitted)
  else throw "Unmatched ) or \\)"

end CompiledModels.Regex
