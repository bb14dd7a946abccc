import CompiledModels.Shell.Token

namespace CompiledModels.Shell

namespace Parse

def operatorOf (s : String) : Option Operator :=
  match s with
  | ":-" => some (.default true)
  | "-" => some (.default false)
  | ":=" => some (.assign true)
  | "=" => some (.assign false)
  | ":+" => some (.alternative true)
  | "+" => some (.alternative false)
  | ":?" => some (.require true)
  | "?" => some (.require false)
  | "%%" => some (.dropSuffix true)
  | "%" => some (.dropSuffix false)
  | "##" => some (.dropStart true)
  | "#" => some (.dropStart false)
  | _ => none

def operatorSigns : List String :=
  [":-", ":=", ":+", ":?", "%%", "##", "-", "=", "+", "?", "%", "#"]

def parameterName : Parse String := do
  match ← look with
  | some c =>
    if isNameStart c then takeWhile isNameRest
    else if c.isDigit then takeWhile Char.isDigit
    else if "@*#?$!-".toList.contains c then
      skip 1
      return c.toString
    else return ""
  | none => return ""

def acceptOperator : List String → Parse (Option Operator)
  | [] => return none
  | s :: rest => do if ← accept s then return operatorOf s else acceptOperator rest

def hereLines (stop : String) (strip : Bool) : Nat → Parse String
  | 0 => return ""
  | fuel + 1 => do
    let line ← takeWhile (· != '\n')
    let atEnd := (← get).rest.isEmpty
    let _ ← accept "\n"
    let line := if strip then String.ofList (line.toList.dropWhile (· == '\t')) else line
    if line == stop then return ""
    else if atEnd then return line
    else return line ++ "\n" ++ (← hereLines stop strip fuel)

mutual

def dollar (quoted : Bool) : Nat → Parse Part
  | 0 => refuse
  | fuel + 1 => do
    if ← accept "\x7b" then
      if (← startsWith "#") && !(← startsWith "#\x7d") then
        skip 1
        let name ← parameterName
        closeBrace
        return .parameter name .length [] quoted
      else
        let name ← parameterName
        let inside (c : Char) : Bool := c == '\x7d' || (c == '\n' && !quoted)
        match ← acceptOperator operatorSigns with
        | none =>
          let others ← takeWhile (!inside ·)
          closeBrace
          let op : Operator := if name.isEmpty || !others.isEmpty then .unknown else .plain
          return .parameter name op [] quoted
        | some op =>
          let word ← parts inside (quoted && !op.takesPattern) fuel
          closeBrace
          return .parameter name op word quoted
    else if ← accept "((" then return .arithmetic (← arithmetic 0 fuel) quoted
    else if ← accept "(" then
      let body ← list true fuel
      expect ")" true
      return .substitution body quoted
    else
      match ← look with
      | some c =>
        if isNameStart c then return .parameter (← takeWhile isNameRest) .plain [] quoted
        else if c.isDigit || "@*#?$!-".toList.contains c then
          skip 1
          return .parameter c.toString .plain [] quoted
        else return .text "$" quoted
      | none => return .text "$" quoted

def arithmetic (depth : Nat) : Nat → Parse (List Part)
  | 0 => refuse
  | fuel + 1 => do
    let plain (c : Char) : Bool := !"()$\x60\"".toList.contains c
    match ← look with
    | none => fail "Missing '))'"
    | some '(' =>
      skip 1
      return .text "(" true :: (← arithmetic (depth + 1) fuel)
    | some ')' =>
      if depth = 0 then
        if ← accept "))" then return [] else fail "Missing '))'"
      else
        skip 1
        return .text ")" true :: (← arithmetic (depth - 1) fuel)
    | some '$' =>
      skip 1
      let p ← dollar true fuel
      return p :: (← arithmetic depth fuel)
    | some '\x60' =>
      skip 1
      let p ← backquoted true fuel
      return p :: (← arithmetic depth fuel)
    | some '"' =>
      skip 1
      arithmetic depth fuel
    | some _ =>
      let s ← takeWhile plain
      return .text s true :: (← arithmetic depth fuel)

/-- The parts between double quotes, or those of a text that is given in place, where double quotes
are characters like others. -/
def doubleQuoted (inPlace : Bool) : Nat → Parse (List Part)
  | 0 => refuse
  | fuel + 1 => do
    match ← look with
    | none => if inPlace then return [] else unterminated
    | some '$' =>
      skip 1
      let p ← dollar true fuel
      return p :: (← doubleQuoted inPlace fuel)
    | some '\x60' =>
      skip 1
      let p ← backquoted true fuel
      return p :: (← doubleQuoted inPlace fuel)
    | some '\\' =>
      skip 1
      match ← look with
      | some '\n' =>
        skip 1
        doubleQuoted inPlace fuel
      | some c =>
        skip 1
        let escaped := "$\x60\\".toList.contains c || (c == '"' && !inPlace)
        let s := if escaped then c.toString else "\\" ++ c.toString
        return .text s true :: (← doubleQuoted inPlace fuel)
      | none => if inPlace then return [.text "\\" true] else unterminated
    | some c =>
      if c == '"' && !inPlace then
        skip 1
        return [.text "" true]
      else
        let s ← takeWhile fun c => !"$\x60\\".toList.contains c && (c != '"' || inPlace)
        return .text s true :: (← doubleQuoted inPlace fuel)

def backquoted (quoted : Bool) : Nat → Parse Part
  | 0 => refuse
  | fuel + 1 => do
    let start := (← get).line
    let body ← backquotedText quoted fuel
    match (list true fuel).run { rest := body, line := start } with
    | .ok (c, _) => return .substitution c quoted
    | .error e => throw e

def backquotedText (quoted : Bool) : Nat → Parse (List Char)
  | 0 => refuse
  | fuel + 1 => do
    match (← get).rest with
    | [] => fail "EOF in backquote substitution"
    | '\x60' :: _ =>
      skip 1
      return []
    | '\\' :: c :: _ =>
      skip 2
      let kept := "\x60\\$".toList.contains c || (quoted && c == '"')
      return (if kept then [c] else ['\\', c]) ++ (← backquotedText quoted fuel)
    | c :: _ =>
      skip 1
      return c :: (← backquotedText quoted fuel)

def parts (ends : Char → Bool) (quoted : Bool) : Nat → Parse (List Part)
  | 0 => refuse
  | fuel + 1 => do
    match ← look with
    | none => return []
    | some c =>
      if ends c then return []
      else if c == '\'' && !quoted then
        skip 1
        let p ← singleQuoted
        return p :: (← parts ends quoted fuel)
      else if c == '"' then
        skip 1
        let ps ← doubleQuoted false fuel
        let ps := match ps with
          | [.parameter "@" .plain [] true, .text "" true] => ps.take 1
          | _ => ps
        return ps ++ (← parts ends quoted fuel)
      else if c == '$' then
        skip 1
        let p ← dollar quoted fuel
        return p :: (← parts ends quoted fuel)
      else if c == '\x60' then
        skip 1
        let p ← backquoted quoted fuel
        return p :: (← parts ends quoted fuel)
      else if c == '\\' then
        skip 1
        match ← look with
        | none => return [.text "\\" true]
        | some '\n' =>
          skip 1
          parts ends quoted fuel
        | some d =>
          skip 1
          return .text d.toString true :: (← parts ends quoted fuel)
      else
        let s ← takeWhile fun d => !ends d && !"'\"$\x60\\".toList.contains d
        if s.isEmpty then
          skip 1
          return .text c.toString quoted :: (← parts ends quoted fuel)
        else return .text s quoted :: (← parts ends quoted fuel)

def redirection : Nat → Parse (Option Redirection)
  | 0 => refuse
  | fuel + 1 => do
    let c ← get
    let digits := c.rest.takeWhile Char.isDigit
    let sign := c.rest.drop digits.length
    if !(sign.head? == some '<' || sign.head? == some '>') then return none
    else
      skip digits.length
      let number (unset : Nat) : Nat :=
        if digits.isEmpty then unset
        else digits.foldl (fun n c => n * 10 + (c.toNat - 0x30)) 0
      let target (unset : Nat) (mode : RedirectMode) : Parse (Option Redirection) := do
        skipBlanks fuel
        let word ← parts isMeta false fuel
        if word.isEmpty then refuse else return some (.named (number unset) mode word)
      if ← startsWith "<<<" then fail "redirection unexpected"
      else if ← accept "<<" then
        let strip ← accept "-"
        skipBlanks fuel
        let word ← parts isMeta false fuel
        let stop := String.join (word.map fun
          | .text s _ => s
          | _ => "")
        let literal := word.any fun
          | .text _ quoted => quoted
          | _ => false
        let saved ← get
        let _ ← takeWhile (· != '\n')
        let tail := saved.rest.take (saved.rest.length - (← get).rest.length)
        let _ ← accept "\n"
        let text ← hereLines stop strip fuel
        modify fun c => { c with rest := tail ++ '\n' :: c.rest, line := c.line - 1 }
        if literal then return some (.here (number 0) [.text text true])
        else
          match (doubleQuoted true fuel).run { rest := text.toList, line := saved.line } with
          | .ok (ps, _) => return some (.here (number 0) ps)
          | .error e => throw e
      else if ← accept "<&" then target 0 .duplicate
      else if ← accept "<>" then target 0 .both
      else if ← accept "<" then target 0 .read
      else if ← accept ">>" then target 1 .append
      else if ← accept ">&" then target 1 .duplicate
      else if ← accept ">|" then target 1 .overwrite
      else
        skip 1
        target 1 .write

def redirections : Nat → Parse (List Redirection)
  | 0 => refuse
  | fuel + 1 => do
    skipBlanks fuel
    match ← redirection fuel with
    | none => return []
    | some r => return r :: (← redirections fuel)

def words : Nat → Parse (List (List Part))
  | 0 => refuse
  | fuel + 1 => do
    skipBlanks fuel
    match ← look with
    | none => return []
    | some c =>
      if isMeta c then return []
      else
        let w ← parts isMeta false fuel
        return w :: (← words fuel)

def simple (line : Nat) (assignments : List (String × List Part)) (ws : List (List Part))
    (rs : List Redirection) : Nat → Parse Command
  | 0 => refuse
  | fuel + 1 => do
    skipBlanks fuel
    let finish : Parse Command :=
      if assignments.isEmpty && ws.isEmpty && rs.isEmpty then refuse
      else return .simple line assignments ws rs
    match ← redirection fuel with
    | some r => simple line assignments ws (rs ++ [r]) fuel
    | none =>
      match ← look with
      | none => finish
      | some c =>
        if c == '(' && ws.length == 1 && assignments.isEmpty && rs.isEmpty then
          skip 1
          skipBlanks fuel
          expect ")" false
          skipLines fuel
          let body ← command fuel
          match ws with
          | [[.text name false]] =>
            if isName name && !specialNames.contains name then return .function name body
            else fail "Bad function name"
          | _ => fail "Bad function name"
        else if isMeta c then finish
        else
          let name := String.ofList ((← get).rest.takeWhile isNameRest)
          let expanded ← if ws.isEmpty then expandAlias else pure false
          if expanded then simple line assignments ws rs fuel
          else if ws.isEmpty && isName name && (← startsWith (name ++ "=")) then
            skip (name.length + 1)
            let value ← parts isMeta false fuel
            simple line (assignments ++ [(name, value)]) ws rs fuel
          else
            let w ← parts isMeta false fuel
            simple line assignments (ws ++ [w]) rs fuel

def branches : Nat → Parse (List (List (List Part) × Command))
  | 0 => refuse
  | fuel + 1 => do
    skipLines fuel
    if ← acceptWord "esac" then return []
    else
      let _ ← accept "("
      let patterns ← alternatives fuel
      expect ")" true
      let body ← list true fuel
      skipLines fuel
      if ← accept ";;" then return (patterns, body) :: (← branches fuel)
      else if ← acceptWord "esac" then return [(patterns, body)]
      else refuseFor ";;" true

def alternatives : Nat → Parse (List (List Part))
  | 0 => refuse
  | fuel + 1 => do
    skipBlanks fuel
    let w ← parts isMeta false fuel
    skipBlanks fuel
    if ← accept "|" then return w :: (← alternatives fuel) else return [w]

def condition : Nat → Parse Command
  | 0 => refuse
  | fuel + 1 => do
    let test ← list false fuel
    expectWord "then"
    let yes ← list false fuel
    if ← acceptWord "elif" then return .branch test yes (← condition fuel)
    else if ← acceptWord "else" then
      let no ← list false fuel
      expectWord "fi"
      return .branch test yes no
    else
      expectWord "fi"
      return .branch test yes (.sequence [])

def command : Nat → Parse Command
  | 0 => refuse
  | fuel + 1 => do
    let line := (← get).line
    let compound (c : Command) : Parse Command := do
      match ← redirections fuel with
      | [] => return c
      | rs => return .redirected line c rs
    let body : Parse Command := do
      skipLines fuel
      expectWord "do"
      let b ← list false fuel
      expectWord "done"
      return b
    if ← accept "(" then
      let c ← list false fuel
      expect ")" true
      compound (.subshell c)
    else if ← acceptWord "\x7b" then
      let c ← list false fuel
      expectWord "\x7d"
      compound c
    else if ← acceptWord "if" then compound (← condition fuel)
    else if ← acceptWord "while" then
      let test ← list false fuel
      compound (.loop true test (← body))
    else if ← acceptWord "until" then
      let test ← list false fuel
      compound (.loop false test (← body))
    else if ← acceptWord "for" then
      skipBlanks fuel
      let name ← takeWhile isNameRest
      if !isName name then fail "Bad for loop variable"
      skipLines fuel
      let ws ← if ← acceptWord "in" then pure (some (← words fuel)) else pure none
      skipBlanks fuel
      let _ ← accept ";"
      compound (.each line name ws (← body))
    else if ← acceptWord "case" then
      skipBlanks fuel
      let w ← parts isMeta false fuel
      skipLines fuel
      expectWord "in"
      compound (.select line w (← branches fuel))
    else if closers.contains (← upcoming) then refuse
    else if ← expandAlias then
      skipBlanks fuel
      command fuel
    else simple line [] [] [] fuel

def pipeline : Nat → Parse Command
  | 0 => refuse
  | fuel + 1 => do
    skipBlanks fuel
    if ← acceptWord "!" then return .negation (← pipeline fuel)
    else
      let c ← command fuel
      skipBlanks fuel
      if (← startsWith "|") && !(← startsWith "||") then
        skip 1
        skipLines fuel
        match ← pipeline fuel with
        | .pipeline cs => return .pipeline (c :: cs)
        | d => return .pipeline [c, d]
      else return c

def conditional (first : Command) : Nat → Parse Command
  | 0 => refuse
  | fuel + 1 => do
    skipBlanks fuel
    if ← accept "&&" then
      skipLines fuel
      conditional (.conjunction first (← pipeline fuel)) fuel
    else if ← accept "||" then
      skipLines fuel
      conditional (.disjunction first (← pipeline fuel)) fuel
    else return first

def commands : Nat → Parse (List Command)
  | 0 => refuse
  | fuel + 1 => do
    skipLines fuel
    match ← look with
    | none => return []
    | some c =>
      if c == ')' || (← startsWith ";;") || closers.contains (← upcoming) then return []
      else
        let c ← conditional (← pipeline fuel) fuel
        skipBlanks fuel
        if ← startsWith ";;" then return [c]
        else if ← accept "&" then return .background c :: (← commands fuel)
        else if ← accept ";" then return c :: (← commands fuel)
        else if ← accept "\n" then return c :: (← commands fuel)
        else return [c]

def list (mayBeEmpty : Bool) : Nat → Parse Command
  | 0 => refuse
  | fuel + 1 => do
    let cs ← commands fuel
    if cs.isEmpty && !mayBeEmpty && (← look).isSome then refuse
    return .sequence cs

end

def line : Nat → Parse (List Command)
  | 0 => refuse
  | fuel + 1 => do
    let c ← conditional (← pipeline fuel) fuel
    skipBlanks fuel
    let following : Parse (List Command) := do
      skipBlanks fuel
      if (← accept "\n") || (← look).isNone then return [] else line fuel
    if ← startsWith ";;" then refuse
    else if ← accept "&" then return .background c :: (← following)
    else if ← accept ";" then return c :: (← following)
    else if (← accept "\n") || (← look).isNone then return [c]
    else refuse

end Parse

namespace Parse

def depthFor (cs : List Char) : Nat := 20 * cs.length + 100

def nextLine (c : Cursor) : Except SyntaxError (Option (List Command × Cursor)) :=
  let fuel := depthFor c.rest
  let next : Parse (Option (List Command)) := do
    skipLines fuel
    if (← look).isNone then return none else return some (← line fuel)
  match next.run c with
  | .error e => .error e
  | .ok (none, _) => .ok none
  | .ok (some cs, c) => .ok (some (cs, c))

end Parse

end CompiledModels.Shell
