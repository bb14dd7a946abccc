import CompiledModels.Text.Blank

namespace CompiledModels.Tool.Quotation

def isVisible (c : Char) : Bool := ' ' ≤ c && c ≤ '~'

def letter? (c : Char) : Option Char :=
  match c with
  | '\x07' => some 'a'
  | '\x08' => some 'b'
  | '\t' => some 't'
  | '\n' => some 'n'
  | '\x0b' => some 'v'
  | '\x0c' => some 'f'
  | '\x0d' => some 'r'
  | _ => none

def octal (c : Char) : String :=
  let digits := Nat.toDigits 8 c.toNat
  String.ofList (List.replicate (3 - digits.length) '0' ++ digits)

def escape (c : Char) : String :=
  match letter? c with
  | some l => "\\" ++ l.toString
  | none => "\\" ++ octal c

def quoted (special : Bool) : List Char → String
  | [] => "'"
  | c :: cs =>
    if c == '\'' then "'\\''" ++ quoted false cs
    else if isVisible c then (if special then "''" else "") ++ c.toString ++ quoted false cs
    else (if special then "" else "'$'") ++ escape c ++ quoted true cs

def isHarmless (c : Char) : Bool := c.isAlphanum || "%+,-./:]_' ".contains c

def always (s : String) : String :=
  if s.contains '\'' && s.toList.all isHarmless then "\"" ++ s ++ "\""
  else "'" ++ quoted false s.toList

def isNeeded (s : String) : Bool :=
  s.isEmpty || s.startsWith "#" || s.startsWith "~" || s == "\x7b" || s == "\x7d" ||
    s.toList.any fun c => !isVisible c || " !\"$&'()*;<=>?[\\^\x60|".contains c

def sparing (s : String) : String := if isNeeded s then always s else s

def subject (s : String) : String := if s.contains ':' then always s else sparing s

def word (s : String) : String :=
  let one (c : Char) : String :=
    if c == '\'' then "\\'"
    else if c == '\\' then "\\\\"
    else if isVisible c then c.toString else escape c
  "'" ++ String.join (s.toList.map one) ++ "'"

end CompiledModels.Tool.Quotation
