import CompiledModels.Kernel.Routine
import CompiledModels.Module.Library

namespace CompiledModels.Kernel

open LibraryFile (magic headerSize)

def programFile (name : String) : Bytes :=
  magic ++ List.replicate (headerSize - magic.length) 0 ++ Text.encode name

inductive Header
  | program (name : String)
  | interpreter (file : String) (argument : Option String)
  | none

namespace Header

def length : Nat := 256

def isBlank (c : Char) : Bool := c == ' ' || c == '\t'

def ofLine (ended : Bool) (cs : List Char) : Header :=
  let cs := cs.dropWhile isBlank
  let file := cs.takeWhile (!isBlank ·)
  let argument := (cs.drop file.length).dropWhile isBlank
  let argument := (argument.reverse.dropWhile isBlank).reverse
  if file.isEmpty || (!ended && file.length = cs.length) then none
  else interpreter (String.ofList file)
    (if argument.isEmpty then Option.none else some (String.ofList argument))

def ofBytes (bytes : Bytes) : Header :=
  if bytes.take magic.length = magic then
    program (Text.decodeLossy (bytes.drop headerSize))
  else match bytes with
    | 35 :: 33 :: rest =>
      let front := rest.take (length - 2)
      let line := front.takeWhile (· != 10)
      let line := line.takeWhile (· != 0)
      ofLine (line.length < front.length || rest.length < length - 2) (Text.octets line).toList
    | _ => none

end Header

def maxInterpreters : Nat := 5

variable (k : Kernel) (process : Nat)

def programBytes (file : String) : Except FileError Bytes := do
  let l ← k.resolve process true file
  match k.files.get? l with
  | some (.file _ c true) => return c.bytes
  | some _ => throw (.os .accessDenied)
  | none => throw (.os .noEntry)

def image (name : String) (arguments : List String) (bindings : List (String × String)) :
    Nat → String → Except FileError Image
  | 0, _ => .error (.os .tooManyLinks)
  | depth + 1, file => do
    match Header.ofBytes (← k.programBytes process file) with
    | .program program => return ⟨program, name, arguments, bindings⟩
    | .interpreter f argument =>
      image f (argument.toList ++ file :: arguments) bindings depth f
    | .none => throw (.os .notExecutable)

def shellFile : String := "/bin/sh"

def imageOf (file name : String) (arguments : List String) (bindings : List (String × String)) :
    Except FileError Image :=
  match k.image process name arguments bindings maxInterpreters file with
  | .error e =>
    if e = .os .notExecutable then
      k.image process shellFile (file :: arguments) bindings maxInterpreters shellFile
    else .error e
  | r => r

def candidates (searchPath name : String) : List String :=
  if name.contains '/' then [name]
  else (Text.splitAll (· == ':') searchPath.toList).map fun d =>
    if d.isEmpty then name else String.ofList d ++ "/" ++ name

def firstImage (run : String → Except FileError Image) (worst : FileError) :
    List String → Except FileError Image
  | [] => .error worst
  | p :: rest =>
    match run p with
    | .ok i => .ok i
    | .error e =>
      if e = .os .noEntry || e = .os .notDirectory then firstImage run worst rest
      else if e = .os .accessDenied then firstImage run e rest
      else .error e

def defaultSearchPath : String := "/bin:/usr/bin"

def findWith (run : String → Except FileError Image) (bindings : List (String × String))
    (name : String) : Except FileError Image :=
  let searchPath := ((bindings.find? (·.1 = "PATH")).map (·.2)).getD defaultSearchPath
  if name.isEmpty then .error (.os .noEntry)
  else firstImage run (.os .noEntry) (candidates searchPath name)

def find (name : String) (arguments : List String) (bindings : List (String × String)) :
    Except FileError Image :=
  findWith (fun p => k.imageOf process p name arguments bindings) bindings name

def findProper (name : String) (arguments : List String) (bindings : List (String × String)) :
    Except FileError Image :=
  findWith (k.image process name arguments bindings maxInterpreters) bindings name

end CompiledModels.Kernel
