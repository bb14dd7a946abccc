import CompiledModels.Files.Operations
import CompiledModels.Json.Typed
import CompiledModels.Module.Services

/-!
Libraries: modules that are called through entry points with the conventions of C. A call has a
status, may leave an error text, and hands out buffers that are to be released. Here the calls
are made, their outcomes are checked, and every buffer that was taken is released. The files of
libraries are what the dynamic loader makes of them.
-/

namespace CompiledModels

inductive EntryPoint
  | abiVersion
  | free
  | parameterCount
  | parameterNames
  | writeArray
  | unconstrainArray
  | logDensity
  | gradient
  deriving DecidableEq

namespace EntryPoint

def all : List EntryPoint :=
  [.abiVersion, .free, .parameterCount, .parameterNames, .writeArray, .unconstrainArray,
    .logDensity, .gradient]

def name : EntryPoint → String
  | .abiVersion => "abi_version"
  | .free => "free"
  | .parameterCount => "n_pars"
  | .parameterNames => "param_names"
  | .writeArray => "write_array"
  | .unconstrainArray => "unconstrain_array"
  | .logDensity => "log_prob"
  | .gradient => "log_prob_grad"

def symbol (e : EntryPoint) : String := "stanbind_" ++ e.name

def ofName? (s : String) : Option EntryPoint := all.find? (·.name = s)

end EntryPoint

inductive LibraryCall
  | parameterCount (data : String)
  | parameterNames (data : String) (kind : NameKind)
  | writeArray (data : String) (values : List Binary64) (transformed generated : Bool)
  | unconstrainArray (data : String) (values : List Binary64)
  | logDensity (data : String) (values : List Binary64) (jacobian : Bool)
  | gradient (data : String) (values : List Binary64) (jacobian : Bool)
  | free

namespace LibraryCall

def flagText (b : Bool) : String := if b then "1" else "0"

def valuesText (values : List Binary64) : String :=
  let bits := values.map fun x => String.ofList (Text.hexDigits 16 x.bits.toNat)
  " pars=" ++ Text.joinWith "," bits ++ " n=" ++ toString values.length

def text : LibraryCall → String
  | .parameterCount data => "n_pars data=" ++ data
  | .parameterNames data kind => "param_names data=" ++ data ++ " a=" ++ toString kind.code
  | .writeArray data values transformed generated =>
    "write_array data=" ++ data ++ valuesText values ++ " a=" ++ flagText transformed ++
      " b=" ++ flagText generated
  | .unconstrainArray data values => "unconstrain_array data=" ++ data ++ valuesText values
  | .logDensity data values jacobian =>
    "log_prob data=" ++ data ++ valuesText values ++ " a=" ++ flagText jacobian
  | .gradient data values jacobian =>
    "log_prob_grad data=" ++ data ++ valuesText values ++ " a=" ++ flagText jacobian
  | .free => "free"

end LibraryCall

structure Outcome (α : Type) where
  status : Int
  error : Option Bytes
  output : α

structure Buffer where
  values : List Binary64
  length : Nat

structure Library where
  has : EntryPoint → Bool
  abi : Nat
  parameterCount : String → Outcome Nat
  parameterNames : String → NameKind → Outcome (Option Bytes)
  writeArray : String → List Binary64 → Bool → Bool → Outcome (Option Buffer)
  unconstrainArray : String → List Binary64 → Outcome (Option Buffer)
  logDensity : String → List Binary64 → Bool → Outcome Binary64
  gradient : String → List Binary64 → Bool → Outcome (Option Buffer)

namespace Library

def stringText (bytes : Bytes) : String :=
  Text.decodeLossy (bytes.takeWhile (· ≠ 0))

abbrev Traced (α : Type) := Except ModuleError α × List LibraryCall

def checked {α β : Type} (o : Outcome α) (take : α → Traced β) : Traced β :=
  if o.status = 0 then take o.output
  else match o.error with
    | none => (.error (.raised ("module returned status " ++ toString o.status)), [])
    | some bytes => (.error (.raised (stringText bytes)), [.free])

def takeValues : Option Buffer → Traced (List Binary64)
  | none => (.error (.invalidOutput "module returned a null buffer"), [])
  | some b => (.ok (b.values.take b.length), [.free])

def takeNames : Option Bytes → Traced (List String)
  | none => (.error (.invalidOutput "module returned a null string"), [])
  | some bytes =>
    let text := stringText bytes
    match Json.readStrings text with
    | .ok names => (.ok names, [.free])
    | .error f => (.error (.invalidOutput ("parameter names: " ++ f.message text)), [.free])

def request (l : Library) (data : String) : (r : Request) → LibraryCall × Traced r.Answer
  | .parameterCount =>
    (.parameterCount data, checked (l.parameterCount data) fun n => (.ok n, []))
  | .parameterNames kind =>
    (.parameterNames data kind, checked (l.parameterNames data kind) takeNames)
  | .constrain values transformed generated =>
    (.writeArray data values transformed generated,
      checked (l.writeArray data values transformed generated) takeValues)
  | .unconstrain values =>
    (.unconstrainArray data values, checked (l.unconstrainArray data values) takeValues)
  | .logDensity values jacobian =>
    (.logDensity data values jacobian,
      checked (l.logDensity data values jacobian) fun x => (.ok x, []))
  | .gradient values jacobian =>
    (.gradient data values jacobian, checked (l.gradient data values jacobian) takeValues)

def answer (l : Library) (data : ModelData) (r : Request) :
    Except ModuleError r.Answer × List String :=
  let text := data.text
  if text.any (· == '\x00') then (.error (.invalidArgument "data contains a NUL byte"), [])
  else
    let (call, result, later) := l.request text r
    (result, (call :: later).map LibraryCall.text)

def services (l : Library) : Services := ⟨false, l.answer⟩

def missing? (l : Library) (entries : List EntryPoint) : Option EntryPoint :=
  entries.find? (!l.has ·)

/-- Looks up the entry points of the library that was opened at `path`. The version of the
interface is compared as soon as it can be asked for. -/
def resolve (l : Library) (path : Path) : Except ModuleError Services :=
  let failed (e : EntryPoint) : ModuleError :=
    .symbolNotFound (path.text ++ ": undefined symbol: " ++ e.symbol)
  if !l.has .abiVersion then .error (failed .abiVersion)
  else if l.abi ≠ abiVersion then .error (.incompatibleAbi abiVersion l.abi)
  else match l.missing? EntryPoint.all with
    | some e => .error (failed e)
    | none => .ok l.services

end Library

namespace LibraryFile

def magic : Bytes := [0x7f, 0x45, 0x4c, 0x46]

def headerSize : Nat := 64

/-- The file of a library with the given entry points: a header and the names of the symbols, a
line for each. -/
def content (entries : List EntryPoint) : Bytes :=
  magic ++ List.replicate (headerSize - magic.length) 0 ++
    Text.encode (String.join (entries.map fun e => e.symbol ++ "\n"))

def entriesOf (bytes : Bytes) : List EntryPoint :=
  let symbols := Text.lines (Text.decodeLossy (bytes.drop headerSize))
  EntryPoint.all.filter fun e => symbols.contains e.symbol

def refusal? (bytes : Bytes) : Option String :=
  if bytes.length < headerSize then some "file too short"
  else if bytes.take magic.length ≠ magic then some "invalid ELF header"
  else none

def «open» (files : Files.Tree) (cwd : Files.Location) (path : Path) :
    Except ModuleError (List EntryPoint) :=
  let failed {α : Type} (why : String) : Except ModuleError α :=
    .error (.libraryLoad (path.text ++ ": " ++ why))
  match files.stat cwd true path with
  | .error (.os e) => failed ("cannot open shared object file: " ++ e.words)
  | .error e => failed ("cannot open shared object file: " ++ e.text)
  | .ok (.file _ c _) =>
    match refusal? c.bytes with
    | some why => failed why
    | none => .ok (entriesOf c.bytes)
  | .ok _ => failed "cannot read file data: Is a directory"

end LibraryFile

end CompiledModels
