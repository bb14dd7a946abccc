import CompiledModels.Digest
import CompiledModels.Error
import CompiledModels.Json.Typed

/-!
What is recorded beside each module, and the text in which it is kept.
-/

namespace CompiledModels

structure Manifest where
  identity : String
  moduleFile : String
  sourceDigest : String
  compiler : String
  created : UInt64
  abi : UInt32
  deriving DecidableEq

def sourceDigest (source : String) : String :=
  Text.hexOfBytes (Sha256.digest (Text.encode source))

namespace Manifest

def ofBuild (id : ModelIdentity) (moduleFile source compiler : String) (created : UInt64) :
    Manifest :=
  { identity := id.key, moduleFile, sourceDigest := CompiledModels.sourceDigest source, compiler
    created, abi := UInt32.ofNat abiVersion }

inductive Field
  | identity
  | moduleFile
  | sourceDigest
  | compiler
  | created
  | abi
  deriving DecidableEq

namespace Field

def all : List Field := [.identity, .moduleFile, .sourceDigest, .compiler, .created, .abi]

def name : Field → String
  | .identity => "identity"
  | .moduleFile => "module_file"
  | .sourceDigest => "source_sha256"
  | .compiler => "compiler"
  | .created => "created"
  | .abi => "abi_version"

def ofName? (s : String) : Option Field := all.find? (·.name = s)

end Field

def fieldText (m : Manifest) : Field → List Char
  | .identity => Json.stringText m.identity
  | .moduleFile => Json.stringText m.moduleFile
  | .sourceDigest => Json.stringText m.sourceDigest
  | .compiler => Json.stringText m.compiler
  | .created => (toString m.created.toNat).toList
  | .abi => (toString m.abi.toNat).toList

def fieldLines (m : Manifest) : List Field → List Char
  | [] => []
  | f :: fs =>
    "\n  ".toList ++ Json.stringText f.name ++ ": ".toList ++ m.fieldText f ++
      (if fs.isEmpty then [] else [',']) ++ fieldLines m fs

def text (m : Manifest) : String :=
  String.ofList ('{' :: m.fieldLines Field.all ++ "\n\x7d".toList)

structure Draft where
  identity : Option String
  moduleFile : Option String
  sourceDigest : Option String
  compiler : Option String
  created : Option UInt64
  abi : Option UInt32

namespace Draft

def empty : Draft := ⟨none, none, none, none, none, none⟩

def has (d : Draft) : Field → Bool
  | .identity => d.identity.isSome
  | .moduleFile => d.moduleFile.isSome
  | .sourceDigest => d.sourceDigest.isSome
  | .compiler => d.compiler.isSome
  | .created => d.created.isSome
  | .abi => d.abi.isSome

def complete? (d : Draft) : Option Manifest := do
  some ⟨← d.identity, ← d.moduleFile, ← d.sourceDigest, ← d.compiler, ← d.created, ← d.abi⟩

def readField (d : Draft) (f : Field) (cs : List Char) :
    Except Json.Failure (Draft × List Char) := do
  let text (put : String → Draft) : Except Json.Failure (Draft × List Char) := do
    let (s, cs) ← Json.readText cs
    return (put s, cs)
  let natural (bits : Nat) (put : Nat → Draft) : Except Json.Failure (Draft × List Char) := do
    let (n, cs) ← Json.readUnsigned bits cs
    return (put n, cs)
  match f with
  | .identity => text fun s => { d with identity := some s }
  | .moduleFile => text fun s => { d with moduleFile := some s }
  | .sourceDigest => text fun s => { d with sourceDigest := some s }
  | .compiler => text fun s => { d with compiler := some s }
  | .created => natural 64 fun n => { d with created := some (UInt64.ofNat n) }
  | .abi => natural 32 fun n => { d with abi := some (UInt32.ofNat n) }

/-- Reads the fields of an object after its opening brace, in any order. A repeated field is
reported behind its key, a missing one behind the closing brace. -/
def readFields : Nat → Bool → Draft → List Char → Except Json.Failure (Manifest × List Char)
  | 0, _, _, cs => .error (.next .endInObject cs)
  | fuel + 1, first, d, cs => do
    match ← Json.readKey first cs with
    | (none, cs) =>
      match d.complete? with
      | some m => return (m, cs)
      | none =>
        let missing := (Field.all.find? (!d.has ·)).getD .identity
        throw (.at (.missingField missing.name) cs)
    | (some key, cs) =>
      match Field.ofName? key with
      | none =>
        let cs ← Json.readColon cs
        let cs ← Json.skipValue cs
        readFields fuel false d cs
      | some f =>
        if d.has f then
          let rest := match Json.skipSpace cs with
            | '}' :: cs => cs
            | cs => cs
          throw (.at (.duplicateField f.name) rest)
        else
          let cs ← Json.readColon cs
          let (d, cs) ← d.readField f cs
          readFields fuel false d cs

def nextItem (first : Bool) (cs : List Char) : Except Json.Failure (Bool × List Char) :=
  match Json.skipSpace cs with
  | [] => .error (.next .endInList [])
  | ']' :: cs => .ok (false, ']' :: cs)
  | ',' :: cs =>
    if first then .ok (true, ',' :: cs)
    else match Json.skipSpace cs with
      | [] => .error (.next .endInValue [])
      | ']' :: cs => .error (.next .trailingComma (']' :: cs))
      | cs => .ok (true, cs)
  | cs => if first then .ok (true, cs) else .error (.next .expectedListEnd cs)

def readItems (d : Draft) (first : Bool) : List Field → List Char →
    Except Json.Failure (Draft × List Char)
  | [], cs => .ok (d, cs)
  | f :: fs, cs => do
    let (more, cs) ← nextItem first cs
    if more then
      let (d, cs) ← d.readField f cs
      readItems d false fs cs
    else
      let found := Field.all.length - (f :: fs).length
      throw (.at (.invalidLength found "struct EntryManifest with 6 elements") (cs.drop 1))

end Draft

def readListEnd (cs : List Char) : Except Json.Failure (List Char) :=
  match Json.skipSpace cs with
  | [] => .error (.next .endInList [])
  | ']' :: cs => .ok cs
  | ',' :: cs =>
    match Json.skipSpace cs with
    | ']' :: cs => .error (.next .trailingComma (']' :: cs))
    | cs => .error (.next .trailingCharacters cs)
  | cs => .error (.next .trailingCharacters cs)

/-- Reads an object with the fields of a manifest, or a list of their values in order. -/
def readValue (cs : List Char) : Except Json.Failure (Manifest × List Char) :=
  match Json.skipSpace cs with
  | '{' :: cs => Draft.readFields (cs.length + 1) true .empty cs
  | '[' :: cs => do
    let (d, cs) ← Draft.empty.readItems true Field.all cs
    let cs ← readListEnd cs
    match d.complete? with
    | some m => return (m, cs)
    | none => throw (.at .endInList cs)
  | cs => .error (Json.wrongType "struct EntryManifest" cs)

def ofText (s : String) : Except Json.Failure Manifest := do
  let (m, cs) ← readValue s.toList
  Json.readEnd cs
  return m

end Manifest

end CompiledModels
