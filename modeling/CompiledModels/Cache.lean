import CompiledModels.Builder
import CompiledModels.Manifest
import CompiledModels.Translator

/-!
The cache of built modules: a directory for each model. Entries are put together aside and then
moved into their place; what is being built lies in `.staging`, and the files in `.locks` keep
two builds of one model apart.
-/

namespace CompiledModels

structure Cache where
  root : Path

structure CompiledEntry where
  file : Path
  buildOutput : String
  warnings : String
  manifest : Manifest

namespace Cache

open Program

def buildOutputFile : String := "build_output.txt"
def warningsFile : String := "stanc_warnings.txt"
def manifestFile : String := "entry.json"

def modelsDirectory (c : Cache) : Path := c.root.join ModelIdentity.modelNamespace
def stagingDirectory (c : Cache) : Path := c.root.join ".staging"
def locksDirectory (c : Cache) : Path := c.root.join ".locks"

def entryDirectory (c : Cache) (id : ModelIdentity) : Path := c.modelsDirectory.join id.name

def lockFile (c : Cache) (id : ModelIdentity) : Path :=
  c.locksDirectory.join (id.name ++ ".lock")

def filesAmong (dir : Path) : List String → Program (List String)
  | [] => return []
  | name :: names => do
    let found ← isFile (dir.join name)
    let rest ← filesAmong dir names
    return if found then name :: rest else rest

def greatest? : List String → Option String
  | [] => none
  | name :: names =>
    match greatest? names with
    | none => some name
    | some other => some (if other < name then name else other)

/-- The module file of an entry, if it has one; of several the one with the greatest name. -/
def modulePath (c : Cache) (id : ModelIdentity) : Program (Option Path) := do
  let dir := c.entryDirectory id
  match ← perform (.list dir) with
  | .error _ => return none
  | .ok entries =>
    let names ← filesAmong dir ((entries.map (·.name)).filter ModuleFile.isName)
    return (greatest? names).map dir.join

def exists? (c : Cache) (id : ModelIdentity) : Program Bool :=
  return (← c.modulePath id).isSome

def removeDirectory (dir : Path) : Attempt CacheError Unit := do
  match ← removeAll dir with
  | .ok () => pure ()
  | .error e => if e.isMissing then pure () else throw (.io dir e)

def delete (c : Cache) (id : ModelIdentity) : Attempt CacheError Unit :=
  removeDirectory (c.entryDirectory id)

/-- Removes all entries and what is left of builds. The locks stay, as others may hold them. -/
def clear (c : Cache) : Attempt CacheError Unit := do
  removeDirectory c.modelsDirectory
  removeDirectory c.stagingDirectory

def lock (c : Cache) (id : ModelIdentity) : Attempt CacheError Nat := do
  Attempt.of (createAll c.locksDirectory) (.io c.locksDirectory)
  let file ← Attempt.of (perform (.openLockFile (c.lockFile id))) (.io (c.lockFile id))
  Attempt.of (perform (.acquire file)) (.lock id.key)
  return file

def unlock (file : Nat) : Program Unit := perform (.release file)

def openStaging (c : Cache) : Attempt CacheError Path := do
  Attempt.of (createAll c.stagingDirectory) (.io c.stagingDirectory)
  return c.stagingDirectory

def moveFile (source target : Path) : Attempt CacheError Unit := do
  match ← perform (.rename source target) with
  | .ok () => pure ()
  | .error _ =>
    Attempt.of (perform (.copy source target)) (.io source)
    let _ ← perform (.removeFile source)

def writeFile (p : Path) (text : String) : Attempt CacheError Unit :=
  Attempt.of (writeText p text) (.io p)

def texts (buildOutput warnings : String) (m : Manifest) : List (String × String) :=
  [(buildOutputFile, buildOutput), (warningsFile, warnings), (manifestFile, m.text)]

def writeTexts (dir : Path) : List (String × String) → Attempt CacheError Unit
  | [] => pure ()
  | (name, text) :: rest => do
    writeFile (dir.join name) text
    writeTexts dir rest

/-- Moves the entry that is in the way to a name of its own among the builds and removes it
there. -/
def retire (c : Cache) (id : ModelIdentity) (staged : Path) : Attempt CacheError Unit := do
  let entry := c.entryDirectory id
  if ← pathExists entry then
    let name := "retired_" ++ id.name ++ "_" ++ staged.fileName?.getD "entry"
    let retired := c.stagingDirectory.join name
    Attempt.of (perform (.rename entry retired)) (.io entry)
    match ← removeAll retired with
    | .ok () => pure ()
    | .error e => perform (.emit (.retiredNotRemoved retired e))

/-- Publishes a complete entry in the place of an earlier one. It is put together in a directory
of its own and then renamed, so that a reader finds the old entry, none, or the new one. The
module is moved into the entry. -/
def store (c : Cache) (id : ModelIdentity) (module : Path) (buildOutput warnings : String)
    (manifest : Manifest) : Attempt CacheError Path := do
  let staging ← c.openStaging
  Attempt.inTemporary ("entry_" ++ id.name ++ "_") staging (.io staging) fun staged => do
    match module.fileName? with
    | none => throw (.io module .noFileName)
    | some name =>
      moveFile module (staged.join name)
      writeTexts staged (texts buildOutput warnings manifest)
      Attempt.of (createAll c.modelsDirectory) (.io c.modelsDirectory)
      c.retire id staged
      let entry := c.entryDirectory id
      Attempt.of (perform (.rename staged entry)) (.io entry)
      return entry.join name

def readArtifact (c : Cache) (id : ModelIdentity) (name what : String) :
    Attempt NotFoundError String := do
  let dir := c.entryDirectory id
  if !(← isDirectory dir) then throw (.entry id.key)
  else Attempt.of (readText (dir.join name)) fun _ => .artifact id.key what

def loadBuildOutput (c : Cache) (id : ModelIdentity) : Attempt NotFoundError String :=
  c.readArtifact id buildOutputFile "build output"

def loadWarnings (c : Cache) (id : ModelIdentity) : Attempt NotFoundError String :=
  c.readArtifact id warningsFile "translator warnings"

def loadManifest (c : Cache) (id : ModelIdentity) : Attempt Error Manifest := do
  let text ← Attempt.of (c.readArtifact id manifestFile "manifest").run .notFound
  Attempt.ofExcept (Manifest.ofText text) fun f => .cache (.manifest (f.message text))

def directoriesAmong (dir : Path) : List String → Program (List String)
  | [] => return []
  | name :: names => do
    let found ← isDirectory (dir.join name)
    let rest ← directoriesAmong dir names
    return if found then name :: rest else rest

def identityOfName? (name : String) : Option ModelIdentity :=
  (ModelIdentity.ofName name).toOption

def identities (c : Cache) : Attempt CacheError (List ModelIdentity) := do
  match ← perform (.list c.modelsDirectory) with
  | .error e => if e.isMissing then return [] else throw (.io c.modelsDirectory e)
  | .ok entries =>
    let names ← directoriesAmong c.modelsDirectory (entries.map (·.name))
    return ModelIdentity.sort (names.filterMap identityOfName?)

/-- Translates, builds and publishes `source`. Nothing is published when a stage fails, and the
directory of the build is removed in any case. -/
def compileModel (c : Cache) (id : ModelIdentity) (source : String) (translator : Translator)
    (builder : Builder) : Attempt Error CompiledEntry := do
  let staging ← Attempt.of c.openStaging.run .cache
  Attempt.inTemporary ("build_" ++ id.name ++ "_") staging (fun e => .cache (.io staging e))
    fun work => do
      let translation ← Attempt.of (translator.translate source id).run .translation
      let output ← Attempt.of (builder.build translation.code id work).run .build
      let created := UInt64.ofNat (Duration.seconds ⟨← perform .now⟩)
      let manifest := Manifest.ofBuild id (output.file.fileName?.getD "") source
        output.compiler.executable.text created
      let file ← Attempt.of
        (c.store id output.file output.diagnostics translation.warnings manifest).run .cache
      perform (.emit (.compiled id.key))
      return ⟨file, output.diagnostics, translation.warnings, manifest⟩

end Cache

end CompiledModels
