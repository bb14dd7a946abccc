import CompiledModels.CommandLine.Run
import CompiledModels.Module.Document
import CompiledModels.Start

/-!
The program. A command runs on a machine that begins with the files which matter to it: the cache,
the two tools and whatever the arguments name. Afterwards the cache is put back, and what was
printed and the exit status are passed on. Tools are texts of the command language, and modules are
model documents.
-/

namespace CompiledModels.Outside

def variableNames : List String :=
  ["PATH", "HOME", "TMPDIR", "NO_COLOR", "TERM", "STANBIND_CACHE_DIR", "STANBIND_STANC",
    "STANBIND_CXX", "STANBIND_INCLUDE", "STANBIND_CXXFLAGS", "STANBIND_LDFLAGS",
    "STANBIND_OPT_LEVEL", "STANBIND_TRANSLATE_TIMEOUT_MS", "STANBIND_DEBUG"]

def readVariables : IO (List (String × String)) := do
  let values ← variableNames.mapM fun name => return (← IO.getEnv name).map (name, ·)
  return values.filterMap id

def readFile? (p : String) : IO (Option Bytes) :=
  try return some (← IO.FS.readBinFile p).toList catch _ => return none

def locate (cwd p : String) : Files.Location :=
  let parts (s : String) : Files.Location := (Path.segments s).filter fun s => s ≠ "" ∧ s ≠ "."
  if p.startsWith "/" then parts p else parts cwd ++ parts p

def install (l : Files.Location) (bytes : Bytes) (executable : Bool) (t : Files.Tree) :
    Files.Tree :=
  let t := (List.range l.length).foldl (fun t n =>
    let dir := l.take n
    if (t.get? dir).isSome then t else t.insert dir .directory) t
  t.insertFile l ⟨bytes, 0⟩ executable

def filesBelow : Nat → String → IO (List String)
  | 0, _ => return []
  | depth + 1, dir => do
    try
      let entries ← (← IO.FS.realPath dir).readDir
      let found ← entries.toList.mapM fun e => do
        let p := e.path.toString
        if ← e.path.isDir then filesBelow depth p else return [p]
      return found.flatten
    catch _ => return []

/-- How deep a cache is: a directory for the kind, one for each model, its artifacts. -/
def cacheDepth : Nat := 8

def gather (cwd : String) (executable : Bool) (paths : List String) (t : Files.Tree) :
    IO Files.Tree :=
  paths.foldlM (fun t p => do
    match ← readFile? p with
    | some bytes => return install (locate cwd p) bytes executable t
    | none => return t) t

def textOf (l : Files.Location) : String := "/" ++ "/".intercalate l

/-- Removes those of the files `old` that `t` has no more, and directories that are left empty. -/
def dropGone (old : List Files.Location) (t : Files.Tree) : IO Unit := do
  let gone := old.filter fun l => (t.get? l).isNone
  for l in gone do IO.FS.removeFile (textOf l)
  for l in gone do
    for n in List.range l.length do
      let dir := l.take (l.length - n - 1)
      if (t.get? dir).isNone then
        try IO.FS.removeDir (textOf dir) catch _ => pure ()

def putBack (dir : Files.Location) (t : Files.Tree) : IO Unit := do
  for (l, node) in t.below dir do
    match node with
    | .file _ content _ =>
      IO.FS.createDirAll (textOf l.dropLast)
      IO.FS.writeBinFile (textOf l) (ByteArray.mk content.all.toArray)
    | .directory => IO.FS.createDirAll (textOf l)
    | _ => pure ()

def copyStream (dest : IO.FS.Stream) (bytes : Bytes) : IO Unit := do
  dest.write (ByteArray.mk bytes.toArray)
  dest.flush

def runCommand (args : List String) : IO UInt32 := do
  let cwd := (← IO.currentDir).toString
  let bindings ← readVariables
  let environment : Environment :=
    { bindings, directory := Path.ofText cwd, executable := none, processNumber := 1 }
  let cache := ((Config.ofEnvironment environment).toOption.map (·.cacheDirectory.text)).getD ""
  let old ← if cache.isEmpty then pure [] else filesBelow cacheDepth cache
  let tools := ["STANBIND_STANC", "STANBIND_CXX"].filterMap environment.get?
  let files ← gather cwd true tools Programs.systemFiles
  let files ← gather cwd false (args ++ old) files
  let machine : Machine := ⟨start, fun e files p => Document.load files e.location p⟩
  let world := World.initial files environment (← IO.monoNanosNow)
  match (CommandLine.execute args).run machine world with
  | none =>
    (← IO.getStderr).putStrLn "the command waits for ever"
    return 1
  | some (status, after) =>
    if !cache.isEmpty then
      dropGone (old.map (locate cwd)) after.files
      putBack (locate cwd cache) after.files
    copyStream (← IO.getStdout) (after.descriptors.contentOf Descriptors.output)
    copyStream (← IO.getStderr) (after.descriptors.contentOf Descriptors.diagnostics)
    return UInt32.ofNat status

end CompiledModels.Outside

def main (args : List String) : IO UInt32 := CompiledModels.Outside.runCommand args
