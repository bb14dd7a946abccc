import CompiledModels.Shell.Session
import CompiledModels.Tool.Attributes
import CompiledModels.Tool.Characters
import CompiledModels.Tool.Checksum
import CompiledModels.Tool.Columns
import CompiledModels.Tool.Compare
import CompiledModels.Tool.Concatenation
import CompiledModels.Tool.Copies
import CompiledModels.Tool.Directory
import CompiledModels.Tool.Dump
import CompiledModels.Tool.Edit
import CompiledModels.Tool.Encoding
import CompiledModels.Tool.Extent
import CompiledModels.Tool.Find
import CompiledModels.Tool.Launch
import CompiledModels.Tool.LineSearch
import CompiledModels.Tool.Listing
import CompiledModels.Tool.Paths
import CompiledModels.Tool.Printing
import CompiledModels.Tool.Sorted
import CompiledModels.Tool.Transfer

/-!
The programs that come with a machine: the shell and the tools, and the files that they stand in.
-/

namespace CompiledModels.Programs

open Kernel (Image Routine)

def tools : List Tool.Program :=
  Tool.attributes ++ Tool.characters ++ Tool.checksums ++ Tool.columns ++ Tool.comparers ++
    Tool.concatenation ++ Tool.copiers ++ Tool.directories ++ Tool.dumpers ++ Tool.editors ++
    Tool.encoders ++ Tool.extents ++ Tool.launchers ++ Tool.lineFinders ++ Tool.listings ++
    Tool.paths ++ Tool.printing ++ Tool.searches ++ Tool.sorted ++ Tool.transfers

def table : List (String × (Image → Routine)) :=
  [("sh", Shell.Session.routine), ("dash", Shell.Session.routine)] ++
    tools.map fun t => (t.name, Tool.routine t)

/-- What a program does. The file of one that is not known cannot be run to any good. -/
def load (i : Image) : Routine :=
  match table.find? (·.1 = i.program) with
  | some (_, f) => f i
  | none => .ended (.signal 11)

def directories : List Files.Location := [
  ["bin"], ["usr"], ["usr", "bin"], ["tmp"], ["dev"], ["etc"], ["lib"], ["var"], ["root"], ["home"]]

def systemFiles : Files.Tree :=
  let t := directories.foldl (fun t l => t.insert l .directory) Files.Tree.empty
  let t := ["null", "zero", "full", "random", "urandom"].foldl
    (fun t n => t.insert ["dev", n] .other) t
  (table.map (·.1)).foldl (fun t n =>
    let file := ⟨Kernel.programFile n, 0⟩
    (t.insertFile ["bin", n] file true).insertFile ["usr", "bin", n] file true) t

end CompiledModels.Programs
