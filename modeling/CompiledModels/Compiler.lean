import CompiledModels.Files.Path

/-!
The compilers that build modules, and how each is invoked.
-/

namespace CompiledModels

inductive Compiler
  | clang
  | gcc
  | msvc
  | custom (executable : Path)
  deriving DecidableEq

namespace Compiler

def ofName (name : String) : Compiler :=
  match name with
  | "clang++" | "clang" => .clang
  | "g++" | "gcc" => .gcc
  | "cl" | "cl.exe" => .msvc
  | other => .custom (Path.ofText other)

def executable : Compiler → Path
  | .clang => Path.ofText "clang++"
  | .gcc => Path.ofText "g++"
  | .msvc => Path.ofText "cl.exe"
  | .custom path => path

def preferred : Compiler := .gcc

def alternatives : List Compiler := [.clang]

def defaultOptimization : Nat := 2

def maxOptimization : Nat := 3

def moduleExtension : String := "so"

end Compiler

structure Toolchain where
  compiler : Option Compiler
  includeDirectories : List Path
  defines : List String
  compilerFlags : List String
  linkArguments : List String
  optimization : Nat

namespace Toolchain

def ofCompiler (compiler : Option Compiler) : Toolchain :=
  { compiler, includeDirectories := [], defines := [], compilerFlags := [], linkArguments := []
    optimization := Compiler.defaultOptimization }

def withOptimization (t : Toolchain) (level : Nat) : Toolchain :=
  { t with optimization := min level Compiler.maxOptimization }

def withIncludeDirectory (t : Toolchain) (dir : Path) : Toolchain :=
  { t with includeDirectories := t.includeDirectories ++ [dir] }

def withLinkArgument (t : Toolchain) (arg : String) : Toolchain :=
  { t with linkArguments := t.linkArguments ++ [arg] }

/-- Arguments in the manner of gcc: sources stand between the flags and the libraries. -/
def unixArguments (t : Toolchain) (sources : List Path) (output : Path) : List String :=
  ["-std=c++17", "-shared", "-fPIC", "-O" ++ toString t.optimization, "-o", output.text] ++
    t.includeDirectories.flatMap (fun dir => ["-I", dir.text]) ++
    t.defines.map ("-D" ++ ·) ++ t.compilerFlags ++ sources.map Path.text ++ t.linkArguments ++
    ["-lm", "-lpthread"]

def msvcArguments (t : Toolchain) (sources : List Path) (output : Path) : List String :=
  ["/nologo", "/std:c++17", "/EHsc", "/LD", "/O" ++ toString (min (max t.optimization 1) 2),
      "/Fe:" ++ output.text] ++
    t.includeDirectories.map (fun dir => "/I" ++ dir.text) ++
    t.defines.map ("/D" ++ ·) ++ t.compilerFlags ++ sources.map Path.text ++
    (if t.linkArguments.isEmpty then [] else "/link" :: t.linkArguments)

def arguments (t : Toolchain) (compiler : Compiler) (sources : List Path) (output : Path) :
    List String :=
  match compiler with
  | .msvc => t.msvcArguments sources output
  | _ => t.unixArguments sources output

end Toolchain

end CompiledModels
