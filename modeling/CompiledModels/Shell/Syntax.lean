
namespace CompiledModels.Shell

inductive Operator
  | plain
  | length
  | default (orEmpty : Bool)
  | assign (orEmpty : Bool)
  | alternative (orEmpty : Bool)
  | require (orEmpty : Bool)
  | dropSuffix (longest : Bool)
  | dropStart (longest : Bool)
  | unknown
  deriving DecidableEq

def Operator.takesPattern : Operator → Bool
  | .dropSuffix _ => true
  | .dropStart _ => true
  | _ => false

inductive RedirectMode
  | read
  | write
  | overwrite
  | append
  | both
  | duplicate
  deriving DecidableEq

mutual

inductive Part
  | text (s : String) (quoted : Bool)
  | parameter (name : String) (operator : Operator) (word : List Part) (quoted : Bool)
  | substitution (body : Command) (quoted : Bool)
  | arithmetic (word : List Part) (quoted : Bool)

inductive Redirection
  | named (descriptor : Nat) (mode : RedirectMode) (target : List Part)
  | here (descriptor : Nat) (text : List Part)

inductive Command
  | simple (line : Nat) (assignments : List (String × List Part)) (words : List (List Part))
      (redirections : List Redirection)
  | pipeline (commands : List Command)
  | negation (c : Command)
  | conjunction (a b : Command)
  | disjunction (a b : Command)
  | sequence (commands : List Command)
  | background (c : Command)
  | subshell (c : Command)
  | branch (condition yes no : Command)
  | loop (whileTrue : Bool) (condition body : Command)
  | each (line : Nat) (name : String) (words : Option (List (List Part))) (body : Command)
  | select (line : Nat) (word : List Part) (cases : List (List (List Part) × Command))
  | function (name : String) (body : Command)
  | redirected (line : Nat) (c : Command) (redirections : List Redirection)

end

instance : Inhabited Command := ⟨.sequence []⟩

end CompiledModels.Shell
