import CompiledModels.Config
import CompiledModels.Proofs.Naming

/-!
Settings from variables: which texts are accepted, which fault is reported first, and that each
variable decides one setting.
-/

namespace CompiledModels

open Text (isBlank)

namespace Text

variable {s t : String} {cs : List Char}

structure Trims (s t : String) : Prop where
  parts : ∃ front back, s.toList = front ++ t.toList ++ back ∧
    (∀ c ∈ front, isBlank c = true) ∧ ∀ c ∈ back, isBlank c = true
  first : ∀ c ∈ t.toList.head?, isBlank c = false
  last : ∀ c ∈ t.toList.getLast?, isBlank c = false

theorem dropWhile_gap {p : Char → Bool} {gap : List Char} (cs : List Char) (hg : ∀ c ∈ gap, p c = true)
    (h : ∀ c ∈ cs.head?, p c = false) : (gap ++ cs).dropWhile p = cs := by
  rw [List.dropWhile_append_of_pos hg]
  cases cs with
  | nil => rfl
  | cons c cs => simp [h c (by simp)]

theorem head_dropWhile (p : Char → Bool) (cs : List Char) :
    ∀ c ∈ (cs.dropWhile p).head?, p c = false := by
  intro c hc
  have h := List.head?_dropWhile_not p cs
  rw [Option.mem_def.mp hc] at h
  simpa using h

theorem exists_gap (p : Char → Bool) (cs : List Char) :
    ∃ gap, cs = gap ++ cs.dropWhile p ∧ ∀ c ∈ gap, p c = true :=
  ⟨cs.takeWhile p, List.takeWhile_append_dropWhile.symm, fun c hc =>
    List.all_eq_true.mp List.all_takeWhile c hc⟩

theorem trims_iff : Trims s t ↔ t = trim s := by
  constructor
  · rintro ⟨⟨front, back, hs, hfront, hback⟩, hfirst, hlast⟩
    rw [← String.toList_inj, trim, String.toList_ofList, hs, List.append_assoc]
    by_cases ht : t.toList = []
    · have hall : ∀ c ∈ front ++ back, isBlank c = true := List.forall_mem_append.mpr ⟨hfront, hback⟩
      have hdrop := dropWhile_gap [] hall (by simp)
      rw [List.append_nil] at hdrop
      rw [ht, List.nil_append, hdrop]
      rfl
    · rw [dropWhile_gap _ hfront, List.reverse_append, dropWhile_gap _, List.reverse_reverse]
      · simpa using hback
      · simpa using hlast
      · rw [List.head?_append_of_ne_nil _ ht]
        exact hfirst
  · rintro rfl
    have hlist : (trim s).toList.reverse = ((s.toList.dropWhile isBlank).reverse).dropWhile isBlank := by
      simp [trim]
    obtain ⟨front, hfront, hblank⟩ := exists_gap isBlank s.toList
    obtain ⟨back, hback, hblank'⟩ := exists_gap isBlank (s.toList.dropWhile isBlank).reverse
    have hmiddle : s.toList.dropWhile isBlank = (trim s).toList ++ back.reverse := by
      rw [← hlist] at hback
      simpa using congrArg List.reverse hback
    refine ⟨⟨front, back.reverse, ?_, hblank, by simpa using hblank'⟩, fun c hc => ?_, fun c hc => ?_⟩
    · rw [List.append_assoc, ← hmiddle]
      exact hfront
    · refine head_dropWhile isBlank s.toList c ?_
      rw [hmiddle, List.head?_append, Option.mem_def.mp hc]
      rfl
    · refine head_dropWhile isBlank (s.toList.dropWhile isBlank).reverse c ?_
      rw [← hlist, List.head?_reverse]
      exact hc

/-- The runs of characters between white space, each as long as can be, in their order. -/
inductive Runs : List Char → List String → Prop
  | blank {cs : List Char} (h : ∀ c ∈ cs, isBlank c = true) : Runs cs []
  | run (gap run rest : List Char) {ws : List String} (hg : ∀ c ∈ gap, isBlank c = true)
      (hne : run ≠ []) (hr : ∀ c ∈ run, isBlank c = false) (hrest : ∀ c ∈ rest.head?, isBlank c = true)
      (h : Runs rest ws) : Runs (gap ++ run ++ rest) (String.ofList run :: ws)

inductive Parts (separator : Char) : List Char → List String → Prop
  | last {part : List Char} (h : ∀ c ∈ part, c ≠ separator) : Parts separator part [String.ofList part]
  | part {part rest : List Char} {ws : List String} (h : ∀ c ∈ part, c ≠ separator)
      (hrest : Parts separator rest ws) :
      Parts separator (part ++ separator :: rest) (String.ofList part :: ws)

theorem split_cases (p : Char → Bool) (cs : List Char) : (∀ c ∈ cs, p c = false) ∨
    ∃ part c rest, cs = part ++ c :: rest ∧ (∀ c ∈ part, p c = false) ∧ p c = true := by
  obtain ⟨part, hpart, hno⟩ := exists_gap (fun c => !p c) cs
  have hhead := head_dropWhile (fun c => !p c) cs
  generalize cs.dropWhile (fun c => !p c) = rest at hpart hhead
  cases rest with
  | nil => exact .inl fun c hc => by simpa using hno c (by simpa [hpart] using hc)
  | cons c rest =>
    exact .inr ⟨part, c, rest, hpart, fun c hc => by simpa using hno c hc, by simpa using hhead c (by simp)⟩

theorem parts_splitAll (separator : Char) (cs : List Char) :
    Parts separator cs ((splitAll (· == separator) cs).map String.ofList) := by
  induction hn : cs.length using Nat.strongRecOn generalizing cs with
  | ind n ih =>
    rcases split_cases (· == separator) cs with h | ⟨part, c, rest, rfl, h, hc⟩
    · rw [splitAll_of_forall h]
      exact .last fun c hc => by simpa using h c hc
    · obtain rfl : c = separator := by simpa using hc
      rw [splitAll_append h hc]
      refine .part (fun d hd => by simpa using h d hd) (ih rest.length ?_ rest rfl)
      simp only [List.length_append, List.length_cons] at hn
      omega

theorem Runs.cons {c : Char} {ws : List String} (hc : isBlank c = true) (h : Runs cs ws) :
    Runs (c :: cs) ws := by
  cases h with
  | blank h => exact .blank (List.forall_mem_cons.mpr ⟨hc, h⟩)
  | run gap run rest hg hne hr hrest h =>
    exact .run (c :: gap) run rest (List.forall_mem_cons.mpr ⟨hc, hg⟩) hne hr hrest h

theorem runs_splitAll (cs : List Char) :
    Runs cs (((splitAll isBlank cs).filter (!·.isEmpty)).map String.ofList) := by
  induction hn : cs.length using Nat.strongRecOn generalizing cs with
  | ind n ih =>
    rcases split_cases isBlank cs with h | ⟨part, c, rest, rfl, h, hc⟩
    · rw [splitAll_of_forall h]
      cases cs with
      | nil => exact .blank (by simp)
      | cons c cs =>
        simpa using Runs.run [] (c :: cs) [] (by simp) (by simp) h (by simp)
          (.blank (by simp))
    · have hrest : Runs (c :: rest) (((splitAll isBlank rest).filter (!·.isEmpty)).map String.ofList) := by
        refine (ih rest.length ?_ rest rfl).cons hc
        simp only [List.length_append, List.length_cons] at hn
        omega
      rw [splitAll_append h hc]
      cases part with
      | nil => simpa using hrest
      | cons d part => simpa using Runs.run [] (d :: part) (c :: rest) (by simp) (by simp) h (by simpa using hc) hrest

theorem runs_words (s : String) : Runs s.toList (words s) := runs_splitAll s.toList

end Text

def SpellsNumber (n : Nat) (s : String) : Prop :=
  ∃ digits, (s.toList = digits ∨ s.toList = '+' :: digits) ∧ digits ≠ [] ∧
    (∀ c ∈ digits, '0' ≤ c ∧ c ≤ '9') ∧ n = Nat.ofDigitChars 10 digits 0

theorem digitsValue_eq (cs : List Char) : digitsValue cs = Nat.ofDigitChars 10 cs 0 := by
  simp [digitsValue, Nat.ofDigitChars, digitValue, Nat.mul_comm]

theorem readNatural?_eq_some {limit n : Nat} {s : String} :
    readNatural? limit s = some n ↔ SpellsNumber n s ∧ n ≤ limit := by
  have hread (digits : List Char) :
      (if digits.isEmpty || !digits.all Char.isDigit then none
        else if digitsValue digits ≤ limit then some (digitsValue digits) else none) = some n ↔
      digits ≠ [] ∧ (∀ c ∈ digits, '0' ≤ c ∧ c ≤ '9') ∧ n = Nat.ofDigitChars 10 digits 0 ∧ n ≤ limit := by
    simp only [digitsValue_eq, Bool.or_eq_true, List.isEmpty_iff, Bool.not_eq_true', List.all_eq_false,
      Bool.not_eq_true, ite_eq_iff, reduceCtorEq, and_false, false_or, not_or, not_exists, not_and,
      Option.some.injEq, ← isDigit_iff]
    grind
  simp only [readNatural?, SpellsNumber]
  split
  case h_1 cs hcs =>
    rw [hread, hcs]
    constructor
    · rintro ⟨hne, hdigits, hn, hle⟩
      exact ⟨⟨cs, .inr rfl, hne, hdigits, hn⟩, hle⟩
    · rintro ⟨⟨digits, rfl | h, hne, hdigits, hn⟩, hle⟩
      · exact absurd (hdigits '+' List.mem_cons_self) (by decide)
      · obtain rfl := (List.cons.inj h).2
        exact ⟨hne, hdigits, hn, hle⟩
  case h_2 hplus =>
    rw [hread]
    constructor
    · rintro ⟨hne, hdigits, hn, hle⟩
      exact ⟨⟨s.toList, .inl rfl, hne, hdigits, hn⟩, hle⟩
    · rintro ⟨⟨digits, rfl | h, hne, hdigits, hn⟩, hle⟩
      · exact ⟨hne, hdigits, hn, hle⟩
      · exact absurd h (hplus digits)

def SpellsSwitch (b : Bool) (t : String) : Prop :=
  String.ofList (t.toList.map Char.toLower) ∈
    if b then ["1", "true", "yes", "on"] else ["0", "false", "no", "off", ""]

theorem readBoolean?_eq_some {b : Bool} {s : String} :
    Config.readBoolean? s = some b ↔ SpellsSwitch b (Text.trim s) := by
  unfold Config.readBoolean? SpellsSwitch
  generalize String.ofList ((Text.trim s).toList.map Char.toLower) = t
  split <;> cases b <;> simp_all

def SpellsUpTo (limit n : Nat) (s : String) : Prop := ∃ t, Text.Trims s t ∧ SpellsNumber n t ∧ n ≤ limit

def SpellsFlag (b : Bool) (s : String) : Prop := ∃ t, Text.Trims s t ∧ SpellsSwitch b t

theorem readNatural?_trim {limit n : Nat} {s : String} :
    readNatural? limit (Text.trim s) = some n ↔ SpellsUpTo limit n s := by
  simp [readNatural?_eq_some, SpellsUpTo, Text.trims_iff]

theorem readBoolean?_eq_some_iff {b : Bool} {s : String} :
    Config.readBoolean? s = some b ↔ SpellsFlag b s := by
  simp [readBoolean?_eq_some, SpellsFlag, Text.trims_iff]

namespace Config

/-- The variables, by what they set. -/
inductive Setting
  | directory
  | translator
  | compiler
  | includes
  | compilerFlags
  | linkArguments
  | optimization
  | timeout
  | debug
  deriving DecidableEq

def Setting.variable : Setting → String
  | directory => "STANBIND_CACHE_DIR"
  | translator => "STANBIND_STANC"
  | compiler => "STANBIND_CXX"
  | includes => "STANBIND_INCLUDE"
  | compilerFlags => "STANBIND_CXXFLAGS"
  | linkArguments => "STANBIND_LDFLAGS"
  | optimization => "STANBIND_OPT_LEVEL"
  | timeout => "STANBIND_TRANSLATE_TIMEOUT_MS"
  | debug => "STANBIND_DEBUG"

variable (get get' : String → Option String) (home home' : Option String) (c c' : Config)

def Fits (s : Setting) (p : String → Prop) : Prop := ∀ v, get s.variable = some v → p v

def Unset (s : Setting) : Prop := get s.variable = none ∨ get s.variable = some ""

def Placed : Prop := (∃ dir, get Setting.directory.variable = some dir ∧ dir ≠ "") ∨ home ≠ none

def LevelFits : Prop := Fits get .optimization fun v => ∃ n, SpellsUpTo 255 n v

def TimeoutFits : Prop := Fits get .timeout fun v => ∃ n, SpellsUpTo (2 ^ 64 - 1) n v

def DebugFits : Prop := Fits get .debug fun v => ∃ b, SpellsFlag b v

/-- The first of the faults, in the order in which they are looked for. -/
inductive FirstFault : ConfigError → Prop
  | place (h : ¬Placed get home) : FirstFault .noHome
  | level {v : String} (hp : Placed get home) (hv : get Setting.optimization.variable = some v)
      (h : ¬∃ n, SpellsUpTo 255 n v) : FirstFault (.notInteger Setting.optimization.variable v)
  | timeout {v : String} (hp : Placed get home) (hl : LevelFits get) (hv : get Setting.timeout.variable = some v)
      (h : ¬∃ n, SpellsUpTo (2 ^ 64 - 1) n v) : FirstFault (.notMilliseconds Setting.timeout.variable v)
  | debug {v : String} (hp : Placed get home) (hl : LevelFits get) (ht : TimeoutFits get)
      (hv : get Setting.debug.variable = some v) (h : ¬∃ b, SpellsFlag b v) :
      FirstFault (.notBoolean Setting.debug.variable v)

/-- What the variables say of each setting. -/
structure AskedBy : Prop where
  directory : (∃ dir, get Setting.directory.variable = some dir ∧ dir ≠ "" ∧ c.cacheDirectory = Path.ofText dir) ∨
    Unset get .directory ∧ ∃ h, home = some h ∧ c.cacheDirectory = directoryInHome h
  translator : (∃ v, get Setting.translator.variable = some v ∧ v ≠ "" ∧ c.translator = some (Path.ofText v)) ∨
    Unset get .translator ∧ c.translator = none
  compiler : (∃ v, get Setting.compiler.variable = some v ∧ v ≠ "" ∧ c.compiler = some (Compiler.ofName v)) ∨
    Unset get .compiler ∧ c.compiler = none
  includes : (∃ v parts, get Setting.includes.variable = some v ∧ Text.Parts ':' v.toList parts ∧
      c.includeDirectories = (parts.filter (· ≠ "")).map Path.ofText) ∨
    get Setting.includes.variable = none ∧ c.includeDirectories = []
  compilerFlags : (∃ v, get Setting.compilerFlags.variable = some v ∧ Text.Runs v.toList c.compilerFlags) ∨
    get Setting.compilerFlags.variable = none ∧ c.compilerFlags = []
  linkArguments : (∃ v, get Setting.linkArguments.variable = some v ∧ Text.Runs v.toList c.linkArguments) ∨
    get Setting.linkArguments.variable = none ∧ c.linkArguments = []
  optimization : (∃ v n, get Setting.optimization.variable = some v ∧ SpellsUpTo 255 n v ∧ c.optimization = min n 3) ∨
    get Setting.optimization.variable = none ∧ c.optimization = 2
  timeout : (∃ v n, get Setting.timeout.variable = some v ∧ SpellsUpTo (2 ^ 64 - 1) n v ∧ c.timeout = .ofMillis n) ∨
    get Setting.timeout.variable = none ∧ c.timeout = .ofMillis 1000
  debug : (∃ v, get Setting.debug.variable = some v ∧ SpellsFlag c.debug v) ∨
    get Setting.debug.variable = none ∧ c.debug = false
  defines : c.defines = []

/-- The two may differ in the setting `s`, and in nothing else. -/
structure SameBut (s : Setting) : Prop where
  directory : s ≠ .directory → c.cacheDirectory = c'.cacheDirectory
  translator : s ≠ .translator → c.translator = c'.translator
  compiler : s ≠ .compiler → c.compiler = c'.compiler
  includes : s ≠ .includes → c.includeDirectories = c'.includeDirectories
  compilerFlags : s ≠ .compilerFlags → c.compilerFlags = c'.compilerFlags
  linkArguments : s ≠ .linkArguments → c.linkArguments = c'.linkArguments
  optimization : s ≠ .optimization → c.optimization = c'.optimization
  timeout : s ≠ .timeout → c.timeout = c'.timeout
  debug : s ≠ .debug → c.debug = c'.debug
  defines : c.defines = c'.defines

section Parts

def readDirectory (v home : Option String) : Except ConfigError Path :=
  match nonEmpty v, home with
  | some dir, _ => .ok (Path.ofText dir)
  | none, some home => .ok (directoryInHome home)
  | none, none => .error .noHome

def readLevel (v : Option String) : Except ConfigError Nat :=
  readSetting v Compiler.defaultOptimization (fun s => readNatural? 255 (Text.trim s))
    (.notInteger Setting.optimization.variable)

def readTimeout (v : Option String) : Except ConfigError Duration :=
  readSetting v defaultTimeout (fun s => (readNatural? (2 ^ 64 - 1) (Text.trim s)).map Duration.ofMillis)
    (.notMilliseconds Setting.timeout.variable)

def readDebug (v : Option String) : Except ConfigError Bool :=
  readSetting v false readBoolean? (.notBoolean Setting.debug.variable)

def collect (cacheDirectory : Path) (level : Nat) (timeout : Duration) (debug : Bool) : Config :=
  { cacheDirectory
    translator := (nonEmpty (get Setting.translator.variable)).map Path.ofText
    compiler := (nonEmpty (get Setting.compiler.variable)).map Compiler.ofName
    includeDirectories := ((get Setting.includes.variable).map readPaths).getD []
    defines := []
    compilerFlags := ((get Setting.compilerFlags.variable).map Text.words).getD []
    linkArguments := ((get Setting.linkArguments.variable).map Text.words).getD []
    optimization := min level Compiler.maxOptimization
    timeout
    debug }

theorem ofVariables_eq : ofVariables get home = (do
    let dir ← readDirectory (get Setting.directory.variable) home
    let level ← readLevel (get Setting.optimization.variable)
    let time ← readTimeout (get Setting.timeout.variable)
    let flag ← readDebug (get Setting.debug.variable)
    return collect get dir level time flag) := by
  simp only [ofVariables, readDirectory, Setting.variable]
  cases nonEmpty (get "STANBIND_CACHE_DIR") <;> cases home <;> rfl

end Parts

section Outcome

variable {get get' home home' c c'} {v : Option String}

theorem nonEmpty_eq_some {s : String} : nonEmpty v = some s ↔ v = some s ∧ s ≠ "" := by
  simp [nonEmpty, Option.filter_eq_some_iff]

theorem nonEmpty_eq_none : nonEmpty v = none ↔ v = none ∨ v = some "" := by
  cases v <;> simp [nonEmpty]

theorem map_nonEmpty_cases {α : Type} (f : String → α) (v : Option String) :
    (∃ s, v = some s ∧ s ≠ "" ∧ (nonEmpty v).map f = some (f s)) ∨
    (v = none ∨ v = some "") ∧ (nonEmpty v).map f = none := by
  cases h : nonEmpty v with
  | none => exact .inr ⟨nonEmpty_eq_none.mp h, rfl⟩
  | some s =>
    obtain ⟨hs, hne⟩ := nonEmpty_eq_some.mp h
    exact .inl ⟨s, hs, hne, rfl⟩

theorem words_cases (v : Option String) :
    (∃ s, v = some s ∧ Text.Runs s.toList ((v.map Text.words).getD [])) ∨
    v = none ∧ (v.map Text.words).getD [] = [] := by
  cases v with
  | none => exact .inr ⟨rfl, rfl⟩
  | some s => exact .inl ⟨s, rfl, Text.runs_words s⟩

theorem readDirectory_cases (get : String → Option String) (home : Option String) :
    (readDirectory (get Setting.directory.variable) home = .error .noHome ∧ ¬Placed get home) ∨
    ∃ dir, readDirectory (get Setting.directory.variable) home = .ok dir ∧ Placed get home ∧
      ((∃ s, get Setting.directory.variable = some s ∧ s ≠ "" ∧ dir = Path.ofText s) ∨
        Unset get .directory ∧ ∃ h, home = some h ∧ dir = directoryInHome h) := by
  cases hv : nonEmpty (get Setting.directory.variable) with
  | some s =>
    obtain ⟨hs, hne⟩ := nonEmpty_eq_some.mp hv
    exact .inr ⟨Path.ofText s, by simp only [readDirectory, hv], .inl ⟨s, hs, hne⟩, .inl ⟨s, hs, hne, rfl⟩⟩
  | none =>
    have hunset := nonEmpty_eq_none.mp hv
    cases home with
    | some h => exact .inr ⟨directoryInHome h, by simp only [readDirectory, hv], .inr nofun,
      .inr ⟨hunset, h, rfl, rfl⟩⟩
    | none =>
      refine .inl ⟨by simp only [readDirectory, hv], ?_⟩
      rintro (⟨s, hs, hne⟩ | h)
      · exact absurd (nonEmpty_eq_some.mpr ⟨hs, hne⟩) (by simp [hv])
      · exact h rfl

theorem readSetting_cases {α : Type} (unset : α) (read : String → Option α) (error : String → ConfigError) :
    (∃ s, v = some s ∧ read s = none ∧ readSetting v unset read error = .error (error s)) ∨
    ∃ a, readSetting v unset read error = .ok a ∧
      ((∃ s, v = some s ∧ read s = some a) ∨ v = none ∧ a = unset) := by
  cases v with
  | none => exact .inr ⟨unset, rfl, .inr ⟨rfl, rfl⟩⟩
  | some s =>
    cases hs : read s with
    | none => exact .inl ⟨s, rfl, hs, by simp [readSetting, hs]⟩
    | some a => exact .inr ⟨a, by simp [readSetting, hs], .inl ⟨s, rfl, hs⟩⟩

theorem readLevel_cases :
    (∃ s, v = some s ∧ (¬∃ n, SpellsUpTo 255 n s) ∧
      readLevel v = .error (.notInteger Setting.optimization.variable s)) ∨
    ∃ level, readLevel v = .ok level ∧
      ((∃ s, v = some s ∧ SpellsUpTo 255 level s) ∨ v = none ∧ level = 2) := by
  rcases readSetting_cases (v := v) Compiler.defaultOptimization (fun s => readNatural? 255 (Text.trim s))
    (.notInteger Setting.optimization.variable) with ⟨s, hs, hn, he⟩ | ⟨n, hok, h⟩
  · refine .inl ⟨s, hs, fun ⟨n, h⟩ => ?_, he⟩
    exact absurd (readNatural?_trim.mpr h) (by simp [hn])
  · exact .inr ⟨n, hok, h.imp_left fun ⟨s, hs, h⟩ => ⟨s, hs, readNatural?_trim.mp h⟩⟩

theorem readTimeout_cases :
    (∃ s, v = some s ∧ (¬∃ n, SpellsUpTo (2 ^ 64 - 1) n s) ∧
      readTimeout v = .error (.notMilliseconds Setting.timeout.variable s)) ∨
    ∃ time, readTimeout v = .ok time ∧
      ((∃ s n, v = some s ∧ SpellsUpTo (2 ^ 64 - 1) n s ∧ time = .ofMillis n) ∨
        v = none ∧ time = .ofMillis 1000) := by
  rcases readSetting_cases (v := v) defaultTimeout
    (fun s => (readNatural? (2 ^ 64 - 1) (Text.trim s)).map Duration.ofMillis)
    (.notMilliseconds Setting.timeout.variable) with ⟨s, hs, hn, he⟩ | ⟨time, hok, h⟩
  · refine .inl ⟨s, hs, fun ⟨n, h⟩ => ?_, he⟩
    rw [readNatural?_trim.mpr h] at hn
    cases hn
  · refine .inr ⟨time, hok, h.imp_left fun ⟨s, hs, h⟩ => ?_⟩
    obtain ⟨n, hn, rfl⟩ := Option.map_eq_some_iff.mp h
    exact ⟨s, n, hs, readNatural?_trim.mp hn, rfl⟩

theorem readDebug_cases :
    (∃ s, v = some s ∧ (¬∃ b, SpellsFlag b s) ∧ readDebug v = .error (.notBoolean Setting.debug.variable s)) ∨
    ∃ flag, readDebug v = .ok flag ∧ ((∃ s, v = some s ∧ SpellsFlag flag s) ∨ v = none ∧ flag = false) := by
  rcases readSetting_cases (v := v) false readBoolean? (.notBoolean Setting.debug.variable) with
    ⟨s, hs, hn, he⟩ | ⟨flag, hok, h⟩
  · refine .inl ⟨s, hs, fun ⟨b, h⟩ => ?_, he⟩
    exact absurd (readBoolean?_eq_some_iff.mpr h) (by simp [hn])
  · exact .inr ⟨flag, hok, h.imp_left fun ⟨s, hs, h⟩ => ⟨s, hs, readBoolean?_eq_some_iff.mp h⟩⟩

structure Collected (get : String → Option String) (home : Option String) (c : Config) : Prop where
  directory : readDirectory (get Setting.directory.variable) home = .ok c.cacheDirectory
  level : (readLevel (get Setting.optimization.variable)).map (min · 3) = .ok c.optimization
  timeout : readTimeout (get Setting.timeout.variable) = .ok c.timeout
  debug : readDebug (get Setting.debug.variable) = .ok c.debug
  rest : c = collect get c.cacheDirectory c.optimization c.timeout c.debug

theorem Fits.of {s : Setting} {p : String → Prop}
    (h : (∃ w, get s.variable = some w ∧ p w) ∨ get s.variable = none) : Fits get s p := by
  intro w hw
  rcases h with ⟨w', hw', hp⟩ | hnone
  · exact Option.some.inj (hw.symm.trans hw') ▸ hp
  · cases hw.symm.trans hnone

theorem askedBy_collect {dir : Path} {level : Nat} {time : Duration} {flag : Bool}
    (hdir : (∃ s, get Setting.directory.variable = some s ∧ s ≠ "" ∧ dir = Path.ofText s) ∨
      Unset get .directory ∧ ∃ h, home = some h ∧ dir = directoryInHome h)
    (hlevel : (∃ s, get Setting.optimization.variable = some s ∧ SpellsUpTo 255 level s) ∨
      get Setting.optimization.variable = none ∧ level = 2)
    (htime : (∃ s n, get Setting.timeout.variable = some s ∧ SpellsUpTo (2 ^ 64 - 1) n s ∧ time = .ofMillis n) ∨
      get Setting.timeout.variable = none ∧ time = .ofMillis 1000)
    (hflag : (∃ s, get Setting.debug.variable = some s ∧ SpellsFlag flag s) ∨
      get Setting.debug.variable = none ∧ flag = false) :
    AskedBy get home (collect get dir level time flag) where
  directory := hdir
  translator := map_nonEmpty_cases Path.ofText _
  compiler := map_nonEmpty_cases Compiler.ofName _
  includes := by
    cases h : get Setting.includes.variable with
    | none => exact .inr ⟨rfl, by simp only [collect, h, Option.map_none, Option.getD_none]⟩
    | some s =>
      exact .inl ⟨s, _, rfl, Text.parts_splitAll ':' s.toList,
        by simp only [collect, h, Option.map_some, Option.getD_some, readPaths]⟩
  compilerFlags := words_cases _
  linkArguments := words_cases _
  optimization := by
    rcases hlevel with ⟨s, hs, h⟩ | ⟨hnone, rfl⟩
    · exact .inl ⟨s, level, hs, h, rfl⟩
    · exact .inr ⟨hnone, rfl⟩
  timeout := htime
  debug := hflag
  defines := rfl

theorem ofVariables_cases (get : String → Option String) (home : Option String) :
    (∃ e, ofVariables get home = .error e ∧ FirstFault get home e) ∨
    ∃ c, ofVariables get home = .ok c ∧ Collected get home c ∧ AskedBy get home c ∧
      Placed get home ∧ LevelFits get ∧ TimeoutFits get ∧ DebugFits get := by
  rw [ofVariables_eq]
  rcases readDirectory_cases get home with ⟨hdir, hp⟩ | ⟨dir, hdir, hp, hdir'⟩
  · exact .inl ⟨_, by rw [hdir]; rfl, .place hp⟩
  rcases readLevel_cases (v := get Setting.optimization.variable) with ⟨s, hs, hn, hl⟩ | ⟨level, hl, hlevel⟩
  · exact .inl ⟨_, by rw [hdir, hl]; rfl, .level hp hs hn⟩
  have hlfits : LevelFits get :=
    .of (hlevel.imp (fun ⟨s, hs, h⟩ => ⟨s, hs, level, h⟩) And.left)
  rcases readTimeout_cases (v := get Setting.timeout.variable) with ⟨s, hs, hn, ht⟩ | ⟨time, ht, htime⟩
  · exact .inl ⟨_, by rw [hdir, hl, ht]; rfl, .timeout hp hlfits hs hn⟩
  have htfits : TimeoutFits get :=
    .of (htime.imp (fun ⟨s, n, hs, h, _⟩ => ⟨s, hs, n, h⟩) And.left)
  rcases readDebug_cases (v := get Setting.debug.variable) with ⟨s, hs, hn, hd⟩ | ⟨flag, hd, hflag⟩
  · exact .inl ⟨_, by rw [hdir, hl, ht, hd]; rfl, .debug hp hlfits htfits hs hn⟩
  have hdfits : DebugFits get :=
    .of (hflag.imp (fun ⟨s, hs, h⟩ => ⟨s, hs, flag, h⟩) And.left)
  refine .inr ⟨collect get dir level time flag, by rw [hdir, hl, ht, hd]; rfl, ?_,
    askedBy_collect hdir' hlevel htime hflag, hp, hlfits, htfits, hdfits⟩
  exact ⟨hdir, by rw [hl]; rfl, ht, hd, by simp [collect, Compiler.maxOptimization]⟩

theorem FirstFault.not_fits {e : ConfigError} (h : FirstFault get home e) :
    ¬(Placed get home ∧ LevelFits get ∧ TimeoutFits get ∧ DebugFits get) := by
  rintro ⟨hp, hl, ht, hd⟩
  cases h with
  | place h => exact h hp
  | level _ hv h => exact h (hl _ hv)
  | timeout _ _ hv h => exact h (ht _ hv)
  | debug _ _ _ hv h => exact h (hd _ hv)

theorem FirstFault.unique {e e' : ConfigError} (h : FirstFault get home e) (h' : FirstFault get home e') :
    e = e' := by
  cases h with
  | place h => cases h' with
    | place => rfl
    | level hp | timeout hp | debug hp => exact absurd hp h
  | level hp hv h => cases h' with
    | place h' => exact absurd hp h'
    | level _ hv' => rw [Option.some.inj (hv.symm.trans hv')]
    | timeout _ hl | debug _ hl => exact absurd (hl _ hv) h
  | timeout hp hl hv h => cases h' with
    | place h' => exact absurd hp h'
    | level _ hv' h' => exact absurd (hl _ hv') h'
    | timeout _ _ hv' => rw [Option.some.inj (hv.symm.trans hv')]
    | debug _ _ ht => exact absurd (ht _ hv) h
  | debug hp hl ht hv h => cases h' with
    | place h' => exact absurd hp h'
    | level _ hv' h' => exact absurd (hl _ hv') h'
    | timeout _ _ hv' h' => exact absurd (ht _ hv') h'
    | debug _ _ _ hv' => rw [Option.some.inj (hv.symm.trans hv')]

theorem collected_of_ok (h : ofVariables get home = .ok c) : Collected get home c := by
  rcases ofVariables_cases get home with ⟨e, he, -⟩ | ⟨c', hc, hcollected, -⟩
  · cases h.symm.trans he
  · cases h.symm.trans hc
    exact hcollected

theorem Setting.variable_injective {s t : Setting} (h : s.variable = t.variable) : s = t := by
  revert h
  cases s <;> cases t <;> decide

theorem Collected.sameBut (h : Collected get home c) (h' : Collected get' home' c') (s : Setting)
    (hget : ∀ t, t ≠ s → get' (Setting.variable t) = get t.variable) (hhome : s ≠ .directory → home' = home) :
    SameBut c c' s where
  directory hs := by
    have heq := h'.directory
    rw [hget _ hs.symm, hhome hs, h.directory] at heq
    exact Except.ok.inj heq
  translator hs := by
    rw [h.rest, h'.rest]
    simp only [collect, hget _ hs.symm]
  compiler hs := by
    rw [h.rest, h'.rest]
    simp only [collect, hget _ hs.symm]
  includes hs := by
    rw [h.rest, h'.rest]
    simp only [collect, hget _ hs.symm]
  compilerFlags hs := by
    rw [h.rest, h'.rest]
    simp only [collect, hget _ hs.symm]
  linkArguments hs := by
    rw [h.rest, h'.rest]
    simp only [collect, hget _ hs.symm]
  optimization hs := by
    have heq := h'.level
    rw [hget _ hs.symm, h.level] at heq
    exact Except.ok.inj heq
  timeout hs := by
    have heq := h'.timeout
    rw [hget _ hs.symm, h.timeout] at heq
    exact Except.ok.inj heq
  debug hs := by
    have heq := h'.debug
    rw [hget _ hs.symm, h.debug] at heq
    exact Except.ok.inj heq
  defines := by rw [h.rest, h'.rest]; rfl

end Outcome

/-- Which variables make a configuration, which fault is reported where they do not, what each
setting then is, and that it comes from its own variable. -/
theorem ofVariables_exact (get : String → Option String) (home : Option String) :
    ((∃ c, ofVariables get home = .ok c) ↔
      Placed get home ∧ LevelFits get ∧ TimeoutFits get ∧ DebugFits get) ∧
    (∀ e, ofVariables get home = .error e ↔ FirstFault get home e) ∧
    (∀ c, ofVariables get home = .ok c → AskedBy get home c) ∧
    (∀ s get' c c', (∀ name, name ≠ Setting.variable s → get' name = get name) →
      ofVariables get home = .ok c → ofVariables get' home = .ok c' → SameBut c c' s) ∧
    ∀ home' c c', ofVariables get home = .ok c → ofVariables get home' = .ok c' →
      SameBut c c' .directory := by
  refine ⟨⟨fun ⟨c, hc⟩ => ?_, fun h => ?_⟩, fun e => ⟨fun he => ?_, fun h => ?_⟩, fun c hc => ?_,
    fun s get' c c' hget hc hc' => ?_, fun home' c c' hc hc' => ?_⟩
  · rcases ofVariables_cases get home with ⟨e, he, -⟩ | ⟨_, _, _, _, hfits⟩
    · cases hc.symm.trans he
    · exact hfits
  · rcases ofVariables_cases get home with ⟨e, -, he⟩ | ⟨c, hc, -⟩
    · exact absurd h he.not_fits
    · exact ⟨c, hc⟩
  · rcases ofVariables_cases get home with ⟨e', he', h⟩ | ⟨c, hc, -⟩
    · cases he.symm.trans he'
      exact h
    · cases he.symm.trans hc
  · rcases ofVariables_cases get home with ⟨e', he', h'⟩ | ⟨c, -, -, -, hfits⟩
    · rw [he', h'.unique h]
    · exact absurd hfits h.not_fits
  · rcases ofVariables_cases get home with ⟨e, he, -⟩ | ⟨c', hc', -, hasked, -⟩
    · cases hc.symm.trans he
    · cases hc.symm.trans hc'
      exact hasked
  · exact (collected_of_ok hc).sameBut (collected_of_ok hc') s
      (fun t ht => hget _ fun h => ht (Setting.variable_injective h)) fun _ => rfl
  · exact (collected_of_ok hc).sameBut (collected_of_ok hc') .directory (fun _ _ => rfl)
      fun h => absurd rfl h

end Config

end CompiledModels
