import CompiledModels.Proofs.Neighbours
import CompiledModels.Proofs.Publishing

/-!
Operations on the entry of one model, one after the other, beside those on other models. What the
tools of a build come to is given, so that only steps on files and locks are interleaved.
-/

namespace CompiledModels

open Files Program

/-- What the tools of a build come to: the translation, the files that are left where the module is
built, and the module among them with what the compiler wrote. -/
structure Toolwork where
  translation : Except TranslationError Translation
  left : List (String × Bytes)
  result : Except BuildError (String × String × Compiler)
  plain : ∀ f ∈ left, IsPlain f.1
  named : ∀ r, result = .ok r → IsPlain r.1

def leave (work : Path) : List (String × Bytes) → Program Unit
  | [] => return ()
  | (name, bytes) :: files => do
    let _ ← perform (.write (work.join name) bytes)
    leave work files

def Toolwork.build (g : Toolwork) (work : Path) : Attempt BuildError BuildOutput := do
  leave work g.left
  match g.result with
  | .ok (name, diagnostics, compiler) => return ⟨work.join name, diagnostics, compiler⟩
  | .error e => throw e

namespace Cache

/-- Building and publishing a model, whatever its translation and its compilation are. -/
def compileWith (c : Cache) (id : ModelIdentity) (source : String)
    (translate : Attempt TranslationError Translation)
    (build : String → Path → Attempt BuildError BuildOutput) : Attempt Error CompiledEntry := do
  let staging ← Attempt.of c.openStaging.run .cache
  Attempt.inTemporary ("build_" ++ id.name ++ "_") staging (fun e => .cache (.io staging e))
    fun work => do
      let translation ← Attempt.of translate.run .translation
      let output ← Attempt.of (build translation.code work).run .build
      let created := UInt64.ofNat (Duration.seconds ⟨← perform .now⟩)
      let manifest := Manifest.ofBuild id (output.file.fileName?.getD "") source
        output.compiler.executable.text created
      let file ← Attempt.of
        (c.store id output.file output.diagnostics translation.warnings manifest).run .cache
      perform (.emit (.compiled id.key))
      return ⟨file, output.diagnostics, translation.warnings, manifest⟩

theorem compileModel_eq_compileWith (c : Cache) (id : ModelIdentity) (source : String) (t : Translator)
    (b : Builder) : c.compileModel id source t b = c.compileWith id source (t.translate source id)
      fun code work => b.build code id work := rfl

end Cache

/-- An operation of a cache on one model. The locks that it takes or gives back are kept by their
numbers. -/
inductive Chore
  | lock
  | unlock
  | exists?
  | modulePath
  | store (module : Path) (buildOutput warnings : String) (manifest : Manifest)
  | loadBuildOutput
  | loadWarnings
  | loadManifest
  | delete
  | compile (source : String) (tools : Toolwork)

namespace Chore

inductive Answer
  | locked (r : Except CacheError Unit)
  | unlocked
  | exists? (b : Bool)
  | path (p : Option Path)
  | stored (r : Except CacheError Path)
  | text (r : Except NotFoundError String)
  | manifest (r : Except Error Manifest)
  | deleted (r : Except CacheError Unit)
  | compiled (r : Except Error CompiledEntry)

variable (c : Cache) (id : ModelIdentity)

def program (held : List Nat) : Chore → Program (Answer × List Nat)
  | lock => do
    match ← (c.lock id).run with
    | .ok n => return (.locked (.ok ()), n :: held)
    | .error e => return (.locked (.error e), held)
  | unlock =>
    match held with
    | [] => return (.unlocked, [])
    | n :: held => do
      Cache.unlock n
      return (.unlocked, held)
  | exists? => do return (.exists? (← c.exists? id), held)
  | modulePath => do return (.path (← c.modulePath id), held)
  | store module buildOutput warnings manifest => do
    return (.stored (← (c.store id module buildOutput warnings manifest).run), held)
  | loadBuildOutput => do return (.text (← (c.loadBuildOutput id).run), held)
  | loadWarnings => do return (.text (← (c.loadWarnings id).run), held)
  | loadManifest => do return (.manifest (← (c.loadManifest id).run), held)
  | delete => do return (.deleted (← (c.delete id).run), held)
  | compile source tools => do
    let r ← (c.compileWith id source (Attempt.ofExcept tools.translation fun e => e)
      fun _ work => tools.build work).run
    return (.compiled r, held)

def all (held : List Nat) : List Chore → Program (List Answer)
  | [] => return []
  | chore :: chores => do
    let (answer, held) ← chore.program c id held
    let answers ← all held chores
    return answer :: answers

end Chore

/-- The names of what is put together for a model among the builds. -/
inductive ModelIdentity.Temporary (id : ModelIdentity) : String → Prop
  | build {s : String} (hs : s.length = 6) : Temporary id ("build_" ++ id.name ++ "_" ++ s)
  | entry {s : String} (hs : s.length = 6) : Temporary id (stagedName id s)
  | retired {s : String} (hs : s.length = 6) : Temporary id ("retired_" ++ id.name ++ "_" ++ stagedName id s)

theorem ModelIdentity.Temporary.isPlain {id : ModelIdentity} {n : String} (h : id.Temporary n) : IsPlain n := by
  cases h with
  | build hs =>
    rw [String.append_assoc, String.append_assoc]
    exact plain_of_start (by decide) _
  | entry hs => exact plain_stagedName id _
  | retired hs =>
    rw [String.append_assoc, String.append_assoc]
    exact plain_of_start (by decide) _

theorem ModelIdentity.eq_of_start {a b : ModelIdentity} {start s t : String}
    (h : start ++ a.name ++ "_" ++ s = start ++ b.name ++ "_" ++ t) (hl : a.name.length = b.name.length) :
    a = b := by
  have hchars := congrArg String.toList h
  simp only [String.toList_append, List.append_assoc, List.append_cancel_left_eq] at hchars
  have hlength : a.name.toList.length = b.name.toList.length := by
    rw [String.length_toList, String.length_toList, hl]
  exact ModelIdentity.eq_of_name (String.toList_inj.mp (List.append_inj_left hchars hlength))

/-- What is put together for one model has other names than what is for another. -/
theorem ModelIdentity.Temporary.unique {a b : ModelIdentity} {n : String} (h : a.Temporary n)
    (h' : b.Temporary n) : a = b := by
  have hkinds (s t : String) : "build_" ++ s ≠ "entry_" ++ t ∧ "build_" ++ s ≠ "retired_" ++ t ∧
      "entry_" ++ s ≠ "retired_" ++ t :=
    ⟨ne_of_head (by decide) (by decide) (by decide) _ _, ne_of_head (by decide) (by decide) (by decide) _ _,
      ne_of_head (by decide) (by decide) (by decide) _ _⟩
  suffices hall : ∀ n n', a.Temporary n → b.Temporary n' → n = n' → a = b from hall n n h h' rfl
  intro n n' h h' he
  cases h with
  | @build s hs =>
    cases h' with
    | @build t ht =>
      have hlength := congrArg String.length he
      simp only [String.length_append] at hlength
      exact ModelIdentity.eq_of_start he (by omega)
    | entry ht => exact absurd (by simpa [stagedName, String.append_assoc] using he) (hkinds _ _).1
    | retired ht => exact absurd (by simpa [String.append_assoc] using he) (hkinds _ _).2.1
  | @entry s hs =>
    cases h' with
    | build ht => exact absurd (by simpa [stagedName, String.append_assoc] using he.symm) (hkinds _ _).1
    | @entry t ht =>
      have hlength := congrArg String.length he
      simp only [stagedName, String.length_append] at hlength
      exact ModelIdentity.eq_of_start he (by omega)
    | retired ht => exact absurd (by simpa [stagedName, String.append_assoc] using he) (hkinds _ _).2.2
  | @retired s hs =>
    cases h' with
    | build ht => exact absurd (by simpa [String.append_assoc] using he.symm) (hkinds _ _).2.1
    | entry ht => exact absurd (by simpa [stagedName, String.append_assoc] using he.symm) (hkinds _ _).2.2
    | @retired t ht =>
      have hlength := congrArg String.length he
      simp only [stagedName, String.length_append] at hlength
      exact ModelIdentity.eq_of_start he (by omega)

namespace Plots

variable {ι α β ε : Type}

/-- A caller has the entry of a model, its lock and what is put together for it as its own. -/
structure Houses (P : Plots ι) (i : ι) (env : Environment) (c : Cache) (id : ModelIdentity) : Prop where
  serves : P.cache.Serves env c.root
  models : P.shared (P.cache.root ++ [ModelIdentity.modelNamespace])
  staging : P.shared (P.cache.root ++ [".staging"])
  locks : P.shared (P.cache.root ++ [".locks"])
  entry : P.plot i (P.cache.root ++ [ModelIdentity.modelNamespace, id.name])
  temporary : ∀ n, id.Temporary n → P.plot i (P.cache.root ++ [".staging", n])
  lockFile : P.cache.root ++ [".locks", id.name ++ ".lock"] = P.lock i

variable {P : Plots ι} {m : Machine} {i : ι} {env : Environment} {D : String → Prop} {c : Cache}
  {id : ModelIdentity} (h : P.Houses i env c id)

namespace Houses

include h

theorem reads_entry (hproper : IsProper id.name) {names : List String} (hn : ∀ s ∈ names, IsPlain s) :
    P.Reads i env D ((c.entryDirectory id).joins names) := by
  intro ns w w' hx follow
  rw [Cache.entryDirectory_eq, Path.joins_joins]
  exact hx.files.looks_below h.serves.leads h.models (by decide) hn h.entry (by decide) hproper

theorem views_entry {names : List String} (hn : ∀ s ∈ names, IsPlain s) :
    P.Views i env D ((c.entryDirectory id).joins names) := by
  intro ns w w' hx follow
  rw [Cache.entryDirectory_eq, Path.joins_joins]
  exact hx.files.sees_below h.serves.leads h.models (by decide) hn h.entry (by decide) id.isPlain

theorem views_entryDirectory : P.Views i env D (c.entryDirectory id) := by
  have hviews : P.Views i env D ((c.entryDirectory id).joins []) := h.views_entry (by simp)
  rwa [Path.joins_nil] at hviews

section Looking

theorem filesAmong {names : List String} (hn : ∀ s ∈ names, IsPlain s) :
    P.Tame m i env D (fun _ => True) (Cache.filesAmong (c.entryDirectory id) names) := by
  induction names with
  | nil => exact .pure trivial
  | cons s names ih =>
    refine Tame.bind (Tame.isFile ?_) fun _ _ => (ih fun s hs => hn s (by simp [hs])).bind fun _ _ => .pure trivial
    rw [Path.join_eq_joins]
    exact h.views_entry (by simpa using hn s (by simp))

theorem modulePath : P.Tame m i env D (fun _ => True) (c.modulePath id) := by
  refine Tame.listThen h.views_entryDirectory (fun _ _ => rfl) fun r hr => ?_
  cases r with
  | error e => exact .pure trivial
  | ok es =>
    refine (h.filesAmong fun s hs => ?_).bind fun _ _ => .pure trivial
    obtain ⟨e, he, rfl⟩ := List.mem_map.mp (List.mem_of_mem_filter hs)
    exact hr es rfl e he

theorem exists? : P.Tame m i env D (fun _ => True) (c.exists? id) := h.modulePath.bind fun _ _ => .pure trivial

theorem readArtifact {name what : String} (hn : IsPlain name) :
    P.Tame m i env D (fun r => ∀ a, r = .ok a → True) (c.readArtifact id name what).run := by
  refine .liftThen (Tame.isDirectory h.views_entryDirectory) fun b _ => ?_
  cases b with
  | false => exact .fails
  | true =>
    refine Tame.wanted ?_
    rw [Path.join_eq_joins]
    exact h.views_entry (by simpa using hn)

theorem loadManifest : P.Tame m i env D (fun r => ∀ a, r = .ok a → True) (c.loadManifest id).run := by
  refine .attempt (.of (h.readArtifact (by decide))) fun text _ => ?_
  exact .pure fun _ _ => trivial

theorem delete (hproper : IsProper id.name) :
    P.Tame m i env D (fun r => ∀ a, r = .ok a → True) (c.delete id).run := by
  refine .liftThen (Tame.removeAll fun names hn => h.reads_entry hproper hn) fun r _ => ?_
  cases r with
  | ok _ => exact .done trivial
  | error e =>
    simp only
    split
    · exact .done trivial
    · exact .fails

end Looking

section Storing

variable {module staged : Path} {n : String}

theorem writes_entryDirectory (hD : D ModelIdentity.modelNamespace) : P.Writes i env D (c.entryDirectory id) := by
  rw [Cache.entryDirectory_eq]
  exact writes_below h.serves.leads hD (by decide) id.isPlain (by simp) h.entry

theorem writes_temporary {q : Path} (hq : P.cache.Leads env.location q) (hD : D ".staging") (hn : id.Temporary n)
    {names : List String} (hs : ∀ s ∈ names, IsPlain s) :
    P.Writes i env D (((q.join ".staging").join n).joins names) := by
  have hjoins : ((q.join ".staging").join n).joins names = q.joins (".staging" :: n :: names) := by
    simp [Path.join, Path.joins]
  rw [hjoins]
  exact writes_below hq hD (by decide) hn.isPlain hs (h.temporary n hn)

omit h in
theorem inDirectory_stagingDirectory (c : Cache) (env : Environment) :
    Path.inDirectory env.directory c.stagingDirectory = (Path.inDirectory env.directory c.root).join ".staging" :=
  Path.inDirectory_joins env.directory

theorem openStaging : P.Opens m i env D ".staging" (· = c.stagingDirectory) c.openStaging.run := by
  refine fun ns w w' hx => .bind ((Opens.of (opens_createAll h.serves.leads h.staging (by decide)) _ ns w w'
    hx).weaken fun r v v' hy => ?_)
  cases r with
  | ok a =>
    refine .pure fun u hu => ⟨hy.1.leaves hu, fun b hb => ⟨(hy.2 a rfl).1.leaves hu, ?_⟩⟩
    exact (Except.ok.inj hb).symm
  | error e => exact .pure fun u hu => ⟨hy.1.leaves hu, nofun⟩

omit h in
theorem moveFile {source target : Path} (hs : P.Writes i env D source) (ht : P.Writes i env D target) :
    P.Tame m i env D (fun r => ∀ a, r = .ok a → True) (Cache.moveFile source target).run := by
  refine .liftThen (Tame.rename hs ht) fun r _ => ?_
  cases r with
  | ok _ => exact .done trivial
  | error e =>
    refine .attempt (.of (Tame.copy hs ht).ok) fun _ _ => ?_
    exact .liftThen (Tame.removeFile hs.reads) fun _ _ => .done trivial

omit h in
theorem writeTexts {dir : Path} {texts : List (String × String)}
    (hw : ∀ t ∈ texts, P.Writes i env D (dir.join t.1)) :
    P.Tame m i env D (fun r => ∀ a, r = .ok a → True) (Cache.writeTexts dir texts).run := by
  induction texts with
  | nil => exact .done trivial
  | cons t texts ih =>
    exact .attempt (.of (Tame.write (hw t (by simp)) _).ok) fun _ _ => ih fun t ht => hw t (by simp [ht])

theorem retire (hD : D ModelIdentity.modelNamespace) (hD' : D ".staging") {s : String} (hs : s.length = 6)
    (hname : staged.fileName? = some (stagedName id s)) :
    P.Tame m i env D (fun r => ∀ a, r = .ok a → True) (c.retire id staged).run := by
  refine .liftThen (Tame.pathExists h.views_entryDirectory) fun found _ => ?_
  cases found with
  | false => exact .done trivial
  | true =>
    have hretired (names : List String) (hn : ∀ s ∈ names, IsPlain s) : P.Writes i env D
        ((c.stagingDirectory.join ("retired_" ++ id.name ++ "_" ++ staged.fileName?.getD "entry")).joins names) := by
      rw [hname]
      exact h.writes_temporary h.serves.leads hD' (.retired hs) hn
    refine .attempt (.of (Tame.rename (h.writes_entryDirectory hD) ?_).ok) fun _ _ => ?_
    · simpa [Path.joins_nil] using hretired [] (by simp)
    · refine .liftThen (Tame.removeAll fun names hn => (hretired names hn).reads) fun r _ => ?_
      cases r with
      | ok _ => exact .done trivial
      | error e => exact .lift (Tame.emit _)

theorem store {buildOutput warnings : String} {manifest : Manifest} (hmodule : P.Writes i env D module)
    (hname : ∀ n, module.fileName? = some n → IsPlain n) :
    P.Tame m i env D (fun r => ∀ a, r = .ok a → True) (c.store id module buildOutput warnings manifest).run := by
  refine h.openStaging.next ?_
  rintro _ rfl
  have hstaged {E : String → Prop} (hE : E ".staging") (s : String) (hs : s.length = 6) (names : List String)
      (hn : ∀ s ∈ names, IsPlain s) : P.Writes i env E (((Path.inDirectory env.directory c.stagingDirectory).join
        ("entry_" ++ id.name ++ "_" ++ s)).joins names) := by
    rw [inDirectory_stagingDirectory]
    exact h.writes_temporary h.serves.full hE (.entry hs) hn
  refine .inTemporary (fun s hs => hstaged (.inr rfl) s hs) fun s hs => ?_
  have hinside {E : String → Prop} (hE : E ".staging") {n : String} (hn : IsPlain n) :=
    hstaged hE s hs [n] (by simpa using hn)
  have hfile : ((Path.inDirectory env.directory c.stagingDirectory).join
      ("entry_" ++ id.name ++ "_" ++ s)).fileName? = some (stagedName id s) := by
    rw [inDirectory_stagingDirectory, Path.join_eq_joins, Path.join_eq_joins, Path.joins_joins]
    exact Path.fileName?_pair _ _ _
  have hself {E : String → Prop} (hE : E ".staging") := Path.joins_nil ▸ hstaged hE s hs [] (by simp)
  generalize (Path.inDirectory env.directory c.stagingDirectory).join ("entry_" ++ id.name ++ "_" ++ s) = staged at *
  cases hf : module.fileName? with
  | none => exact .fails
  | some n =>
    refine .attempt (moveFile (hmodule.mono fun _ => .inl) (hinside (.inr rfl) (hname n hf))) fun _ _ => ?_
    refine .attempt (writeTexts fun t ht => hinside (.inr rfl) (Cache.plain_texts _ _ _ t ht)) fun _ _ => ?_
    refine (Opens.of (opens_createAll h.serves.leads h.models (by decide)) _).next fun _ _ => ?_
    refine .attempt (h.retire (.inr rfl) (.inl (.inr rfl)) hs hfile) fun _ _ => ?_
    refine .attempt (.of (Tame.rename (hself (.inl (.inr rfl))) (h.writes_entryDirectory (.inr rfl))).ok)
      fun _ _ => .done trivial

omit h in
theorem leave {work : Path} {files : List (String × Bytes)} (hf : ∀ f ∈ files, IsPlain f.1)
    (hw : ∀ n, IsPlain n → P.Writes i env D (work.join n)) :
    P.Tame m i env D (fun _ => True) (CompiledModels.leave work files) := by
  induction files with
  | nil => exact .pure trivial
  | cons f files ih =>
    exact (Tame.write (hw f.1 (hf f (by simp))) _).bind fun _ _ => ih fun f h => hf f (by simp [h])

omit h in
theorem build (g : Toolwork) {work : Path} (hw : ∀ n, IsPlain n → P.Writes i env D (work.join n)) :
    P.Tame m i env D (fun r => ∀ o, r = .ok o → ∃ n, IsPlain n ∧ o.file = work.join n)
      (g.build work).run := by
  refine .liftThen (leave g.plain hw) fun _ _ => ?_
  cases hg : g.result with
  | error e => exact .fails
  | ok r => exact .done ⟨r.1, g.named r hg, rfl⟩

theorem compileWith {source : String} {translate : Attempt TranslationError Translation}
    {build : String → Path → Attempt BuildError BuildOutput}
    (ht : ∀ D, P.Tame m i env D (fun r => ∀ a, r = .ok a → True) translate.run)
    (hb : ∀ D code work, (∀ n, IsPlain n → P.Writes i env D (work.join n)) →
      P.Tame m i env D (fun r => ∀ o, r = .ok o → ∃ n, IsPlain n ∧ o.file = work.join n)
        (build code work).run) :
    P.Tame m i env D (fun r => ∀ a, r = .ok a → True) (c.compileWith id source translate build).run := by
  refine (h.openStaging.of _).next ?_
  rintro _ rfl
  have hwork (s : String) (hs : s.length = 6) (names : List String) (hn : ∀ s ∈ names, IsPlain s) :
      P.Writes i env (fun s => D s ∨ s = ".staging") (((Path.inDirectory env.directory c.stagingDirectory).join
        ("build_" ++ id.name ++ "_" ++ s)).joins names) := by
    rw [inDirectory_stagingDirectory]
    exact h.writes_temporary h.serves.full (.inr rfl) (.build hs) hn
  refine .inTemporary hwork fun s hs => ?_
  have hinside (n : String) (hn : IsPlain n) := hwork s hs [n] (by simpa using hn)
  have hfile (n : String) : (((Path.inDirectory env.directory c.stagingDirectory).join
      ("build_" ++ id.name ++ "_" ++ s)).join n).fileName? = some n := by
    rw [Path.join_eq_joins, Path.join_eq_joins, Path.joins_joins]
    exact Path.fileName?_pair _ _ _
  generalize (Path.inDirectory env.directory c.stagingDirectory).join ("build_" ++ id.name ++ "_" ++ s) = work at *
  refine .attempt (.of (ht _)) fun translation _ => ?_
  refine .attempt (.of (hb _ _ work hinside)) ?_
  rintro output ⟨n, hn, hout⟩
  refine .liftThen Tame.now fun now _ => ?_
  refine .attempt (.of (h.store (hout ▸ hinside n hn) fun n' hn' => ?_)) fun file _ => ?_
  · rw [hout, hfile, Option.some.injEq] at hn'
    exact hn' ▸ hn
  · exact .liftThen (Tame.emit _) fun _ _ => .done trivial

end Storing

variable {ns : List Nat} {w w' : World}

theorem lock (hx : P.At i env D ns w w') :
    P.Twin m i (fun r v v' => P.At i env D (r.toOption.toList ++ ns) v v') (c.lock id).run (c.lock id).run w w' := by
  have hlocks : P.Opens m i env D ".locks" (fun _ => True) (Attempt.of (createAll c.locksDirectory)
      (CacheError.io c.locksDirectory)).run :=
    Opens.of (opens_createAll h.serves.leads h.locks (by decide)) _
  have hplain : IsPlain (id.name ++ ".lock") := id.plain_append _
  have hfile : c.lockFile id = c.root.joins [".locks", id.name ++ ".lock"] := by
    simp [Cache.lockFile, Cache.locksDirectory, Path.join, Path.joins]
  refine .attempt ((hlocks ns w w' hx).weaken fun r v v' hy =>
    ⟨fun _ hr => ?_, fun e _ u hu => hy.1.leaves hu⟩)
  have hz := (hy.2 _ hr).1
  refine .attempt (.of ?_)
  rw [hfile]
  refine (twin_openLockFile h.serves.leads (.inr rfl) h.lockFile (by decide) hplain hz).weaken
    fun r v v' hy u hu => ⟨fun n hn => ?_, fun e he u' hu' => ?_⟩
  · cases r with
    | error e => simp [Except.mapError] at hn
    | ok n' =>
      obtain rfl : n' = n := by simpa [Except.mapError] using hn
      refine .attempt (.of ((twin_acquire List.mem_cons_self (hy.leaves hu)).weaken fun r v v' hy u hu =>
        ⟨fun _ _ => .pure fun u' hu' => ?_, fun e _ u' hu' => ?_⟩))
      · exact ((hy.leaves hu).leaves hu').weaken fun _ => .inl
      · exact (((hy.leaves hu).leaves hu').weaken fun _ => .inl).drop fun n hn => List.mem_cons_of_mem _ hn
  · cases r with
    | error e => exact ((hy.leaves hu).leaves hu').weaken fun _ => .inl
    | ok n => simp [Except.mapError] at he

/-- A module to be stored lies where the caller has it as its own, and what is to be removed has a name
that files can have. -/
def Holds (P : Plots ι) (i : ι) (env : Environment) (id : ModelIdentity) : Chore → Prop
  | .store module .. => P.Writes i env (fun _ => False) module ∧ ∀ n, module.fileName? = some n → IsPlain n
  | .delete => IsProper id.name
  | _ => True

omit h in
theorem answers {p : Program α} {Q : α → Prop} {ns : List Nat} (hp : P.Tame m i env D Q p)
    (answer : α → Chore.Answer) (hx : P.At i env D ns w w') :
    P.Twin m i (fun a v v' => P.At i env D a.2 v v') (p >>= fun a => pure (answer a, ns))
      (p >>= fun a => pure (answer a, ns)) w w' :=
  .bind ((hp ns w w' hx).weaken fun _ _ _ hy => .pure fun _ hu => hy.1.leaves hu)

theorem chore {chore : Chore} (hc : Holds P i env id chore) (hx : P.At i env (fun _ => False) ns w w') :
    P.Twin m i (fun a v v' => P.At i env (fun _ => False) a.2 v v') (chore.program c id ns)
      (chore.program c id ns) w w' := by
  cases chore with
  | lock =>
    refine .bind ((h.lock hx).weaken fun r v v' hy => ?_)
    cases r with
    | ok n => exact .pure fun u hu => hy.leaves hu
    | error e => exact .pure fun u hu => hy.leaves hu
  | unlock =>
    cases ns with
    | nil => exact .pure fun u hu => hx.leaves hu
    | cons n ns =>
      refine .bind ((twin_release List.mem_cons_self hx).weaken fun _ v v' hy => .pure fun u hu => ?_)
      exact (hy.leaves hu).drop fun n hn => List.mem_cons_of_mem _ hn
  | exists? => exact answers h.exists? _ hx
  | modulePath => exact answers h.modulePath _ hx
  | store module buildOutput warnings manifest => exact answers (h.store hc.1 hc.2) _ hx
  | loadBuildOutput => exact answers (h.readArtifact (by decide)) _ hx
  | loadWarnings => exact answers (h.readArtifact (by decide)) _ hx
  | loadManifest => exact answers h.loadManifest _ hx
  | delete => exact answers (h.delete hc) _ hx
  | compile source tools =>
    exact answers (h.compileWith (fun _ => .pure fun _ _ => trivial) fun _ _ _ hw => build tools hw) _ hx

/-- Whatever a caller is to do, it comes to the same beside others as alone. -/
theorem all {chores : List Chore} (hc : ∀ chore ∈ chores, Holds P i env id chore)
    (hx : P.At i env (fun _ => False) ns w w') :
    P.Twin m i (fun _ v v' => P.At i env (fun _ => False) [] v v') (Chore.all c id ns chores)
      (Chore.all c id ns chores) w w' := by
  induction chores generalizing ns w w' with
  | nil => exact .pure fun u hu => (hx.leaves hu).drop (by simp)
  | cons chore chores ih =>
    refine .bind ((h.chore (hc chore (by simp)) hx).weaken fun a v v' hy => ?_)
    refine .bind ((ih (fun chore hm => hc chore (by simp [hm])) hy).weaken fun answers u u' hz => ?_)
    exact .pure fun t ht => hz.leaves ht

end Houses

end Plots

end CompiledModels
