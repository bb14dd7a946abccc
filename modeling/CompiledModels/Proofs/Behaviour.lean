import CompiledModels.Proofs.Habits

/-!
The programs of the cache work in its directory and in those for temporary files only.
-/

namespace CompiledModels

open Files Program

/-- The programs that an engine starts. -/
inductive Engine.Starts (e : Engine) (env : Environment) : Invocation → Prop
  | translator (id : ModelIdentity) (s : String) : Starts e env
      ⟨e.translator.program, Translator.arguments id ((Path.inDirectory env.directory
        e.cache.root).joins [".staging", "stanbind_" ++ s, id.name ++ ".stan"]), .piped, .piped⟩
  | probe (c : Compiler) : Starts e env ⟨c.executable, ["--version"], .discarded, .discarded⟩
  | compiler (c : Compiler) (id : ModelIdentity) (s s' number : String) : Starts e env
      ⟨c.executable, e.builder.toolchain.arguments c
        [(Path.inDirectory env.directory env.temporaryDirectory).joins
            ["stanbind_build_" ++ s, id.name ++ ".cpp"],
          (Path.inDirectory env.directory env.temporaryDirectory).joins
            ["stanbind_build_" ++ s, Glue.fileName]]
        ((Path.inDirectory env.directory e.cache.root).joins
          [".staging", "build_" ++ id.name ++ "_" ++ s', ModuleFile.name id number]),
        .piped, .inherited⟩

/-- An engine on the cache of an estate. -/
structure Engine.Settled (e : Engine) (E : Estate) (env : Environment) : Prop where
  serves : E.cache.Serves env e.cache.root
  temp : ∃ k, (E.temp k).Leads env.location (Path.inDirectory env.directory env.temporaryDirectory)
  scratchRoot : e.translator.scratchRoot = some e.cache.stagingDirectory

variable {E : Estate} {env : Environment} {tools : Invocation → Prop} {e : Engine}
  {id : ModelIdentity}

theorem obeys_quiet (s : Step) (hs : s.isQuiet = true) : s.Obeys E env tools := by
  cases s <;> simp_all [Step.isQuiet, Step.isIdle, Step.Obeys]

theorem obeys_prompt (s : Step) (hs : s.isPrompt = true) : s.Obeys E env tools :=
  obeys_quiet s (Step.isQuiet_of_isPrompt hs)

theorem spells_yard {q : Path} (hq : E.cache.Leads env.location q) {s : String} (hs : IsPlain s)
    (hl : s ≠ ".locks") {names : List String} (hn : ∀ n ∈ names, IsPlain n) :
    ∃ l, E.Spells env.location (q.joins (s :: names)) l ∧ E.yard l :=
  ⟨_, .cache hq (by simp) (List.forall_mem_cons.mpr ⟨hs, hn⟩), .inr ⟨s, names, hl, rfl⟩⟩

theorem spells_scratch {q : Path} (hq : ∃ k, (E.temp k).Leads env.location q) (s : String)
    {names : List String} (hn : ∀ n ∈ names, IsPlain n) :
    ∃ l, E.Spells env.location (q.joins (("stanbind_build_" ++ s) :: names)) l ∧ E.yard l :=
  have ⟨k, hq⟩ := hq
  ⟨_, .temp hq hn, .inl ⟨k, s, names, by simp⟩⟩

theorem Path.fileName?_joins (p : Path) (names : List String) (s : String) :
    (p.joins (names ++ [s])).fileName? = some s := by
  simp [Path.fileName?, Path.components, Path.joins, ← List.append_assoc]

theorem above_join {p q : Path} {d : String} (h : Above (p.join d) q) : q = p.join d ∨ Above p q := by
  induction h with
  | self => exact .inl rfl
  | @parent q q' _ hq ih =>
    rcases ih with rfl | ih
    · refine .inr ?_
      have hparent : (p.join d).parent? = some p := by
        simp only [Path.parent?, Path.join]
        cases h : p.tail ++ [d] with
        | nil => simp at h
        | cons a rest => simp [← h]
      rw [hparent, Option.some.injEq] at hq
      exact hq ▸ .self
    · exact .inr (.parent ih hq)

abbrev Behaves {α : Type} (E : Estate) (env : Environment) (tools : Invocation → Prop)
    (post : α → Prop) (p : Program α) : Prop :=
  p.Only (Step.Credible env) (Step.Obeys E env tools) post

section Cache

variable {c : Cache} (hS : E.cache.Serves env c.root)
include hS

theorem createAll_behaves {d : String} (hd : IsPlain d) :
    Behaves E env tools (fun _ => True) (createAll (c.root.join d)) := by
  refine createUpTo_only obeys_prompt _ fun q hq => ?_
  rcases above_join hq with rfl | hq
  · exact .inl ⟨_, Estate.Spells.cache hS.leads (by simp) (by simpa using hd)⟩
  · exact .inr ⟨c.root, hS.held, hq⟩

omit hS in
theorem removeAll_behaves {q : Path} (hq : E.cache.Leads env.location q) {s : String}
    (hs : IsPlain s) (hl : s ≠ ".locks") {names : List String} (hn : ∀ n ∈ names, IsPlain n) :
    Behaves E env tools (fun _ => True) (removeAll (q.joins (s :: names))) := by
  refine removeAll_only obeys_prompt plain_of_credible fun more hm => ?_
  have h := spells_yard hq hs hl (List.forall_mem_append.mpr ⟨hn, hm⟩)
  rw [Path.joins_joins]
  exact ⟨h, h⟩

theorem openStaging_behaves : Behaves E env tools
    (fun r => ∀ dir, r = .ok dir → dir = c.stagingDirectory) c.openStaging.run :=
  .ofThen (createAll_behaves hS (by decide)) (fun _ _ dir h => (Except.ok.inj h).symm)
    fun _ _ _ h => by simp at h

omit hS in
theorem removeDirectory_behaves {p : Path} (h : Behaves E env tools (fun _ => True) (removeAll p)) :
    Behaves E env tools (fun _ => True) (Cache.removeDirectory p).run := by
  refine .liftThen h fun r _ => ?_
  cases r with
  | ok _ => trivial
  | error e =>
    simp only
    split <;> trivial

theorem delete_behaves : Behaves E env tools (fun _ => True) (c.delete id).run := by
  refine removeDirectory_behaves ?_
  rw [Cache.entryDirectory_eq]
  exact removeAll_behaves hS.leads (by decide) (by decide) (by simpa using id.isPlain)

theorem clear_behaves : Behaves E env tools (fun _ => True) c.clear.run := by
  refine .attempt (removeDirectory_behaves ?_) (fun _ _ => removeDirectory_behaves ?_) fun _ h => h
  · exact removeAll_behaves hS.leads (by decide) (by decide) (List.forall_mem_nil _)
  · exact removeAll_behaves hS.leads (by decide) (by decide) (List.forall_mem_nil _)

theorem inStaging_behaves {α ε : Type} {start : String} {wrap : FileError → ε}
    {work : Path → Attempt ε α} {post : Except ε α → Prop} (hstart : ∀ s, IsPlain (start ++ s))
    (hwork : ∀ s, Behaves E env tools post
      (work ((Path.inDirectory env.directory c.root).joins [".staging", start ++ s])).run)
    (herr : ∀ e, post (.error (wrap e))) :
    Behaves E env tools post (Attempt.inTemporary start c.stagingDirectory wrap work).run := by
  have hdir (s : String) : (Path.inDirectory env.directory c.stagingDirectory).join (start ++ s) =
      (Path.inDirectory env.directory c.root).joins [".staging", start ++ s] := by
    rw [Cache.stagingDirectory, Path.join_eq_joins (s := ".staging"), Path.inDirectory_joins,
      Path.joins_join]
    rfl
  have hyard (s : String) {names : List String} (hn : ∀ n ∈ names, IsPlain n) :=
    spells_yard hS.full (s := ".staging") (by decide) (by decide)
      (List.forall_mem_cons.mpr ⟨hstart s, hn⟩)
  refine inTemporary_only obeys_prompt (fun s => ?_) (fun s names hn => ?_) (fun s => ?_) herr
  · rw [hdir]
    obtain ⟨l, hl, _⟩ := hyard s (List.forall_mem_nil _)
    exact .inl ⟨l, hl⟩
  · rw [hdir, Path.joins_joins]
    exact ⟨hyard s hn, hyard s hn⟩
  · rw [hdir]
    exact hwork s

omit hS in
theorem writeTexts_behaves {q : Path} (texts : List (String × String))
    (h : ∀ text ∈ texts, ∃ l, E.Spells env.location (q.join text.1) l ∧ E.yard l) :
    Behaves E env tools (fun _ => True) (Cache.writeTexts q texts).run := by
  induction texts with
  | nil => trivial
  | cons text texts ih =>
    refine .ofThen (Q := fun _ => True) (.perform (h text (by simp)) fun _ _ => trivial)
      (fun _ _ => ih fun text ht => h text (by simp [ht])) fun _ _ => trivial

omit hS in
theorem moveFile_behaves {p q : Path} (hp : ∃ l, E.Spells env.location p l ∧ E.yard l)
    (hq : ∃ l, E.Spells env.location q l ∧ E.yard l) :
    Behaves E env tools (fun _ => True) (Cache.moveFile p q).run := by
  refine .liftThen (Q := fun _ => True) (.perform ⟨hp, hq⟩ fun _ _ => trivial) fun r _ => ?_
  cases r with
  | ok _ => trivial
  | error e =>
    refine .ofThen (Q := fun _ => True) (.perform hq fun _ _ => trivial) (fun _ _ => ?_)
      fun _ _ => trivial
    exact .liftThen (Q := fun _ => True) (.perform hp fun _ _ => trivial) fun _ _ => trivial

theorem spells_entry : ∃ l, E.Spells env.location (c.entryDirectory id) l ∧ E.yard l := by
  rw [Cache.entryDirectory_eq]
  exact spells_yard hS.leads (by decide) (by decide) (by simpa using id.isPlain)

theorem retire_behaves (staged : Path) :
    Behaves E env tools (fun _ => True) (c.retire id staged).run := by
  refine .liftThen (pathExists_only (obeys_prompt _ rfl)) fun b _ => ?_
  split
  case isFalse => trivial
  let name := "retired_" ++ id.name ++ "_" ++ staged.fileName?.getD "entry"
  have hplain : IsPlain name := by
    rw [show name = "retired_" ++ (id.name ++ "_" ++ staged.fileName?.getD "entry") by
      simp [name, String.append_assoc]]
    exact plain_of_start (by decide) _
  have hb : c.stagingDirectory.join name = c.root.joins [".staging", name] := by
    simp [Cache.stagingDirectory, Path.join, Path.joins]
  have hretired := spells_yard hS.leads (s := ".staging") (by decide) (by decide)
    (List.forall_mem_singleton.mpr hplain)
  rw [← hb] at hretired
  refine .ofThen (Q := fun _ => True) (.perform ⟨spells_entry hS, hretired⟩ fun _ _ => trivial)
    (fun _ _ => ?_) fun _ _ => trivial
  have hremove : Behaves E env tools (fun _ => True) (removeAll (c.stagingDirectory.join name)) := by
    rw [hb]
    exact removeAll_behaves hS.leads (by decide) (by decide) (by simpa using hplain)
  refine .liftThen hremove fun r _ => ?_
  cases r with
  | ok _ => trivial
  | error e => exact (quiet_only obeys_quiet rfl).next fun _ _ => trivial

theorem store_behaves {p : Path} {output warnings : String} {m : Manifest}
    (hp : ∃ l, E.Spells env.location p l ∧ E.yard l)
    (hname : ∀ name, p.fileName? = some name → IsPlain name) :
    Behaves E env tools (fun _ => True) (c.store id p output warnings m).run := by
  have hstart (s : String) : IsPlain ("entry_" ++ id.name ++ "_" ++ s) := by
    rw [String.append_assoc, String.append_assoc]
    exact plain_of_start (by decide) _
  refine .attempt (openStaging_behaves hS) (fun dir hdir => ?_) fun _ _ => trivial
  obtain rfl := hdir dir rfl
  refine inStaging_behaves hS hstart (fun s => ?_) fun _ => trivial
  have hyard {n : String} (hn : IsPlain n) : ∃ l, E.Spells env.location
      (((Path.inDirectory env.directory c.root).joins
        [".staging", "entry_" ++ id.name ++ "_" ++ s]).join n) l ∧ E.yard l := by
    rw [Path.joins_join]
    exact spells_yard hS.full (by decide) (by decide) (by simpa using ⟨hstart s, hn⟩)
  cases hf : p.fileName? with
  | none => trivial
  | some name =>
    refine .attempt (moveFile_behaves hp (hyard (hname name hf))) (fun _ _ => ?_) fun _ _ => trivial
    refine .attempt (writeTexts_behaves _ fun text ht => hyard (Cache.plain_texts _ _ _ text ht))
      (fun _ _ => ?_) fun _ _ => trivial
    refine .ofThen (createAll_behaves hS (by decide)) (fun _ _ => ?_) fun _ _ => trivial
    refine .attempt (retire_behaves hS _) (fun _ _ => ?_) fun _ _ => trivial
    refine .ofThen (Q := fun _ => True) (.perform ⟨?_, spells_entry hS⟩ fun _ _ => trivial)
      (fun _ _ => trivial) fun _ _ => trivial
    exact spells_yard hS.full (by decide) (by decide) (by simpa using hstart s)

end Cache

theorem ModuleFile.plain_name (id : ModelIdentity) (number : String) :
    IsPlain (ModuleFile.name id number) := by
  simp only [ModuleFile.name, String.append_assoc]
  exact plain_of_start (by decide) _

section Engine

variable (hE : e.Settled E env) (htools : ∀ i, e.Starts env i → tools i)
include hE htools

omit hE htools in
theorem writeSources_behaves (sources : List (Path × String))
    (h : ∀ source ∈ sources, ∃ l, E.Spells env.location source.1 l ∧ E.yard l) :
    Behaves E env tools (fun _ => True) (Builder.writeSources sources).run := by
  induction sources with
  | nil => trivial
  | cons source sources ih =>
    refine .ofThen (Q := fun _ => True) (.perform (h source (by simp)) fun _ _ => trivial)
      (fun _ _ => ih fun source hs => h source (by simp [hs])) fun _ _ => trivial

theorem translate_behaves {source : String} :
    Behaves E env tools (fun _ => True) (e.translator.translate source id).run := by
  rw [Translator.translate_eq]
  refine .liftThen (quiet_only obeys_quiet rfl) fun v _ => ?_
  simp only [hE.scratchRoot, Option.getD_some]
  refine inStaging_behaves hE.serves (plain_of_start (by decide)) (fun s => ?_) fun _ => trivial
  have hfile : ((Path.inDirectory env.directory e.cache.root).joins [".staging", "stanbind_" ++ s]).join
      (id.name ++ ".stan") = (Path.inDirectory env.directory e.cache.root).joins
        [".staging", "stanbind_" ++ s, id.name ++ ".stan"] := Path.joins_join
  have hplain : IsPlain ("stanbind_" ++ s) := plain_of_start (by decide) s
  have hyard := spells_yard hE.serves.full (s := ".staging") (by decide) (by decide)
    (List.forall_mem_cons.mpr ⟨hplain, List.forall_mem_singleton.mpr (id.plain_append ".stan")⟩)
  rw [← hfile] at hyard
  refine .ofThen (Q := fun _ => True) (.perform hyard fun _ _ => trivial) (fun _ _ => ?_)
    fun _ _ => trivial
  refine transcribe_only obeys_quiet ?_
  rw [hfile]
  exact htools _ (.translator id s)

theorem build_behaves {source s' : String} :
    Behaves E env tools (fun r => ∀ output, r = .ok output → ∃ number, output.file =
        (Path.inDirectory env.directory e.cache.root).joins
          [".staging", "build_" ++ id.name ++ "_" ++ s', ModuleFile.name id number])
      (e.builder.build source id ((Path.inDirectory env.directory e.cache.root).joins
        [".staging", "build_" ++ id.name ++ "_" ++ s'])).run := by
  rw [Builder.build_eq]
  refine .attempt (find_only obeys_quiet fun c => htools _ (.probe c)) (fun c _ => ?_)
    fun _ _ _ h => by simp at h
  refine .liftThen (quiet_only obeys_quiet rfl) fun v hv => ?_
  obtain rfl : env = v := hv.symm
  have hscratch (s : String) {names : List String} (hn : ∀ n ∈ names, IsPlain n) :=
    spells_scratch hE.temp s hn
  refine inTemporary_only obeys_prompt (fun s => ?_) (fun s names hn => ?_) (fun s => ?_)
    fun _ _ h => by simp at h
  · obtain ⟨l, hl, _⟩ := hscratch s (List.forall_mem_nil _)
    exact .inl ⟨l, hl⟩
  · have hjoin : ((Path.inDirectory env.directory env.temporaryDirectory).join
        ("stanbind_build_" ++ s)).joins names =
        (Path.inDirectory env.directory env.temporaryDirectory).joins
          (("stanbind_build_" ++ s) :: names) := by
      rw [Path.join_eq_joins, Path.joins_joins, List.singleton_append]
    rw [hjoin]
    exact ⟨hscratch s hn, hscratch s hn⟩
  have hfile (n : String) : ((Path.inDirectory env.directory env.temporaryDirectory).join
      ("stanbind_build_" ++ s)).join n = (Path.inDirectory env.directory
        env.temporaryDirectory).joins ["stanbind_build_" ++ s, n] := by
    simp [Path.join, Path.joins]
  have hyard {n : String} (hn : IsPlain n) := hscratch s (List.forall_mem_singleton.mpr hn)
  refine .attempt (writeSources_behaves _ ?_) (fun _ _ => ?_) fun _ _ _ h => by simp at h
  · simp only [List.forall_mem_cons]
    rw [hfile, hfile]
    exact ⟨hyard (id.plain_append ".cpp"), hyard (by decide), by simp⟩
  rw [hfile, hfile]
  refine (compileFiles_only obeys_quiet fun number => ?_).weaken fun r hr output h => ?_
  · rw [Path.joins_join]
    exact htools _ (.compiler c id s s' number)
  · obtain ⟨nanos, hnanos⟩ := hr output h
    exact ⟨_, hnanos.trans Path.joins_join⟩

theorem compileModel_behaves {source : String} :
    Behaves E env tools (fun _ => True)
      (e.cache.compileModel id source e.translator e.builder).run := by
  have hstart (s : String) : IsPlain ("build_" ++ id.name ++ "_" ++ s) := by
    rw [String.append_assoc, String.append_assoc]
    exact plain_of_start (by decide) _
  refine .ofThen (openStaging_behaves hE.serves) (fun dir hdir => ?_) fun _ _ => trivial
  obtain rfl := hdir dir rfl
  refine inStaging_behaves hE.serves hstart (fun s => ?_) fun _ => trivial
  refine .ofThen (translate_behaves hE htools) (fun translation _ => ?_) fun _ _ => trivial
  refine .ofThen (build_behaves hE htools) (fun output hout => ?_) fun _ _ => trivial
  obtain ⟨number, hfile⟩ := hout output rfl
  refine .liftThen (quiet_only obeys_quiet rfl) fun nanos _ => ?_
  refine .ofThen (store_behaves hE.serves ?_ fun name hn => ?_) (fun _ _ => ?_) fun _ _ => trivial
  · rw [hfile]
    exact spells_yard hE.serves.full (by decide) (by decide)
      (List.forall_mem_cons.mpr ⟨hstart s, List.forall_mem_singleton.mpr
        (ModuleFile.plain_name id number)⟩)
  · rw [hfile] at hn
    obtain rfl := Option.some.inj ((Path.fileName?_joins _ [_, _] _).symm.trans hn)
    exact ModuleFile.plain_name id number
  · exact .liftThen (quiet_only obeys_quiet rfl) fun _ _ => trivial

end Engine

end CompiledModels
