import CompiledModels.Proofs.Locking
import CompiledModels.Proofs.Shelf
import CompiledModels.Proofs.Stages

/-!
An entry that was published can be read: the paths to it are shorter than those by which it was put
together.
-/

namespace CompiledModels

open Files Program

variable {act : Answers} {m : Machine} {c : Cache} {id : ModelIdentity} {x y : Moment} {p q dir : Path}
  {α ε : Type}

section Paths

theorem makeFresh_ends {start : String} {tries : Nat}
    (h : (makeFresh start dir tries).Ends act x (.ok p) y) : ∃ s, p = dir.join (start ++ s) := by
  induction tries generalizing x with
  | zero => simpa using (Ends.pure_iff.mp h).1
  | succ tries ih =>
    obtain ⟨s, z, -, h⟩ := Ends.bind_iff.mp h
    obtain ⟨r, u, -, h⟩ := Ends.bind_iff.mp h
    cases r with
    | ok _ => exact ⟨s, Except.ok.inj (Ends.pure_iff.mp h).1⟩
    | error e =>
      simp only at h
      split at h
      · exact ih h
      · simpa using (Ends.pure_iff.mp h).1

theorem inTemporary_ends {start : String} {wrap : FileError → ε} {work : Path → Attempt ε α} {a : α}
    (h : (Attempt.inTemporary start dir wrap work).run.Ends act x (.ok a) y) :
    ∃ from' s u v, (work ((Path.inDirectory from' dir).join (start ++ s))).run.Ends act u (.ok a) v := by
  rcases Ends.ofThen_iff.mp h with ⟨e, -, he⟩ | ⟨p, z, hp, h⟩
  · simp at he
  · obtain ⟨env, u, -, hp⟩ := Ends.bind_iff.mp hp
    obtain ⟨s, rfl⟩ := makeFresh_ends hp
    obtain ⟨v, h, -⟩ := Ends.andThen_iff.mp h
    exact ⟨_, s, z, v, h⟩

theorem short_entry {from' : Path} {s n : String}
    (h : Tree.Short (((Path.inDirectory from' c.stagingDirectory).join
      ("entry_" ++ id.name ++ "_" ++ s)).join n)) :
    Tree.Short ((c.entryDirectory id).join n) := by
  have hfull := Path.size_le_inDirectory (p := c.root) from'
  have hstaging : Path.inDirectory from' c.stagingDirectory =
      (Path.inDirectory from' c.root).join ".staging" := by
    rw [Cache.stagingDirectory, Path.join_eq_joins, Path.inDirectory_joins, Path.join_eq_joins]
  have h₁ := Path.size_le_join (Path.inDirectory from' c.root) ".staging"
  rw [← hstaging] at h₁
  have h₂ := Path.size_le_join (Path.inDirectory from' c.stagingDirectory)
    ("entry_" ++ id.name ++ "_" ++ s)
  have h₃ := Path.size_le_join ((Path.inDirectory from' c.stagingDirectory).join
    ("entry_" ++ id.name ++ "_" ++ s)) n
  have h₄ := Path.size_join_le c.root ModelIdentity.modelNamespace
  have h₅ := Path.size_join_le c.modelsDirectory id.name
  have h₆ := Path.size_join_le (c.entryDirectory id) n
  have hsizes : ".staging".utf8ByteSize = 8 ∧ ModelIdentity.modelNamespace.utf8ByteSize = 5 ∧
      "entry_".utf8ByteSize = 6 := by decide
  simp only [String.utf8ByteSize_append] at h₂
  rw [Tree.Short] at h ⊢
  rw [Cache.modelsDirectory] at h₅
  rw [Cache.entryDirectory, Cache.modelsDirectory] at h₆ ⊢
  omega

end Paths

section Stages

variable (hact : ∀ w s r w', act w s r w' → Step.flawed m w s r w')
include hact

theorem moveFile_short (h : (Cache.moveFile p q).run.Ends act x (.ok ()) y) : Tree.Short q := by
  obtain ⟨r, z, hr, h⟩ := Ends.liftThen_iff.mp h
  obtain ⟨w, hw, rfl⟩ := Ends.perform_iff.mp hr
  cases r with
  | ok _ =>
    rcases Step.faulty.rename (Step.faulty_of_flawed (hact _ _ _ _ hw) (by simp) (by simp)) with
      ⟨e, he, -⟩ | ⟨-, t, ht, -⟩
    · simp at he
    · obtain ⟨_, _, -, hq, -⟩ := Tree.rename_eq_ok ht
      exact Tree.short_of_resolve hq
  | error e =>
    rcases Ends.ofThen_iff.mp h with ⟨e', -, he⟩ | ⟨_, u, hu, -⟩
    · simp at he
    · obtain ⟨w', hw', rfl⟩ := Ends.perform_iff.mp hu
      rcases Step.faulty.copy (Step.faulty_of_flawed (hact _ _ _ _ hw') (by simp) (by simp)) with
        (⟨e, he, -⟩ | ⟨-, t, ht, -⟩) | ⟨e, he, -⟩
      · simp at he
      · obtain ⟨_, _, _, -, l, hq, -⟩ := Tree.copy_eq_ok.mp ht
        exact Tree.short_of_resolve hq
      · simp at he

theorem writeTexts_short {texts : List (String × String)}
    (h : (Cache.writeTexts dir texts).run.Ends act x (.ok ()) y) :
    ∀ n ∈ texts.map (·.1), Tree.Short (dir.join n) := by
  induction texts generalizing x with
  | nil => simp
  | cons text texts ih =>
    rcases Ends.attempt_iff.mp h with ⟨e, -, he⟩ | ⟨_, z, hz, h⟩
    · simp at he
    · obtain ⟨r, hr, hok⟩ := Ends.of_iff.mp hz
      obtain ⟨w, hw, rfl⟩ := Ends.perform_iff.mp hr
      cases r with
      | error e => cases hok
      | ok _ =>
        refine List.forall_mem_cons.mpr ⟨?_, ih h⟩
        rcases Step.faulty.write (Step.faulty_of_flawed (hact _ _ _ _ hw) (by simp) (by simp)) with
          (⟨e, he, -⟩ | ⟨-, t, ht, -⟩) | ⟨e, he, -⟩
        · simp at he
        · obtain ⟨l, hl, -⟩ := Tree.write_eq_ok.mp ht
          exact Tree.short_of_resolve hl
        · simp at he

theorem store_short {module file : Path} {output warnings : String} {manifest : Manifest}
    (h : (c.store id module output warnings manifest).run.Ends act x (.ok file) y) :
    ∃ name, file = (c.entryDirectory id).join name ∧
      ∀ n ∈ name :: (Cache.texts output warnings manifest).map (·.1),
        Tree.Short ((c.entryDirectory id).join n) := by
  rcases Ends.attempt_iff.mp h with ⟨e, -, he⟩ | ⟨dir, z, hz, h⟩
  · simp at he
  obtain rfl : dir = c.stagingDirectory := by
    rcases Ends.ofThen_iff.mp hz with ⟨e, -, he⟩ | ⟨_, _, -, hret⟩
    · simp at he
    · exact Except.ok.inj (Ends.return_iff.mp hret).1
  obtain ⟨from', s, u, v, h⟩ := inTemporary_ends h
  cases hname : module.fileName? with
  | none =>
    simp only [hname] at h
    simpa using (Ends.throw_iff.mp h).1
  | some name =>
    simp only [hname] at h
    rcases Ends.attempt_iff.mp h with ⟨e, -, he⟩ | ⟨_, u₁, hmove, h⟩
    · simp at he
    rcases Ends.attempt_iff.mp h with ⟨e, -, he⟩ | ⟨_, u₂, htexts, h⟩
    · simp at he
    rcases Ends.ofThen_iff.mp h with ⟨e, -, he⟩ | ⟨_, u₃, -, h⟩
    · simp at he
    rcases Ends.attempt_iff.mp h with ⟨e, -, he⟩ | ⟨_, u₄, -, h⟩
    · simp at he
    rcases Ends.ofThen_iff.mp h with ⟨e, -, he⟩ | ⟨_, u₅, -, h⟩
    · simp at he
    refine ⟨name, Except.ok.inj (Ends.return_iff.mp h).1, List.forall_mem_cons.mpr
      ⟨short_entry (moveFile_short hact hmove), fun n hn => ?_⟩⟩
    exact short_entry (writeTexts_short hact htexts n hn)

theorem compileModel_short {source : String} {translator : Translator} {builder : Builder}
    {entry : CompiledEntry} (h : (c.compileModel id source translator builder).run.Ends act x (.ok entry) y) :
    ∃ name, entry.file = (c.entryDirectory id).join name ∧
      ∀ n ∈ name :: (Cache.texts entry.buildOutput entry.warnings entry.manifest).map (·.1),
        Tree.Short ((c.entryDirectory id).join n) := by
  rw [Cache.compileModel_eq] at h
  rcases Ends.ofThen_iff.mp h with ⟨e, -, he⟩ | ⟨dir, z, -, h⟩
  · simp at he
  obtain ⟨from', s, u, v, h⟩ := inTemporary_ends h
  rcases Ends.ofThen_iff.mp h with ⟨e, -, he⟩ | ⟨t, u₁, -, h⟩
  · simp at he
  rcases Ends.ofThen_iff.mp h with ⟨e, -, he⟩ | ⟨output, u₂, -, h⟩
  · simp at he
  obtain ⟨now, u₃, -, h⟩ := Ends.liftThen_iff.mp h
  rcases Ends.ofThen_iff.mp h with ⟨e, -, he⟩ | ⟨file, u₄, hstore, h⟩
  · simp at he
  obtain ⟨_, u₅, -, h⟩ := Ends.liftThen_iff.mp h
  obtain rfl := Except.ok.inj (Ends.return_iff.mp h).1
  exact store_short hact hstore

end Stages

end CompiledModels

namespace CompiledModels

open Files Program

variable {α β : Type} {act : Answers} {m : Machine} {E : Estate} {env : Environment} {e : Engine}
  {c : Cache} {tools : Invocation → Prop} {id : ModelIdentity} {source : String} {x y z : Moment}
  {w w' : World}

section Building

variable (hact : ∀ w s r w', act w s r w' → Step.flawed m w s r w') (hm : E.Orderly m tools)
  (hE : e.Settled E env) (htools : ∀ i, e.Starts env i → tools i)
include hact hm hE

theorem openStaging_makes {r : Except CacheError Path} (h : e.cache.openStaging.run.Ends act x r y)
    (hx : E.Calm x.world) (he : x.world.environment = env) :
    Makes E.cache.staging x y ∧ (∀ dir, r = .ok dir → x.files.Spot E.cache.staging) := by
  have hmakes {a : Except FileError Unit} {z : Moment}
      (hz : (createAll e.cache.stagingDirectory).Ends act x a z) :=
    createAll_makes hact hm hE.serves (by decide) hz hx he
  rcases Ends.ofThen_iff.mp h with ⟨err, hz, rfl⟩ | ⟨_, z, hz, hrest⟩
  · exact ⟨(hmakes hz).1, by simp⟩
  · obtain ⟨rfl, rfl⟩ := Ends.return_iff.mp hrest
    obtain ⟨hm, hd⟩ := hmakes hz
    refine ⟨hm, fun dir _ => ?_⟩
    rcases hm.added with ha | ⟨hn, -⟩
    · exact .inr (ha.symm.trans (hd rfl))
    · exact .inl hn

include htools

theorem compileModel_ends {r : Except Error CompiledEntry}
    (h : (e.cache.compileModel id source e.translator e.builder).run.Ends act x r y)
    (hx : E.Calm x.world) (he : x.world.environment = env) (hc : E.Cradle e.cache id x) :
    (E.Upholds x.world y.world ∧ x.world.Spares y.world) ∧
      E.Framed e.cache env True x.files (E.place id) y ∧ E.Rebuilt e.cache id r y := by
  have hbehaves : Behaves E env tools (fun _ => True)
      (e.cache.compileModel id source e.translator e.builder).run := compileModel_behaves hE htools
  obtain ⟨⟨-, hu⟩, hends⟩ := hbehaves.ends hact hm h hx he
  have hR : Workplace (.working act E env tools fun _ _ => True) E m env tools :=
    Workplace.working hact hm
  have hstart : E.Framed e.cache env True x.files (E.place id) x :=
    ⟨⟨hx.sound.cache, he⟩, fun k => ⟨hx.sound.temp k, he⟩, fun _ _ _ _ _ => rfl⟩
  refine ⟨⟨hu, hbehaves.spares hact hm h hx he⟩, ?_⟩
  by_cases hs : x.files.Spot E.cache.staging
  · exact (compileModel_rebuilt hE hR hx.sound.cache.wellFormed (fun _ _ _ => trivial)
      (fun _ l => Private.alone) hstart hs hc).steps_done (hends _)
  · rw [Cache.compileModel_eq] at h
    rcases Ends.ofThen_iff.mp h with ⟨err, hz, rfl⟩ | ⟨dir, z, hz, -⟩
    · obtain ⟨hmakes, -⟩ := openStaging_makes hact hm hE hz hx he
      have hsame {l : Location} (hl : l ≠ E.cache.staging) : y.files.get? l = x.files.get? l :=
        hmakes.changes.files l hl
      refine ⟨⟨⟨hu.calm.sound.cache, hu.environment.trans he⟩,
        fun k => ⟨hu.calm.sound.temp k, hu.environment.trans he⟩, fun l _ hl _ _ => hsame hl⟩,
        by simp, fun _ _ => hu.calm.sound.cache.wellFormed.bare ?_⟩
      exact (hsame (E.cache.entry_ne_staging id [] [] <| by simpa using ·)).trans hc.absent
    · exact absurd ((openStaging_makes hact hm hE hz hx he).2 dir rfl) hs

end Building

namespace Engine

/-- How far a compile has come that has to build. -/
inductive Progress
  | missed
  | locked
  | cleared
  | opened
  | placed (work : Path)
  | translated (work : Path) (t : Translation)
  | built (t : Translation) (o : BuildOutput)

def Progress.isCleared : Progress → Bool
  | .missed | .locked => false
  | _ => true

/-- A compile that began at `x` has come so far: all stages until then have succeeded. -/
inductive Comes (act : Answers) (e : Engine) (id : ModelIdentity) (source : String) (x : Moment) :
    Progress → Moment → Prop
  | missed {y : Moment} (h : (e.cached id source).Ends act x none y) : Comes act e id source x .missed y
  | locked {n : Nat} {b : Bool} {y z u v : Moment} (hc : Comes act e id source x .missed y)
      (hl : (e.cache.lock id).run.Ends act y (.ok n) z) (hn : (e.cached id source).Ends act z none u)
      (hi : (perform (.invalidate e.registry id.key)).Ends act u b v) : Comes act e id source x .locked v
  | cleared {y z : Moment} (hc : Comes act e id source x .locked y)
      (h : (e.cache.delete id).run.Ends act y (.ok ()) z) : Comes act e id source x .cleared z
  | opened {dir : Path} {y z : Moment} (hc : Comes act e id source x .cleared y)
      (h : e.cache.openStaging.run.Ends act y (.ok dir) z) : Comes act e id source x .opened z
  | placed {work : Path} {y z : Moment} (hc : Comes act e id source x .opened y)
      (h : (makeTemporary ("build_" ++ id.name ++ "_") e.cache.stagingDirectory).Ends act y (.ok work) z) :
      Comes act e id source x (.placed work) z
  | translated {work : Path} {t : Translation} {y z : Moment} (hc : Comes act e id source x (.placed work) y)
      (h : (e.translator.translate source id).run.Ends act y (.ok t) z) :
      Comes act e id source x (.translated work t) z
  | built {work : Path} {t : Translation} {o : BuildOutput} {y z : Moment}
      (hc : Comes act e id source x (.translated work t) y)
      (h : (e.builder.build t.code id work).run.Ends act y (.ok o) z) :
      Comes act e id source x (.built t o) z

def Progress.Fails (act : Answers) (e : Engine) (id : ModelIdentity) (source : String) (y z : Moment)
    (err : Error) : Progress → Prop
  | .missed => ∃ cause, (e.cache.lock id).run.Ends act y (.error cause) z ∧ err = .cache cause
  | .locked => ∃ cause, (e.cache.delete id).run.Ends act y (.error cause) z ∧ err = .cache cause
  | .cleared => ∃ cause, e.cache.openStaging.run.Ends act y (.error cause) z ∧ err = .cache cause
  | .opened => ∃ cause, (makeTemporary ("build_" ++ id.name ++ "_") e.cache.stagingDirectory).Ends act y
      (.error cause) z ∧ err = .cache (.io e.cache.stagingDirectory cause)
  | .placed _ => ∃ cause, (e.translator.translate source id).run.Ends act y (.error cause) z ∧
      err = .translation cause
  | .translated work t => ∃ cause, (e.builder.build t.code id work).run.Ends act y (.error cause) z ∧
      err = .build cause
  | .built t o => ∃ u now cause, (perform .now).Ends act y now u ∧
      (e.cache.store id o.file o.diagnostics t.warnings (.ofBuild id (o.file.fileName?.getD "") source
        o.compiler.executable.text (UInt64.ofNat (Duration.seconds ⟨now⟩)))).run.Ends act u (.error cause) z ∧
      err = .cache cause

variable {err : Error} {r : Except Error Compiled}

/-- A stage of a compile that ended at `y` was the first to fail. -/
structure FailsFirst (act : Answers) (e : Engine) (id : ModelIdentity) (source : String) (x y : Moment)
    (err : Error) (p : Progress) : Prop where
  fails : ∃ u z, Comes act e id source x p u ∧ p.Fails act e id source u z err ∧ z.past <:+ y.past

theorem FailsFirst.later {p : Progress} (h : FailsFirst act e id source x y err p) (hz : y.past <:+ z.past) :
    FailsFirst act e id source x z err p := by
  obtain ⟨u, v, hc, hf, hv⟩ := h
  exact ⟨u, v, hc, hf, hv.trans hz⟩

theorem Comes.compileModel_fails (hc : Comes act e id source x .cleared y)
    (h : (e.cache.compileModel id source e.translator e.builder).run.Ends act y (.error err) z) :
    ∃ p, p.isCleared = true ∧ FailsFirst act e id source x z err p := by
  rw [Cache.compileModel_eq] at h
  rcases Ends.ofThen_iff.mp h with ⟨cause, hz, herr⟩ | ⟨dir, u, hu, h⟩
  · exact ⟨.cleared, rfl, y, z, hc, ⟨cause, hz, Except.error.inj herr⟩, List.suffix_refl _⟩
  have hc := hc.opened hu
  obtain rfl : dir = e.cache.stagingDirectory := by
    rcases Ends.ofThen_iff.mp hu with ⟨_, -, herr⟩ | ⟨_, _, -, hret⟩
    · simp at herr
    · exact Except.ok.inj (Ends.return_iff.mp hret).1
  rcases Ends.ofThen_iff.mp h with ⟨cause, hz, herr⟩ | ⟨work, v, hv, h⟩
  · exact ⟨.opened, rfl, u, z, hc, ⟨cause, hz, Except.error.inj herr⟩, List.suffix_refl _⟩
  have hc := hc.placed hv
  obtain ⟨o, h, hremove⟩ := Ends.andThen_iff.mp h
  have hlater := hremove.past
  rcases Ends.ofThen_iff.mp h with ⟨cause, hz, herr⟩ | ⟨t, u, hu, h⟩
  · exact ⟨.placed work, rfl, v, o, hc, ⟨cause, hz, Except.error.inj herr⟩, hlater⟩
  have hc := hc.translated hu
  rcases Ends.ofThen_iff.mp h with ⟨cause, hz, herr⟩ | ⟨output, v, hv, h⟩
  · exact ⟨.translated work t, rfl, u, o, hc, ⟨cause, hz, Except.error.inj herr⟩, hlater⟩
  have hc := hc.built hv
  obtain ⟨now, u, hu, h⟩ := Ends.liftThen_iff.mp h
  rcases Ends.ofThen_iff.mp h with ⟨cause, hz, herr⟩ | ⟨file, u', -, h⟩
  · exact ⟨.built t output, rfl, v, o, hc, ⟨u, now, cause, hu, hz, Except.error.inj herr⟩, hlater⟩
  · obtain ⟨_, _, -, h⟩ := Ends.liftThen_iff.mp h
    simpa using (Ends.return_iff.mp h).1

inductive Ending (act : Answers) (e : Engine) (id : ModelIdentity) (source : String) (x : Moment) :
    Except Error Compiled → Moment → Prop
  | found {hit : Compiled} {y : Moment} (h : (e.cached id source).Ends act x (some hit) y) :
      Ending act e id source x (.ok hit) y
  | locked {cause : CacheError} {y z : Moment} (hc : Comes act e id source x .missed y)
      (h : (e.cache.lock id).run.Ends act y (.error cause) z) :
      Ending act e id source x (.error (.cache cause)) z
  | foundLocked {hit : Compiled} {n : Nat} {y z u v : Moment} (hc : Comes act e id source x .missed y)
      (hl : (e.cache.lock id).run.Ends act y (.ok n) z)
      (h : (e.cached id source).Ends act z (some hit) u) (hu : (Cache.unlock n).Ends act u () v) :
      Ending act e id source x (.ok hit) v
  | cleared {cause : CacheError} {n : Nat} {b : Bool} {y z u u' v o : Moment}
      (hc : Comes act e id source x .missed y) (hl : (e.cache.lock id).run.Ends act y (.ok n) z)
      (hn : (e.cached id source).Ends act z none u)
      (hi : (perform (.invalidate e.registry id.key)).Ends act u b u')
      (h : (e.cache.delete id).run.Ends act u' (.error cause) v) (hu : (Cache.unlock n).Ends act v () o) :
      Ending act e id source x (.error (.cache cause)) o
  | built {r : Except Error CompiledEntry} {n : Nat} {b : Bool} {y z u u' v o o' o'' : Moment}
      (hc : Comes act e id source x .missed y) (hl : (e.cache.lock id).run.Ends act y (.ok n) z)
      (hn : (e.cached id source).Ends act z none u)
      (hi : (perform (.invalidate e.registry id.key)).Ends act u b u')
      (hd : (e.cache.delete id).run.Ends act u' (.ok ()) v)
      (h : (e.cache.compileModel id source e.translator e.builder).run.Ends act v r o)
      (hs : o' = o ∨ (perform (.emit (.ready id.key false))).Ends act o () o')
      (hu : (Cache.unlock n).Ends act o' () o'') :
      Ending act e id source x (r.map fun entry => ⟨entry.buildOutput, entry.warnings, false⟩) o''

theorem compile_ending (h : (e.compile id source).run.Ends act x r y) : Ending act e id source x r y := by
  rw [compile_eq] at h
  obtain ⟨a, z, hz, h⟩ := Ends.bind_iff.mp h
  obtain ⟨o, y₁, h₁, hz⟩ := Ends.bind_iff.mp hz
  cases o with
  | some hit =>
    obtain ⟨rfl, rfl⟩ := Ends.pure_iff.mp hz
    obtain ⟨rfl, rfl⟩ := Ends.pure_iff.mp h
    exact .found h₁
  | none =>
    have hc : Comes act e id source x .missed y₁ := .missed h₁
    obtain ⟨l, y₂, h₂, hz⟩ := Ends.bind_iff.mp hz
    cases l with
    | error cause =>
      obtain ⟨rfl, rfl⟩ := Ends.pure_iff.mp hz
      obtain ⟨rfl, rfl⟩ := Ends.pure_iff.mp h
      exact .locked hc h₂
    | ok n =>
      obtain ⟨o, y₃, h₃, hz⟩ := Ends.bind_iff.mp hz
      cases o with
      | some hit =>
        obtain ⟨_, y₄, h₄, hz⟩ := Ends.bind_iff.mp hz
        obtain ⟨rfl, rfl⟩ := Ends.pure_iff.mp hz
        obtain ⟨rfl, rfl⟩ := Ends.pure_iff.mp h
        exact .foundLocked hc h₂ h₃ h₄
      | none =>
        obtain ⟨b, y₄, h₄, hz⟩ := Ends.bind_iff.mp hz
        obtain ⟨d, y₅, h₅, hz⟩ := Ends.bind_iff.mp hz
        cases d with
        | error cause =>
          obtain ⟨_, y₆, h₆, hz⟩ := Ends.bind_iff.mp hz
          obtain ⟨rfl, rfl⟩ := Ends.pure_iff.mp hz
          obtain ⟨rfl, rfl⟩ := Ends.pure_iff.mp h
          exact .cleared hc h₂ h₃ h₄ h₅ h₆
        | ok _ =>
          obtain ⟨rfl, rfl⟩ := Ends.pure_iff.mp hz
          obtain ⟨r', y₆, h₆, h⟩ := Ends.bind_iff.mp h
          cases r' with
          | error err =>
            obtain ⟨_, y₇, h₇, h⟩ := Ends.bind_iff.mp h
            obtain ⟨rfl, rfl⟩ := Ends.pure_iff.mp h
            exact .built hc h₂ h₃ h₄ h₅ h₆ (.inl rfl) h₇
          | ok entry =>
            obtain ⟨_, y₇, h₇, h⟩ := Ends.bind_iff.mp h
            obtain ⟨_, y₈, h₈, h⟩ := Ends.bind_iff.mp h
            obtain ⟨rfl, rfl⟩ := Ends.pure_iff.mp h
            exact .built hc h₂ h₃ h₄ h₅ h₆ (.inr h₇) h₈

end Engine

def World.dropping (w : World) (n : Nat) (key : String) : World := w.setRegistry n ((w.registry n).erase key)

structure Estate.Holds (E : Estate) (id : ModelIdentity) (n : Nat) (R : List Registry)
    (Z : Location → Prop) (x y : Moment) : Prop where
  alters : Alters Z x y
  calm : E.Calm y.world
  locked : y.world.locked = n :: x.world.locked
  free : n ∉ x.world.locked
  numbers : E.Numbers id n y.files
  registries : y.world.registries = R
  busy : y.world.busy = x.world.busy

structure Engine.Leaves (e : Engine) (E : Estate) (id : ModelIdentity) (x y : Moment) : Prop where
  calm : E.Calm y.world
  environment : y.world.environment = x.world.environment
  busy : y.world.busy = x.world.busy
  spared : ∀ l, E.Still l → l ≠ E.cache.staging → ¬E.place id l →
    (E.scrap l → ¬Littered e.cache x.world.environment True y) → y.files.get? l = x.files.get? l

theorem Engine.Leaves.of_alters (h : Alters (fun l => E.locks l ∨ E.cache.entry id <+: l) x y)
    (hc : E.Calm y.world) (hb : y.world.busy = x.world.busy) : e.Leaves E id x y := by
  refine ⟨hc, h.environment, hb, fun l hl _ hp _ => h.files l ?_⟩
  rintro (h | h)
  · exact hl.2 h
  · exact hp (.inr h)

structure Engine.Guards (e : Engine) (E : Estate) (id : ModelIdentity) (n : Nat) (R : List Registry)
    (x y : Moment) : Prop extends e.Leaves E id x y where
  locked : y.world.locked = n :: x.world.locked
  free : n ∉ x.world.locked
  numbers : E.Numbers id n y.files
  registries : y.world.registries = R

structure Engine.Releases (e : Engine) (E : Estate) (id : ModelIdentity) (R : List Registry)
    (x y : Moment) : Prop extends e.Leaves E id x y where
  locked : y.world.locked = x.world.locked
  free : ∀ n, E.Numbers id n y.files → n ∉ y.world.locked
  registries : y.world.registries = R

theorem Estate.Holds.guards {n : Nat} {R : List Registry}
    (h : E.Holds id n R (fun l => E.locks l ∨ E.cache.entry id <+: l) x y) : e.Guards E id n R x y :=
  ⟨.of_alters h.alters h.calm h.busy, h.locked, h.free, h.numbers, h.registries⟩

inductive Engine.Outcome (act : Answers) (e : Engine) (E : Estate) (id : ModelIdentity) (source : String)
    (x : Moment) : Except Error Compiled → Moment → Prop
  | found {hit : Compiled} {y : Moment} (hh : hit.cached = true) (ha : Alters E.locks x y)
      (hr : e.Releases E id x.world.registries x y ∨ ∃ events, y.world = x.world.noting events) :
      Outcome act e E id source x (.ok hit) y
  | refused {err : Error} {y : Moment} (hf : FailsFirst act e id source x y err .missed) (ha : Alters E.locks x y)
      (hc : E.Calm y.world) (hr : x.world.Aside y.world) : Outcome act e E id source x (.error err) y
  | kept {err : Error} {y : Moment} (hf : FailsFirst act e id source x y err .locked)
      (hr : e.Releases E id (x.world.dropping e.registry id.key).registries x y)
      (hb : x.files.get? (E.cache.entry id) = none → y.files.get? (E.cache.entry id) = none) :
      Outcome act e E id source x (.error err) y
  | built {c : Compiled} {y : Moment} (hc : c.cached = false)
      (hr : e.Releases E id (x.world.dropping e.registry id.key).registries x y)
      (hs : ∃ r : Record, r.output = c.diagnostics ∧ r.warnings = c.warnings ∧
        r.manifest.abi.toNat = abiVersion ∧ Stocked E.cache e.cache id r y.world) :
      Outcome act e E id source x (.ok c) y
  | failed {err : Error} {p : Progress} {y : Moment} (hp : p.isCleared = true)
      (hf : FailsFirst act e id source x y err p)
      (hr : e.Releases E id (x.world.dropping e.registry id.key).registries x y)
      (hb : y.files.Bare (E.cache.entry id)) : Outcome act e E id source x (.error err) y

theorem Estate.not_models_of_scrap {l : Location} (h : E.scrap l) : ¬E.cache.models <+: l := by
  rcases h with ⟨n, hl⟩ | ⟨k, s, hl⟩
  · exact (E.den_staging n).apart l hl
  · exact (E.den_scratch k s).apart l hl

theorem Engine.Leaves.others (h : e.Leaves E id x y) {other : ModelIdentity} (hne : other ≠ id) :
    x.files.Same y.files (E.cache.entry other) := by
  intro rest
  refine h.spared _ (E.still_entry other rest) (fun h => ?_) (fun hp => ?_) fun hs => ?_
  · exact E.cache.entry_ne_staging other rest [] (by simpa using h)
  · rcases hp with hp | hp
    · simp [Site.entry, Site.models] at hp
    · exact E.cache.entry_apart hne rest hp
  · refine absurd (Site.entry_eq .. ▸ ?_ : E.cache.models <+: E.cache.entry other ++ rest)
      (Estate.not_models_of_scrap hs)
    rw [List.append_assoc]
    exact List.prefix_append _ _

theorem Engine.Outcome.others {source : String} {r : Except Error Compiled}
    (h : e.Outcome act E id source x r y) (hx : E.Calm x.world) :
    E.Calm y.world ∧ y.world.environment = x.world.environment ∧
      ∀ other ≠ id, x.files.Same y.files (E.cache.entry other) := by
  have hlocks (ha : Alters E.locks x y) (other : ModelIdentity) :
      x.files.Same y.files (E.cache.entry other) := fun rest => ha.files _ (E.still_entry other rest).2
  cases h with
  | found hh ha hr =>
    refine ⟨?_, ha.environment, fun other _ => hlocks ha other⟩
    rcases hr with hr | ⟨events, hy⟩
    · exact hr.calm
    · rw [hy]
      exact ⟨hx.sound, hx.tame⟩
  | refused hf ha hc hr => exact ⟨hc, ha.environment, fun other _ => hlocks ha other⟩
  | kept hf hr _ => exact ⟨hr.calm, hr.environment, fun _ => hr.others⟩
  | built hc hr hs => exact ⟨hr.calm, hr.environment, fun _ => hr.others⟩
  | failed hp hf hr hb => exact ⟨hr.calm, hr.environment, fun _ => hr.others⟩

theorem Estate.Posted.stocked {c : Cache} {name output warnings : String} {manifest : Manifest}
    {file : Path} (h : E.Posted c id name output warnings manifest file x)
    (hleads : E.cache.Leads x.world.environment.location c.root) (hstands : E.cache.Stands x.files)
    (hshort : ∃ name', file = (c.entryDirectory id).join name' ∧
      ∀ n ∈ name' :: (Cache.texts output warnings manifest).map (·.1),
        Tree.Short ((c.entryDirectory id).join n)) :
    ∃ r : Record, r.output = output ∧ r.warnings = warnings ∧ r.manifest.abi.toNat = abiVersion ∧
      Stocked E.cache c id r x.world := by
  obtain ⟨name', hfile, hshort⟩ := hshort
  obtain ⟨hfile', hname, habi, content, b, hfolder⟩ := h
  obtain rfl : name' = name := by
    have htail := congrArg Path.tail (hfile.symm.trans hfile')
    simpa [Path.join] using htail
  have hentry : Tree.Short (c.entryDirectory id) := by
    have hsize := Path.size_le_join (c.entryDirectory id) name'
    have h := hshort name' List.mem_cons_self
    rw [Tree.Short] at h ⊢
    omega
  exact ⟨⟨name', content, b, output, warnings, manifest⟩, rfl, rfl, habi,
    Stocked.of_folder hleads hstands hfolder hname hentry hshort⟩

section Effects

variable (hact : ∀ w s r w', act w s r w' → Step.flawed m w s r w')
include hact

theorem invalidate_ends {n : Nat} {key : String} {b : Bool}
    (h : (perform (.invalidate n key)).Ends act x b y) :
    y.world = x.world.dropping n key ∧ Alters (fun _ => False) x y := by
  obtain ⟨w, hr, rfl⟩ := Ends.perform_iff.mp h
  have hn : ¬(Taken.mk (.invalidate n key) b).Moves := by
    rintro ⟨_, _, he⟩
    cases congrArg Taken.step he
  rcases hact _ _ _ _ hr with hexec | ⟨hfails | hdenies, -⟩
  · obtain ⟨-, rfl⟩ := Prod.mk.inj (Option.some.inj hexec)
    exact ⟨rfl, .of_within (.of_eq hn rfl rfl)⟩
  · exact hfails.elim
  · exact hdenies.elim

theorem unlock_ends {n : Nat} (h : (Cache.unlock n).Ends act x () y) :
    y.world = { x.world with locked := x.world.locked.filter (· ≠ n) } ∧ Alters (fun _ => False) x y := by
  obtain ⟨w, hr, rfl⟩ := Ends.perform_iff.mp h
  have hn : ¬(Taken.mk (.release n) ()).Moves := by
    rintro ⟨_, _, he⟩
    cases congrArg Taken.step he
  rcases hact _ _ _ _ hr with hexec | ⟨hfails | hdenies, -⟩
  · obtain ⟨-, rfl⟩ := Prod.mk.inj (Option.some.inj hexec)
    exact ⟨rfl, .of_within (.of_eq hn rfl rfl)⟩
  · exact hfails.elim
  · exact hdenies.elim

theorem looks_calm {o : Option Compiled} (h : (e.cached id source).Ends act x o y) (hx : E.Calm x.world) :
    E.Calm y.world ∧ ∃ events, y.world = x.world.noting events := by
  obtain ⟨events, hy⟩ := (cached_looks hact h).world
  rw [hy]
  exact ⟨⟨hx.sound, hx.tame⟩, events, rfl⟩

variable (hm : E.Orderly m tools) (hE : e.Settled E env) (htools : ∀ i, e.Starts env i → tools i)
  (he : x.world.environment = env)
include hm hE he

theorem take_ends {n : Nat} {o : Option Compiled} {y z u : Moment} (hx : E.Calm x.world)
    (h₁ : (e.cached id source).Ends act x none y) (h₂ : (e.cache.lock id).run.Ends act y (.ok n) z)
    (h₃ : (e.cached id source).Ends act z o u) :
    E.Holds id n x.world.registries E.locks x u := by
  obtain ⟨hcy, events, hy⟩ := looks_calm hact h₁ hx
  obtain ⟨halters, hcz, ⟨files, seed, events', hz⟩, hfree⟩ := lock_ends hact hm hE.serves h₂ hcy
    (by rw [hy]; exact he)
  obtain ⟨hfree, hnumbers⟩ := hfree n rfl
  obtain ⟨hcu, events'', hu⟩ := looks_calm hact h₃ hcz
  have hw : u.world =
      { x.world with files, seed, events := events' ++ events'', locked := n :: x.world.locked } := by
    rw [hu, hz, hy]
    rfl
  refine ⟨(((cached_looks hact h₁).alters _).trans halters).trans ((cached_looks hact h₃).alters _), hcu,
    by rw [hw], ?_, ?_, by rw [hw], by rw [hw]⟩
  · rw [hy] at hfree
    exact hfree
  · rw [Moment.files, hu]
    exact hnumbers

omit hm hE he in
theorem Estate.Holds.drop {n k : Nat} {key : String} {Z : Location → Prop} {b : Bool}
    (hx : E.Holds id n x.world.registries Z x y) (h : (perform (.invalidate k key)).Ends act y b z) :
    E.Holds id n (x.world.dropping k key).registries Z x z := by
  obtain ⟨hz, halters⟩ := invalidate_ends hact h
  refine ⟨hx.alters.trans (halters.mono fun _ => False.elim), ?_, by rw [hz]; exact hx.locked, hx.free, ?_,
    ?_, by rw [hz]; exact hx.busy⟩
  · rw [hz]
    exact ⟨hx.calm.sound, hx.calm.tame⟩
  · rw [Moment.files, hz]
    exact hx.numbers
  · rw [hz]
    simp only [World.dropping, World.setRegistry, World.registry, hx.registries]

theorem Estate.Holds.clear {n : Nat} {R : List Registry} {r : Except CacheError Unit}
    (hy : E.Holds id n R E.locks x y) (h : (e.cache.delete id).run.Ends act y r z) :
    E.Holds id n R (fun l => E.locks l ∨ E.cache.entry id <+: l) x z ∧
      (x.files.get? (E.cache.entry id) = none → z.files.get? (E.cache.entry id) = none) ∧
      (r = .ok () → z.files.Bare (E.cache.entry id) ∧ z.files.Spot E.cache.models) := by
  have henv : y.world.environment = env := hy.alters.environment.trans he
  obtain ⟨halters, hcalm, ⟨files, seed, events, hz⟩, hfewer, hgone⟩ := delete_ends hact hm hE.serves h hy.calm henv
  have hbehaves : Behaves E env tools (fun _ => True) (e.cache.delete id).run := delete_behaves hE.serves
  have hu := (hbehaves.ends hact hm h hy.calm henv).1.2
  refine ⟨⟨(hy.alters.mono fun _ => .inl).trans (halters.mono fun _ => .inr), hcalm,
    by rw [hz]; exact hy.locked, hy.free, hy.numbers.upholds hu, by rw [hz]; exact hy.registries,
    by rw [hz]; exact hy.busy⟩, fun hnone => ?_, hgone⟩
  have hsame := hy.alters.files (E.cache.entry id) (by simpa using (E.still_entry id []).2)
  rcases hfewer (E.cache.entry id) with hl | hl
  · exact hl.trans (hsame.trans hnone)
  · exact hl

theorem Estate.Holds.build (htools : ∀ i, e.Starts env i → tools i) {n : Nat} {R : List Registry}
    {r : Except Error CompiledEntry}
    (hy : E.Holds id n R (fun l => E.locks l ∨ E.cache.entry id <+: l) x y)
    (hgone : y.files.Bare (E.cache.entry id) ∧ y.files.Spot E.cache.models)
    (ha : ¬Arrived (e.cache.entryDirectory id) x.past)
    (h : (e.cache.compileModel id source e.translator e.builder).run.Ends act y r z) :
    e.Guards E id n R x z ∧ E.Rebuilt e.cache id r z := by
  have habsent := hgone.1 []
  rw [List.append_nil] at habsent
  obtain ⟨⟨hu, hspares⟩, hframed, hr⟩ := compileModel_ends hact hm hE htools h hy.calm
    (hy.alters.environment.trans he) ⟨hgone.2, habsent, hy.alters.past.arrived ha⟩
  refine ⟨⟨⟨hu.calm, hu.environment.trans hy.alters.environment, hspares.busy.trans hy.busy,
    fun l hl hs hp hc => ?_⟩, hu.locked.trans hy.locked, hy.free, hy.numbers.upholds hu,
    hspares.registries.trans hy.registries⟩, hr⟩
  refine (hframed.spared l hl hs hp ?_).trans (hy.alters.files l ?_)
  · rwa [he] at hc
  · rintro (h | h)
    · exact hl.2 h
    · exact hp (.inr h)

omit hm hE he in
theorem Engine.Guards.unlock {n : Nat} {R : List Registry} (hy : e.Guards E id n R x y)
    (h : (Cache.unlock n).Ends act y () z) :
    e.Releases E id R x z ∧ z.files = y.files := by
  obtain ⟨hz, halters⟩ := unlock_ends hact h
  have hfiles : z.files = y.files := by rw [Moment.files, hz]
  have hlocked : z.world.locked = x.world.locked := by
    rw [hz]
    simp only [hy.locked]
    rw [List.filter_cons_of_neg (by simp), List.filter_eq_self.mpr]
    intro k hk
    simpa using fun hkn : k = n => hy.free (hkn ▸ hk)
  have hlitter : Littered e.cache x.world.environment True y → Littered e.cache x.world.environment True z :=
    fun h => h.later (halters.past.imp fun _ h => h.1)
  refine ⟨⟨⟨?_, halters.environment.trans hy.environment, by rw [hz]; exact hy.busy,
    fun l hl hs hp hc => ?_⟩, hlocked, fun k hk => ?_, by rw [hz]; exact hy.registries⟩, hfiles⟩
  · rw [hz]
    exact ⟨hy.calm.sound, hy.calm.tame⟩
  · rw [hfiles]
    exact hy.spared l hl hs hp fun h => mt hlitter (hc h)
  · rw [hfiles] at hk
    rw [hlocked, hk.unique hy.numbers]
    exact hy.free

omit hm hE he in
theorem Engine.Guards.emit {n : Nat} {R : List Registry} {event : Event} (hy : e.Guards E id n R x y)
    (h : (perform (.emit event)).Ends act y () z) : e.Guards E id n R x z ∧ z.files = y.files := by
  obtain ⟨w, hr, rfl⟩ := Ends.perform_iff.mp h
  obtain rfl := Step.faulty.emit (Step.faulty_of_flawed (hact _ _ _ _ hr) (by simp) (by simp))
  refine ⟨⟨⟨⟨hy.calm.sound, hy.calm.tame⟩, hy.environment, hy.busy, fun l hl hs hp hc => ?_⟩, hy.locked,
    hy.free, hy.numbers, hy.registries⟩, rfl⟩
  exact hy.spared l hl hs hp fun h => mt (Littered.later ⟨[_], rfl⟩) (hc h)

omit hact hm hE he in
theorem cached_some {hit : Compiled} (h : (e.cached id source).Ends act x (some hit) y) :
    hit.cached = true := by
  obtain ⟨b, z, -, h⟩ := Ends.bind_iff.mp h
  cases b with
  | false => simpa using (Ends.pure_iff.mp h).1
  | true =>
    simp only [Bool.not_true, Bool.false_eq_true, if_false] at h
    obtain ⟨r, z, -, h⟩ := Ends.bind_iff.mp h
    cases r with
    | error err =>
      obtain ⟨_, z, -, h⟩ := Ends.bind_iff.mp h
      simpa using (Ends.pure_iff.mp h).1
    | ok d =>
      obtain ⟨_, z, -, h⟩ := Ends.bind_iff.mp h
      obtain ⟨_, z, -, h⟩ := Ends.bind_iff.mp h
      obtain ⟨b, z, -, h⟩ := Ends.bind_iff.mp h
      cases b with
      | false => simpa using (Ends.pure_iff.mp h).1
      | true =>
        obtain ⟨_, z, -, h⟩ := Ends.bind_iff.mp h
        exact Option.some.inj (Ends.pure_iff.mp h).1 ▸ rfl

include htools in
theorem compile_outcome {r : Except Error Compiled} (hx : E.Calm x.world)
    (ha : ¬Arrived (e.cache.entryDirectory id) x.past) (h : (e.compile id source).run.Ends act x r y) :
    e.Outcome act E id source x r y := by
  cases Engine.compile_ending h with
  | found h =>
    have hlook := cached_looks hact h
    exact .found (cached_some h) (hlook.alters _) (.inr hlook.world)
  | locked hc hl =>
    cases hc with
    | missed h₁ =>
      obtain ⟨hcy, events, hy⟩ := looks_calm hact h₁ hx
      obtain ⟨halters, hcz, ⟨files, seed, events', hz⟩, -⟩ := lock_ends hact hm hE.serves hl hcy
        (by rw [hy]; exact he)
      exact .refused ⟨_, _, .missed h₁, ⟨_, hl, rfl⟩, List.suffix_refl _⟩
        (((cached_looks hact h₁).alters _).trans halters) hcz ⟨files, seed, events', by rw [hz, hy]; rfl⟩
  | foundLocked hc hl h₃ hu =>
    cases hc with
    | missed h₁ =>
      have hholds := take_ends hact hm hE he hx h₁ hl h₃
      have hguards : e.Guards E id _ _ x _ :=
        Estate.Holds.guards { hholds with alters := hholds.alters.mono fun _ => .inl }
      obtain ⟨hr, -⟩ := hguards.unlock hact hu
      exact .found (cached_some h₃) (hholds.alters.trans ((unlock_ends hact hu).2.mono fun _ => False.elim))
        (.inl hr)
  | cleared hc hl hn hi hd hu =>
    cases hc with
    | missed h₁ =>
      obtain ⟨hholds, hnone, -⟩ := ((take_ends hact hm hE he hx h₁ hl hn).drop hact hi).clear hact hm hE he hd
      obtain ⟨hr, hfiles⟩ := hholds.guards.unlock hact hu
      exact .kept ⟨_, _, .locked (.missed h₁) hl hn hi, ⟨_, hd, rfl⟩, hu.past⟩ hr fun hx => by
        rw [hfiles]
        exact hnone hx
  | @built r n b _ _ _ _ _ o o' _ hc hl hn hi hd hbuild hs hu =>
    cases hc with
    | missed h₁ =>
      obtain ⟨hholds, -, hgone⟩ := ((take_ends hact hm hE he hx h₁ hl hn).drop hact hi).clear hact hm hE he hd
      obtain ⟨hguards, hrebuilt⟩ := hholds.build hact hm hE he htools (hgone rfl) ha hbuild
      obtain ⟨hguards', hfiles⟩ : e.Guards E id n _ x o' ∧ o'.files = o.files := by
        rcases hs with rfl | hs
        · exact ⟨hguards, rfl⟩
        · exact hguards.emit hact hs
      obtain ⟨hr, hfiles'⟩ := hguards'.unlock hact hu
      have hsame := hrebuilt.spares (y := y) fun rest => by rw [hfiles', hfiles]
      cases r with
      | error err =>
        obtain ⟨p, hp, hf⟩ :=
          ((Engine.Comes.locked (.missed h₁) hl hn hi).cleared hd).compileModel_fails hbuild
        have hlater : o.past <:+ o'.past := by
          rcases hs with rfl | hs
          · exact List.suffix_refl _
          · exact hs.past
        exact .failed hp (hf.later (hlater.trans hu.past)) hr (hsame.bare err rfl)
      | ok entry =>
        obtain ⟨name, hposted⟩ := hsame.posted entry rfl
        exact .built rfl hr (hposted.stocked (by rw [hr.environment, he]; exact hE.serves.leads)
          hr.calm.sound.cache (compileModel_short hact hbuild))

end Effects

end CompiledModels
