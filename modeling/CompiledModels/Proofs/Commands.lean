import CompiledModels.CommandLine.Run
import CompiledModels.Proofs.Ends
import CompiledModels.Proofs.Pruning
import CompiledModels.Proofs.Publication
import CompiledModels.Proofs.Reading

/-!
What the commands do to the files: most only look at them, one that refuses its arguments has
changed nothing, and one that cleans up takes nothing away but what it is asked to.
-/

namespace CompiledModels

open Files Program

variable {α β ε : Type} {m : Machine} {x y : Moment}

namespace CommandLine

section Telling

theorem printLine_still (s : String) : (printLine s).Still := still_perform rfl

theorem printDiagnostic_still (s : String) : (printDiagnostic s).Still := still_perform rfl

theorem styled_still (s : Style) (text : String) : (styled s text).Still :=
  .next (still_perform rfl) fun _ _ => trivial

theorem report_still (s : Status) (message : String) : (report s message).Still :=
  .next (styled_still _ _) fun _ _ => printDiagnostic_still _

theorem printHeading_still (text : String) : (printHeading text).Still :=
  .next (styled_still _ _) fun _ _ => printLine_still _

theorem printManifest_still (m : Manifest) : (printManifest m).Still :=
  .next (printLine_still _) fun _ _ => .next (printLine_still _) fun _ _ => printLine_still _

theorem sumSizes_still {size : DirectoryEntry → Program (Except FileError Nat)}
    (h : ∀ e, (size e).Still) (es : List DirectoryEntry) : (sumSizes size es).Still := by
  induction es with
  | nil => trivial
  | cons e es ih =>
    refine .next (h e) fun r _ => ?_
    cases r with
    | error e => trivial
    | ok n => exact .next ih fun _ _ => trivial

theorem sizeBelow_still (nesting : Nat) (p : Path) : (sizeBelow nesting p).Still := by
  induction nesting generalizing p with
  | zero => trivial
  | succ nesting ih =>
    refine .next (still_perform rfl) fun r _ => ?_
    cases r with
    | error e => trivial
    | ok es =>
      refine sumSizes_still (fun e => .next (isDirectory_still _) fun b _ => ?_) es
      split
      · exact ih _
      · exact .next (still_perform rfl) fun _ _ => trivial

theorem sizeOf_still (p : Path) : (sizeOf p).Still := by
  refine .next (isDirectory_still p) fun b _ => ?_
  split
  · exact sizeBelow_still _ _
  · exact .next (still_perform rfl) fun _ _ => trivial

theorem still_tell {p : Program Unit} (h : p.Still) : (tell p).run.Still :=
  .next h fun _ _ => trivial

theorem measured_still (p : Path) : (measured p).run.Still :=
  .ofThen (sizeOf_still p) (fun _ _ => trivial) fun _ _ => trivial

theorem printModels_still (c : Cache) (ids : List ModelIdentity) : (printModels c ids).Still := by
  induction ids with
  | nil => trivial
  | cons id ids ih =>
    refine .next (exists_only still_looks) fun b _ => .next (sizeOf_still _) fun r _ => ?_
    exact .next (printLine_still _) fun _ _ => ih

end Telling

section Looking

theorem identityOf_still (name : String) : (identityOf name).run.Still := by
  rw [identityOf]
  cases ModelIdentity.ofName name <;> trivial

theorem openEngine_still : openEngine.run.Still := by
  refine .liftThen (still_perform rfl) fun e _ => ?_
  refine .attempt (Q := fun _ => True) trivial (fun c _ => ?_) fun _ _ => trivial
  refine .next (Q := fun _ => True) ?_ fun _ _ => trivial
  exact .next (Translator.ofConfig_still c) fun _ _ => .next (still_perform rfl) fun _ _ => trivial

theorem readData_still (data : Option Path) : (readData data).run.Still := by
  cases data with
  | none => trivial
  | some p =>
    refine still_of (.ofThen (readText_still p) (fun s _ => ?_) fun _ _ => trivial) _
    cases ModelData.ofText s <;> trivial

theorem cachedIdentity_still (e : Engine) (name : String) : (cachedIdentity e name).run.Still := by
  refine .attempt (identityOf_still name) (fun id _ => ?_) fun _ _ => trivial
  refine .liftThen (Q := fun _ => True) (exists_only still_looks) fun b _ => ?_
  split <;> trivial

theorem printNames_still (e : Engine) (id : ModelIdentity) (data : ModelData)
    (kinds : List (String × NameKind)) : (printNames e id data kinds).run.Still := by
  induction kinds with
  | nil => trivial
  | cons kind kinds ih =>
    exact .ofThen Engine.evaluate_still (fun _ _ => .liftThen (printLine_still _) fun _ _ => ih)
      fun _ _ => trivial

theorem inspect_still (name : String) (data : Option Path) : (inspect name data).run.Still := by
  refine .attempt openEngine_still (fun e _ => ?_) fun _ _ => trivial
  refine .attempt (cachedIdentity_still e name) (fun id _ => ?_) fun _ _ => trivial
  refine .attempt (readData_still data) (fun data _ => ?_) fun _ _ => trivial
  refine .liftThen (printHeading_still _) fun _ _ => ?_
  refine .liftThen (loadManifest_only still_looks) fun r _ => ?_
  have hrest : (do
      let count ← Attempt.of (e.evaluate id data .parameterCount).run .evaluation
      tell (printLine ("  parameters:  " ++ toString count))
      printNames e id data nameKinds : Action Unit).run.Still :=
    .ofThen Engine.evaluate_still (fun _ _ => .liftThen (printLine_still _) fun _ _ =>
      printNames_still e id data nameKinds) fun _ _ => trivial
  cases r with
  | error e => exact hrest
  | ok m => exact .liftThen (printManifest_still m) fun _ _ => hrest

theorem logDensity_still (name : String) (values : List Binary64) (data : Option Path)
    (jacobian gradient : Bool) : (logDensity name values data jacobian gradient).run.Still := by
  refine .attempt openEngine_still (fun e _ => ?_) fun _ _ => trivial
  refine .attempt (cachedIdentity_still e name) (fun id _ => ?_) fun _ _ => trivial
  refine .attempt (readData_still data) (fun data _ => ?_) fun _ _ => trivial
  refine .ofThen Engine.evaluate_still (fun density _ => ?_) fun _ _ => trivial
  refine .liftThen (printLine_still _) fun _ _ => ?_
  split
  · exact .ofThen Engine.evaluate_still (fun _ _ => .liftThen (printLine_still _) fun _ _ => trivial)
      fun _ _ => trivial
  · trivial

theorem directoriesAmong_still (dir : Path) (names : List String) :
    (Cache.directoriesAmong dir names).Still := by
  induction names with
  | nil => trivial
  | cons name names ih => exact .next (isDirectory_still _) fun _ _ => .next ih fun _ _ => trivial

theorem identities_still (c : Cache) : c.identities.run.Still := by
  refine .liftThen (still_perform rfl) fun r _ => ?_
  cases r with
  | error e => exact .ite trivial trivial
  | ok es => exact .liftThen (directoriesAmong_still _ _) fun _ _ => trivial

theorem list_still : list.run.Still := by
  refine .attempt openEngine_still (fun e _ => ?_) fun _ _ => trivial
  refine .ofThen (identities_still e.cache) (fun ids _ => ?_) fun _ _ => trivial
  cases ids with
  | nil => exact still_tell (printLine_still _)
  | cons id ids => exact still_tell (printModels_still _ _)

theorem clean_dry_still (model : Option String) : (clean model true).run.Still := by
  have hskip (p : Path) (f : String → String) : (do
      let label := f (← measured p)
      tell (report .skipping (label ++ " - dry run")) : Action Unit).run.Still :=
    .attempt (measured_still p) (fun _ _ => still_tell (report_still _ _)) fun _ _ => trivial
  refine .attempt openEngine_still (fun e _ => ?_) fun _ _ => trivial
  refine .liftThen (pathExists_still _) fun b _ => ?_
  cases b with
  | false => exact still_tell (printLine_still _)
  | true => cases model with
    | none => exact hskip e.cache.root fun s => "model cache (" ++ s ++ ")"
    | some name =>
      refine .attempt (identityOf_still name) (fun id _ => ?_) fun _ _ => trivial
      refine .liftThen (pathExists_still _) fun b _ => ?_
      cases b with
      | false => exact still_tell (printLine_still _)
      | true => exact hskip (e.cache.entryDirectory id) fun s => id.key ++ " (" ++ s ++ ")"

end Looking

section Refusal

variable {ε' : Type}

def Failure.IsInput : Failure → Prop
  | .unreadable .. | .of (.io _) | .of (.config _) => True
  | _ => False

/-- On its own the program changes no file, and if it ends it answers that it cannot use what it is
given. -/
def Refuses (m : Machine) (x : Moment) (p : Program (Except Failure α)) : Prop :=
  ∀ q y, p.Steps (Step.answers m) x q y →
    y.world.files = x.world.files ∧ ∀ r, q = .done r → ∃ f, r = .error f ∧ f.IsInput

theorem steps_bind {act : Answers} {p : Program α} {f : α → Program β} {q : Program β}
    (h : (p >>= f).Steps act x q y) : (∃ q', p.Steps act x q' y ∧ ∀ b, q ≠ .done b) ∨
      ∃ a z, p.Ends act x a z ∧ (f a).Steps act z q y := by
  induction p generalizing x with
  | done a => exact .inr ⟨a, x, .refl _ _, h⟩
  | step s next ih =>
    cases h with
    | refl => exact .inl ⟨_, .refl _ _, fun _ => nofun⟩
    | step hr hs =>
      rcases ih _ hs with ⟨q', hq', hb⟩ | ⟨a, z, hz, hf⟩
      · exact .inl ⟨q', .step hr hq', hb⟩
      · exact .inr ⟨a, z, .step hr hz, hf⟩

theorem still_steps {p q : Program α} (h : p.Still) (hx : Custom.still.Calm x.world)
    (hs : p.Steps (Step.answers m) x q y) : Custom.still.Drifts x.world y.world := by
  refine (h.keeps_still hx).keeps (J := fun y => Custom.still.Drifts x.world y.world) hs
    (.of_eq hx rfl rfl rfl rfl) fun _ _ hk hz => hz.trans (hk (hz.calm hx))

theorem Refuses.next {p : Attempt Failure α} {f : α → Attempt Failure β} (hp : p.run.Still)
    (hx : Custom.still.Calm x.world)
    (herr : ∀ e z, p.run.Ends (Step.answers m) x (.error e) z → e.IsInput)
    (hf : ∀ a z, p.run.Ends (Step.answers m) x (.ok a) z → Custom.still.Calm z.world →
      Refuses m z (f a).run) : Refuses m x (p >>= f).run := by
  intro q y hs
  rcases steps_bind hs with ⟨q', hq', hb⟩ | ⟨r, z, hz, hrest⟩
  · exact ⟨(still_steps hp hx hq').files.symm, fun r hr => absurd hr (hb r)⟩
  · have hd := still_steps hp hx hz
    cases r with
    | ok a =>
      obtain ⟨hfiles, hdone⟩ := hf a z hz (hd.calm hx) q y hrest
      exact ⟨hfiles.trans hd.files.symm, hdone⟩
    | error e =>
      cases hrest
      exact ⟨hd.files.symm, fun r hr => ⟨e, (Program.done.inj hr).symm, herr e _ hz⟩⟩

theorem ends_of_sees {p : Program α} {a b : α} (h : p.Ends (Step.answers m) x b y)
    (hs : p.Sees m x.world a) : b = a ∧ y.world = x.world := by
  have hrun := h.run_of
  rw [hs] at hrun
  obtain ⟨rfl, hw⟩ := Prod.mk.inj (Option.some.inj hrun)
  exact ⟨rfl, hw.symm⟩

theorem ofExcept_ends {act : Answers} {r : Except ε' α} {wrap : ε' → ε} {o : Except ε α} :
    (Attempt.ofExcept r wrap).run.Ends act x o y ↔ o = r.mapError wrap ∧ y = x := by
  refine Ends.pure_iff.trans (and_congr_left fun _ => ?_)
  cases r <;> rfl

variable {name : String} {file : Path} {data : Option Path} {force : Bool}

/-- All that `compile` reads is there and can be used. -/
structure Usable (w : World) (name : String) (file : Path) (data : Option Path) : Prop where
  program : ∃ source, w.text file = .ok source
  data : ∀ p, data = some p → ∃ s d, w.text p = .ok s ∧ ModelData.ofText s = .ok d
  config : ∃ c, Config.ofEnvironment w.environment = .ok c
  name : IsSafeName name

theorem readData_ends {r : Except Failure ModelData}
    (h : (readData data).run.Ends (Step.answers m) x r y) : y.world = x.world ∧
      ((∃ d, r = .ok d ∧ ∀ p, data = some p →
        ∃ s d, x.world.text p = .ok s ∧ ModelData.ofText s = .ok d) ∨
      ∃ f, r = .error f ∧ f.IsInput) := by
  cases data with
  | none =>
    obtain ⟨rfl, rfl⟩ := Ends.pure_iff.mp h
    exact ⟨rfl, .inl ⟨_, rfl, nofun⟩⟩
  | some p =>
    obtain ⟨r', hr', rfl⟩ := Ends.of_iff.mp h
    rcases Ends.ofThen_iff.mp hr' with ⟨e, he, rfl⟩ | ⟨s, z, hs, hdata⟩
    · exact ⟨(ends_of_sees he (readText_sees p)).2, .inr ⟨_, rfl, trivial⟩⟩
    · obtain ⟨htext, hz⟩ := ends_of_sees hs (readText_sees p)
      obtain ⟨rfl, rfl⟩ := Ends.pure_iff.mp hdata
      refine ⟨hz, ?_⟩
      cases hd : ModelData.ofText s with
      | error e => exact .inr ⟨_, rfl, trivial⟩
      | ok d =>
        refine .inl ⟨d, rfl, fun p' hp' => ?_⟩
        obtain rfl := Option.some.inj hp'
        exact ⟨s, d, htext.symm, hd⟩

theorem openEngine_ends {r : Except Failure Engine}
    (h : openEngine.run.Ends (Step.answers m) x r y) :
    (∃ e c, r = .ok e ∧ Config.ofEnvironment x.world.environment = .ok c ∧
      e.cache = ⟨c.cacheDirectory⟩) ∨
    ∃ f, r = .error f ∧ f.IsInput := by
  obtain ⟨env, z, henv, hrest⟩ := Ends.liftThen_iff.mp h
  obtain ⟨w, hw, rfl⟩ := Ends.perform_iff.mp henv
  obtain ⟨rfl, rfl⟩ := Prod.mk.inj (Option.some.inj hw)
  rcases Ends.attempt_iff.mp hrest with ⟨f, hf, rfl⟩ | ⟨c, z, hc, hrest⟩
  · obtain ⟨heq, rfl⟩ := ofExcept_ends.mp hf
    cases hconfig : Config.ofEnvironment x.world.environment with
    | ok c => simp [hconfig, Except.mapError] at heq
    | error e =>
      rw [hconfig] at heq
      obtain rfl := Except.error.inj heq
      exact .inr ⟨_, rfl, trivial⟩
  · obtain ⟨heq, rfl⟩ := ofExcept_ends.mp hc
    obtain ⟨e, hends, rfl⟩ := Ends.lift_iff.mp hrest
    refine .inl ⟨e, c, rfl, ?_, ?_⟩
    · cases hconfig : Config.ofEnvironment x.world.environment with
      | error e => simp [hconfig, Except.mapError] at heq
      | ok c' =>
        rw [hconfig] at heq
        exact congrArg _ (Except.ok.inj heq).symm
    · obtain ⟨t, z, -, hrest⟩ := Ends.bind_iff.mp hends
      obtain ⟨n, z', -, hdone⟩ := Ends.bind_iff.mp hrest
      obtain ⟨rfl, -⟩ := Ends.pure_iff.mp hdone
      rfl

theorem readText_ends {r : Except FileError String} {p : Path}
    (h : (readText p).Ends (Step.answers m) x r y) : r = x.world.text p ∧ y.world = x.world :=
  ends_of_sees h (readText_sees p)

theorem compile_refuses (hx : Custom.still.Calm x.world) (h : ¬Usable x.world name file data) :
    Refuses m x (compile name file data force).run := by
  refine Refuses.next (still_of (readText_still file) _) hx (fun f z hf => ?_) fun source z hz hcalm => ?_
  · obtain ⟨r, -, hr⟩ := Ends.of_iff.mp hf
    cases r with
    | ok _ => simp [Except.mapError] at hr
    | error e =>
      obtain rfl := Except.error.inj hr
      trivial
  obtain ⟨r, hr, heq⟩ := Ends.of_iff.mp hz
  obtain ⟨rfl, hworld⟩ := readText_ends hr
  have hprogram : ∃ source, x.world.text file = .ok source := by
    cases ht : x.world.text file with
    | ok s => exact ⟨s, rfl⟩
    | error e => simp [ht, Except.mapError] at heq
  refine Refuses.next (readData_still data) hcalm (fun f z' hf => ?_) fun d z' hz' hcalm => ?_
  · obtain ⟨-, ⟨d, hd, -⟩ | ⟨f', hf', hinput⟩⟩ := readData_ends hf
    · cases hd
    · cases hf'
      exact hinput
  obtain ⟨hworld', ⟨d', -, hdata⟩ | ⟨f, hf, -⟩⟩ := readData_ends hz'
  case inr => cases hf
  rw [hworld] at hdata hworld'
  refine Refuses.next openEngine_still hcalm (fun f u hf => ?_) fun e u hu hcalm => ?_
  · rcases openEngine_ends hf with ⟨e, c, he, -⟩ | ⟨f', hf', hinput⟩
    · cases he
    · cases hf'
      exact hinput
  rcases openEngine_ends hu with ⟨e', c, -, hconfig, -⟩ | ⟨f, hf, -⟩
  case inr => cases hf
  rw [hworld'] at hconfig
  have hname : ∀ model, Model.ofName e name source d = .ok model → IsSafeName name := by
    intro model hmodel
    by_contra hn
    have hbad : ¬(ModelIdentity.ofName name).isOk = true := ModelIdentity.ofName_isOk_iff.not.mpr hn
    unfold Model.ofName at hmodel
    cases hid : ModelIdentity.ofName name with
    | ok id => exact hbad (by rw [hid]; rfl)
    | error err => rw [hid] at hmodel; cases hmodel
  refine Refuses.next trivial hcalm (fun f v hf => ?_) fun model v hv _ => ?_
  · obtain ⟨heq, -⟩ := ofExcept_ends.mp hf
    cases hm : Model.ofName e name source d with
    | ok model => simp [hm, Except.mapError] at heq
    | error err =>
      rw [hm] at heq
      obtain rfl := Except.error.inj heq
      trivial
  · obtain ⟨heq, -⟩ := ofExcept_ends.mp hv
    cases hm : Model.ofName e name source d with
    | ok model => exact absurd ⟨hprogram, hdata, ⟨c, hconfig⟩, hname model hm⟩ h
    | error err => simp [hm, Except.mapError] at heq

end Refusal

section Cleaning

variable {t₀ : Tree} {env : Environment} {P : Location → Prop} {name : String} {dryRun : Bool}

/-- What `clean` may take away: an entry, or all entries and all that is left of builds, each with
what is below. -/
inductive Cleans (t₀ : Tree) (env : Environment) : Option String → Location → Prop
  | entry {c : Config} {id : ModelIdentity} {k : Location} (hc : Config.ofEnvironment env = .ok c)
      (hk : t₀.resolve env.location false (Cache.entryDirectory ⟨c.cacheDirectory⟩ id) = .ok k)
      (rest : Location) : Cleans t₀ env (some id.name) (k ++ rest)
  | models {c : Config} {k : Location} (hc : Config.ofEnvironment env = .ok c)
      (hk : t₀.resolve env.location false (Cache.modelsDirectory ⟨c.cacheDirectory⟩) = .ok k)
      (rest : Location) : Cleans t₀ env none (k ++ rest)
  | staging {c : Config} {k : Location} (hc : Config.ofEnvironment env = .ok c)
      (hk : t₀.resolve env.location false (Cache.stagingDirectory ⟨c.cacheDirectory⟩) = .ok k)
      (rest : Location) : Cleans t₀ env none (k ++ rest)

theorem safe_openEngine (h : Pruning t₀ env P x.world) : (Rules.pruning m t₀ env P).Safe
    (fun r y => Pruning t₀ env P y.world ∧ ∀ e, r = .ok e →
      ∃ c, Config.ofEnvironment env = .ok c ∧ e.cache = ⟨c.cacheDirectory⟩) openEngine.run x := by
  have henv : (Rules.pruning m t₀ env P).Safe (fun r y => Pruning t₀ env P y.world ∧ r = env)
      (perform .environment) x := by
    refine Rules.Safe.perform (s := .environment) ?_
    rintro y rfl r w hr
    obtain ⟨rfl, rfl⟩ := Prod.mk.inj (Option.some.inj hr)
    exact ⟨fun h => h, fun z hz => hz ▸ ⟨h, h.environment⟩⟩
  refine .liftThen henv fun r y ⟨hy, hr⟩ => ?_
  subst hr
  cases hc : Config.ofEnvironment r with
  | error e => exact .pure fun z hz => hz ▸ ⟨hy, nofun⟩
  | ok c =>
    refine .lift (.next (hy.safe_still (Translator.ofConfig_still c)) fun t z hz => ?_)
    refine .next (hz.safe_still (still_perform rfl)) fun n u hu => .pure fun v hv => hv ▸ ⟨hu, ?_⟩
    rintro e he
    obtain rfl := Except.ok.inj he
    exact ⟨c, rfl, rfl⟩

theorem safe_after {p : Attempt Failure α} {f : α → Attempt Failure β} (hp : p.run.Still)
    (h : Pruning t₀ env P x.world) (hf : ∀ a y, Pruning t₀ env P y.world →
      (Rules.pruning m t₀ env P).Safe (fun _ z => Pruning t₀ env P z.world) (f a).run y) :
    (Rules.pruning m t₀ env P).Safe (fun _ y => Pruning t₀ env P y.world) (p >>= f).run x :=
  .attempt (h.safe_still hp) (fun a y hy => hf a y hy) fun _ _ h => h

theorem clean_prunes (model : Option String) (h : Pruning t₀ env (Cleans t₀ env model) x.world) :
    (Rules.pruning m t₀ env (Cleans t₀ env model)).Safe
      (fun _ y => Pruning t₀ env (Cleans t₀ env model) y.world) (clean model false).run x := by
  refine .attempt (safe_openEngine h) (fun e y hopen => ?_) fun _ _ h => h.1
  obtain ⟨hy, he⟩ := hopen
  obtain ⟨c, hc, hcache⟩ := he e rfl
  refine .liftThen (hy.safe_still (pathExists_still _)) fun b y hy => ?_
  cases b with
  | false => exact hy.safe_still (still_tell (printLine_still _))
  | true => cases model with
    | none =>
      refine safe_after (measured_still _) hy fun _ y hy => ?_
      refine safe_after (still_tell (report_still _ _)) hy fun _ y hy => ?_
      refine .ofThen (Q := fun _ y => Pruning t₀ env (Cleans t₀ env none) y.world) ?_
        (fun _ y hy => hy.safe_still (still_tell (report_still _ _))) fun _ _ h => h
      rw [hcache]
      refine .attempt (hy.safe_removeDirectoryAt (by simp [Cache.modelsDirectory, Path.join])
        fun k hk rest => .models hc hk rest) (fun _ y hy => ?_) fun _ _ h => h
      exact hy.safe_removeDirectoryAt (by simp [Cache.stagingDirectory, Path.join])
        fun k hk rest => .staging hc hk rest
    | some name =>
      refine .attempt (Q := fun r y => Pruning t₀ env (Cleans t₀ env (some name)) y.world ∧
        ∀ id, r = .ok id → name = id.name) ?_ (fun id y hname => ?_) fun _ _ h => h.1
      · refine .pure fun z hz => hz ▸ ⟨hy, fun id hid => ?_⟩
        cases hname : ModelIdentity.ofName name with
        | error e => simp [hname] at hid
        | ok id' =>
          rw [hname] at hid
          obtain rfl := Except.ok.inj hid
          exact ModelIdentity.ofName_eq_ok_iff.mp hname
      obtain ⟨hy, hid⟩ := hname
      obtain rfl := hid id rfl
      refine .liftThen (hy.safe_still (pathExists_still _)) fun b y hy => ?_
      cases b with
      | false => exact hy.safe_still (still_tell (printLine_still _))
      | true =>
        refine safe_after (measured_still _) hy fun _ y hy => ?_
        refine safe_after (still_tell (report_still _ _)) hy fun _ y hy => ?_
        refine .ofThen (Q := fun _ y => Pruning t₀ env (Cleans t₀ env (some id.name)) y.world) ?_
          (fun _ y hy => hy.safe_still (still_tell (report_still _ _))) fun _ _ h => h
        refine .liftThen (hy.safe_still (still_perform rfl)) fun _ y hy => ?_
        refine .of (Q := fun _ y => Pruning t₀ env (Cleans t₀ env (some id.name)) y.world) ?_
          (fun _ _ h => h) fun _ _ h => h
        rw [hcache]
        exact hy.safe_removeDirectoryAt (by simp [Cache.entryDirectory, Path.join])
          fun k hk rest => .entry hc hk rest

theorem resolve_beside {root : Path} {a b : String} {cwd k l : Location} (ha : IsPlain a) (hb : IsPlain b)
    (hk : t₀.resolve cwd false (root.join a) = .ok k) (hl : t₀.resolve cwd false (root.join b) = .ok l) :
    ∃ dir, k = dir ++ [a] ∧ l = dir ++ [b] := by
  obtain ⟨-, -, hfrom⟩ := (Tree.resolve_eq_ok (by simp [Path.join])).mp hk
  obtain ⟨-, -, hfrom'⟩ := (Tree.resolve_eq_ok (by simp [Path.join])).mp hl
  have hsame (s : String) : (root.join s).isAbsolute = root.isAbsolute := rfl
  rw [show (root.join a).tail = root.tail ++ [a] from rfl, ← List.append_assoc, hsame] at hfrom
  rw [show (root.join b).tail = root.tail ++ [b] from rfl, ← List.append_assoc, hsame] at hfrom'
  obtain ⟨d, hd, rfl⟩ := Tree.resolveFrom_concat ha hfrom
  obtain ⟨d', hd', rfl⟩ := Tree.resolveFrom_concat hb hfrom'
  exact ⟨d, rfl, by rw [Except.ok.inj (hd.symm.trans hd')]⟩

theorem not_cleans_locks {c : Config} {k : Location} (hc : Config.ofEnvironment env = .ok c)
    (hk : t₀.resolve env.location false (Cache.locksDirectory ⟨c.cacheDirectory⟩) = .ok k)
    (rest : Location) : ¬Cleans t₀ env none (k ++ rest) := by
  have hlocks : IsPlain ".locks" := by decide
  have hapart {s : String} (hs : IsPlain s) (hne : s ≠ ".locks") {l more : Location} {c' : Config}
      (hc' : Config.ofEnvironment env = .ok c')
      (hl : t₀.resolve env.location false (c'.cacheDirectory.join s) = .ok l) :
      l ++ more ≠ k ++ rest := by
    obtain rfl := Except.ok.inj (hc.symm.trans hc')
    obtain ⟨dir, rfl, rfl⟩ := resolve_beside hs hlocks hl hk
    intro heq
    rw [List.append_assoc, List.append_assoc, List.append_cancel_left_eq] at heq
    exact hne (List.cons.inj heq).1
  generalize hl : k ++ rest = l
  intro h
  cases h with
  | models hc' hk' more => exact hapart (by decide) (by decide) hc' hk' hl.symm
  | staging hc' hk' more => exact hapart (by decide) (by decide) hc' hk' hl.symm

end Cleaning

def Command.Looks : Command → Prop
  | .inspect .. | .logDensity .. | .list | .clean _ true => True
  | _ => False

theorem still_of_looks {command : Command} (h : command.Looks) : command.action.run.Still := by
  cases command with
  | compile => exact h.elim
  | inspect name data => exact inspect_still name data
  | logDensity name values data jacobian gradient =>
    exact logDensity_still name values data jacobian gradient
  | list => exact list_still
  | clean model dryRun =>
    cases dryRun with
    | true => exact clean_dry_still model
    | false => exact h.elim

/-- What the commands do to the files of a process that starts with them, after each of their
steps. -/
theorem commands_frame (m : Machine) (w : World) (hw : w.files.WellFormed) (hc : w.children = []) :
    (∀ command : Command, command.Looks → ∀ q y,
      command.action.run.Steps (Step.answers m) ⟨w, []⟩ q y → y.world.files = w.files) ∧
    (∀ name file data force, ¬Usable w name file data →
      Refuses m ⟨w, []⟩ (Command.compile name file data force).action.run) ∧
    (∀ model q y, (Command.clean model false).action.run.Steps (Step.answers m) ⟨w, []⟩ q y →
      w.files.Prunes (Cleans w.files w.environment model) y.world.files) ∧
    ∀ c k, Config.ofEnvironment w.environment = .ok c →
      w.files.resolve w.directory false (Cache.locksDirectory ⟨c.cacheDirectory⟩) = .ok k →
      ∀ q y, (Command.clean none false).action.run.Steps (Step.answers m) ⟨w, []⟩ q y →
        ∀ rest, y.world.files.get? (k ++ rest) = w.files.get? (k ++ rest) := by
  have hcalm := Custom.still_calm hc
  have hclean (model : Option String) {q : Program (Except Failure Unit)} {y : Moment}
      (hs : (clean model false).run.Steps (Step.answers m) ⟨w, []⟩ q y) :
      w.files.Prunes (Cleans w.files w.environment model) y.world.files := by
    have hp : Pruning w.files w.environment (Cleans w.files w.environment model) w :=
      ⟨fun _ => .inl rfl, hw, rfl, hcalm⟩
    exact ((clean_prunes (m := m) (x := ⟨w, []⟩) model hp).keeps
      (J := fun y => Pruning w.files w.environment (Cleans w.files w.environment model) y.world) hs hp
      fun _ _ hk => hk).files
  refine ⟨fun command hl q y hs => ?_, fun name file data force h => compile_refuses hcalm h,
    fun model q y hs => hclean model hs, fun c k hconfig hk q y hs rest => ?_⟩
  · exact (still_steps (still_of_looks hl) hcalm hs).files.symm
  · exact (hclean none hs (k ++ rest)).resolve_right fun h => not_cleans_locks hconfig hk rest h.2

def shelf : World :=
  .initial ⟨[(["c"], .directory), (["c", "model"], .directory), (["c", "model", "m"], .directory),
    (["c", ".locks"], .directory), (["c", ".locks", "m.lock"], .file 0 ⟨[], 0⟩ false)], 1⟩
    ⟨[("STANBIND_CACHE_DIR", "/c")], Site.path [], none, 1⟩ 0

theorem commands_frame_shelf : ∃ y,
    (Command.clean none false).action.run.Ends (Step.answers .idle) ⟨shelf, []⟩ (.ok ()) y ∧
    y.world.files.get? ["c", "model"] = none ∧
    y.world.files.get? ["c", ".locks", "m.lock"] = some (.file 0 ⟨[], 0⟩ false) := by
  have hrun : (((Command.clean none false).action.run.track .idle ⟨shelf, []⟩).any fun r =>
      r.1.isOk && (r.2.world.files.get? ["c", "model"]).isNone) = true := by
    decide +kernel
  obtain ⟨⟨r, y⟩, hends, hr⟩ := (Option.any_eq_true _ _).mp hrun
  rw [Bool.and_eq_true, Option.isNone_iff_eq_none] at hr
  obtain ⟨hok, hgone⟩ := hr
  cases r with
  | error f => simp [Except.isOk, Except.toBool] at hok
  | ok u =>
    have hs := Ends.of_track hends
    have hconfig : ∃ c, Config.ofEnvironment shelf.environment = .ok c ∧
        shelf.files.resolve shelf.directory false (Cache.locksDirectory ⟨c.cacheDirectory⟩) =
          .ok ["c", ".locks"] := ⟨_, rfl, by decide +kernel⟩
    obtain ⟨c, hc, hk⟩ := hconfig
    have hwf : shelf.files.WellFormed := ⟨by decide, by decide, by decide, by decide⟩
    exact ⟨y, hs, hgone, (commands_frame .idle shelf hwf rfl).2.2.2 c _ hc hk _ y hs ["m.lock"]⟩

end CommandLine

end CompiledModels
