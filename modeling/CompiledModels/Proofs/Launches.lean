import CompiledModels.Proofs.Alone
import CompiledModels.Proofs.Courtesy
import CompiledModels.Proofs.Ends

/-!
Which programs a compile starts: none if the entry is found; else the translator once and, if it
has accepted the source, the compiler once.
-/

namespace CompiledModels

open Files Program

variable {α ε : Type} {ok : ∀ s : Step, s.Reply → Prop} {e : Engine} {id : ModelIdentity}
  {source : String} {x y : Moment} {is : List Invocation} {p : Program α} {post : α → Prop}

def Step.starts? : Step → Option Invocation
  | .start i => some i
  | _ => none

def launched (past : List Taken) : List Invocation := past.filterMap (·.step.starts?)

theorem launched_start {i : Invocation} {r : (Step.start i).Reply} {past : List Taken} :
    launched (⟨.start i, r⟩ :: past) = i :: launched past := rfl

theorem launched_of_starts {t : Taken} {past : List Taken} (h : t.step.starts? = none) :
    launched (t :: past) = launched past := List.filterMap_cons_none h

def Invocation.IsProbe (i : Invocation) : Prop :=
  ∃ c : Compiler, i = ⟨c.executable, ["--version"], .discarded, .discarded⟩

namespace Engine

variable (e : Engine) (id : ModelIdentity)

def Translates (is : List Invocation) : Prop :=
  ∃ file, is = [⟨e.translator.program, Translator.arguments id file, .piped, .piped⟩]

def Asks (is : List Invocation) : Prop :=
  ∃ probes before, is = probes ++ before ∧ (∀ i ∈ probes, i.IsProbe) ∧ e.Translates id before

def Builds (is : List Invocation) : Prop :=
  ∃ c files target before, is = ⟨Compiler.executable c, e.builder.toolchain.arguments c files target,
    .piped, .inherited⟩ :: before ∧ e.Asks id before

def Launches : Except Error Compiled → List Invocation → Prop
  | .ok c, is => if c.cached then is = [] else e.Builds id is
  | .error (.translation _), is => is = [] ∨ e.Translates id is
  | .error (.build _), is => e.Asks id is ∨ e.Builds id is
  | .error _, is => is = [] ∨ e.Builds id is

end Engine

theorem Engine.Translates.asks (h : e.Translates id is) : e.Asks id is :=
  ⟨[], is, rfl, by simp, h⟩

abbrev Rules.launching : Rules := .traced (fun _ _ => True) fun _ _ => True

section Launching

theorem Rules.launching_stable (Q : List Invocation → Prop) :
    Rules.launching.Stable fun y => Q (launched y.past) :=
  Rules.traced_stable fun past => Q (launched past)

theorem launching_pure {a : α} {Q : α → List Invocation → Prop} (h : Q a (launched x.past)) :
    Rules.launching.Safe (fun a y => Q a (launched y.past)) (pure a) x :=
  .done h (Rules.launching_stable (Q a))

theorem Program.Only.launching (h : p.Only (fun _ _ => True) (·.starts? = none) post)
    (hx : launched x.past = is) :
    Rules.launching.Safe (fun a y => post a ∧ launched y.past = is) p x := by
  refine h.safe (J := fun y => launched y.past = is) hx (Rules.launching_stable (· = is)) ?_
  intro y s r w hy hs _
  exact ⟨trivial, ⟨_, rfl, trivial⟩, (launched_of_starts hs).trans hy⟩

theorem perform_launching {s : Step} (hs : s.starts? = none) (hx : launched x.past = is) :
    Rules.launching.Safe (fun _ y => launched y.past = is) (perform s) x :=
  Rules.traced_perform (Q := fun _ past => launched past = is) trivial fun _ _ => by
    rw [launched_of_starts hs, hx]

theorem start_launching {i : Invocation} (hx : launched x.past = is) :
    Rules.launching.Safe (fun _ y => launched y.past = i :: is) (perform (.start i)) x :=
  Rules.traced_perform (Q := fun _ past => launched past = i :: is) trivial fun _ _ => by
    rw [launched_start, hx]

theorem starts_of_quiet (s : Step) (h : s.isQuiet = true) : s.starts? = none := by
  cases s <;> first | rfl | simp [Step.isQuiet] at h

theorem starts_of_brief (s : Step) (h : s.isBrief = true) : s.starts? = none := by
  cases s <;> first | rfl | simp [Step.isBrief, Step.isPrompt] at h

theorem starts_of_prompt (s : Step) (h : s.isPrompt = true) : s.starts? = none :=
  starts_of_brief s (Step.isBrief_of_isPrompt h)

theorem brief_launching {post : α → Prop} (h : p.Only (fun _ _ => True) (·.isBrief = true) post)
    (hx : launched x.past = is) :
    Rules.launching.Safe (fun a y => post a ∧ launched y.past = is) p x :=
  (h.mono starts_of_brief).launching hx

theorem inTemporary_launching {start : String} {dir : Path} {wrap : FileError → ε}
    {work : Path → Attempt ε α} {Q : Except ε α → List Invocation → Prop}
    (hwork : ∀ q y, launched y.past = is →
      Rules.launching.Safe (fun r z => Q r (launched z.past)) (work q).run y)
    (herr : ∀ cause, Q (.error (wrap cause)) is) (hx : launched x.past = is) :
    Rules.launching.Safe (fun r y => Q r (launched y.past))
      (Attempt.inTemporary start dir wrap work).run x := by
  refine .ofThen (brief_launching makeTemporary_brief hx) (fun q y hy => ?_)
    fun cause y hy => hy.2 ▸ herr cause
  refine .andThen (hwork q y hy.2) fun r z hz => ?_
  refine (brief_launching removeAll_brief rfl).next fun _ u hu => ?_
  exact launching_pure (Q := fun (_ : Unit) => Q r) (hu.2 ▸ hz)

end Launching

section Stages

theorem writeText_starts (q : Path) (text : String) :
    (writeText q text).Only (fun _ _ => True) (·.starts? = none) fun _ => True :=
  Only.perform (s := .write q (Text.encode text)) rfl fun _ _ => trivial

theorem transcribe_launching {file : Path} (hx : launched x.past = []) :
    Rules.launching.Safe (fun _ y => e.Translates id (launched y.past))
      (e.translator.transcribe id file).run x := by
  have hend {r : Except TranslationError Translation} {y : Moment}
      (hy : e.Translates id (launched y.past)) :
      Rules.launching.Safe (fun _ y => e.Translates id (launched y.past)) (pure r) y :=
    launching_pure (Q := fun (_ : Except TranslationError Translation) => e.Translates id) hy
  refine .ofThen (start_launching hx) (fun child y hy => ?_) fun _ y hy => ⟨file, hy⟩
  refine .attempt ((await_only starts_of_quiet).launching hy) (fun status z hz => ?_)
    fun _ z hz => ⟨file, hz.2⟩
  refine .liftThen (perform_launching rfl hz.2) fun _ u hu => ?_
  refine .liftThen (perform_launching rfl hu) fun _ v hv => ?_
  split
  · exact hend ⟨file, hv⟩
  · exact hend ⟨file, hv⟩

theorem translate_launching (hx : launched x.past = []) :
    Rules.launching.Safe (fun r y => (∀ t, r = .ok t → e.Translates id (launched y.past)) ∧
        (launched y.past = [] ∨ e.Translates id (launched y.past)))
      (e.translator.translate source id).run x := by
  have hfailed (cause : TranslationError) : ∀ t : Translation,
      (Except.error cause : Except TranslationError Translation) = .ok t → e.Translates id [] :=
    fun _ h => by simp at h
  rw [Translator.translate_eq]
  refine .liftThen (perform_launching rfl hx) fun v y hy => ?_
  refine inTemporary_launching (Q := fun r is => (∀ t, r = .ok t → e.Translates id is) ∧
    (is = [] ∨ e.Translates id is)) (fun scratch z hz => ?_) (fun _ => ⟨hfailed _, .inl rfl⟩) hy
  refine .ofThen ((writeText_starts _ source).launching hz) (fun _ u hu => ?_) fun cause u hu => ?_
  · exact (transcribe_launching hu.2).weaken fun _ _ h => ⟨fun _ _ => h, .inr h⟩
  · rw [hu.2]
    exact ⟨hfailed _, .inl rfl⟩

theorem runToEnd_launching {i : Invocation} (hx : launched x.past = is) :
    Rules.launching.Safe (fun _ y => launched y.past = i :: is) (Builder.runToEnd i) x := by
  have hend {r : Except FileError (Bytes × ExitStatus)} {y : Moment} (hy : launched y.past = i :: is) :
      Rules.launching.Safe (fun _ y => launched y.past = i :: is) (pure r) y :=
    launching_pure (Q := fun (_ : Except FileError (Bytes × ExitStatus)) => (· = i :: is)) hy
  refine (start_launching hx).next fun r y hy => ?_
  cases r with
  | error cause => exact hend hy
  | ok child =>
    refine (perform_launching rfl hy).next fun _ z hz => ?_
    refine (perform_launching rfl hz).next fun r u hu => ?_
    cases r with
    | error cause => exact hend hu
    | ok status => exact hend hu

theorem isAvailable_launching (c : Compiler) (hx : e.Asks id (launched x.past)) :
    Rules.launching.Safe (fun _ y => e.Asks id (launched y.past)) c.isAvailable x := by
  have hend {b : Bool} {y : Moment} (hy : e.Asks id (launched y.past)) :
      Rules.launching.Safe (fun _ y => e.Asks id (launched y.past)) (pure b) y :=
    launching_pure (Q := fun (_ : Bool) => e.Asks id) hy
  have hasked (r : Except FileError Nat) (y : Moment) (hy : launched y.past =
      ⟨c.executable, ["--version"], .discarded, .discarded⟩ :: launched x.past) :
      e.Asks id (launched y.past) := by
    obtain ⟨probes, before, his, hp, ht⟩ := hx
    refine ⟨_ :: probes, before, by rw [hy, his, List.cons_append], ?_, ht⟩
    exact List.forall_mem_cons.mpr ⟨⟨c, rfl⟩, hp⟩
  refine iteInduction (motive := fun p => Rules.launching.Safe _ p x) (fun _ => ?_) fun _ => ?_
  · exact ((isFile_only (starts_of_prompt _ rfl)).launching rfl).weaken fun _ _ h => h.2 ▸ hx
  · refine (start_launching rfl).next fun r y hy => ?_
    cases r with
    | error cause => exact hend (hasked (.error cause) y hy)
    | ok child =>
      refine (perform_launching rfl hy).next fun r z hz => ?_
      have hz := hasked (.ok child) z hz
      cases r with
      | error cause => exact hend hz
      | ok status => exact hend hz

theorem resolve_launching (t : Toolchain) (hx : e.Asks id (launched x.past)) :
    Rules.launching.Safe (fun _ y => e.Asks id (launched y.past)) t.resolve.run x := by
  have hfirst (cs : List Compiler) {y : Moment} (hy : e.Asks id (launched y.past)) :
      Rules.launching.Safe (fun _ y => e.Asks id (launched y.past)) (Compiler.firstAvailable cs) y := by
    induction cs generalizing y with
    | nil => exact launching_pure (Q := fun (_ : Option Compiler) => e.Asks id) hy
    | cons c cs ih =>
      refine (isAvailable_launching c hy).next fun b z hz => ?_
      split
      · exact launching_pure (Q := fun (_ : Option Compiler) => e.Asks id) hz
      · exact ih hz
  have hend {r : Except BuildError Compiler} {y : Moment} (hy : e.Asks id (launched y.past)) :
      Rules.launching.Safe (fun _ y => e.Asks id (launched y.past)) (pure r) y :=
    launching_pure (Q := fun (_ : Except BuildError Compiler) => e.Asks id) hy
  unfold Toolchain.resolve
  split
  · exact hend hx
  · refine .liftThen (hfirst _ hx) fun o y hy => ?_
    cases o with
    | none => exact hend hy
    | some c => exact hend hy

theorem recorded_launching {redirected : Bool} {work : Program α}
    (h : ∀ y, launched y.past = launched x.past →
      Rules.launching.Safe (fun _ z => launched z.past = is) work y) :
    Rules.launching.Safe (fun _ y => launched y.past = is) (Builder.recorded redirected work) x := by
  have hd (s : Step) (hs : s.isHandling = true) : s.starts? = none :=
    starts_of_quiet s (Step.isQuiet_of_isHandling hs)
  have hrest (capture : Except FileError Capture) (y : Moment) (hy : launched y.past = launched x.past) :
      Rules.launching.Safe (fun _ y => launched y.past = is)
        (work >>= fun a => Builder.captured capture >>= fun t => pure (a, t)) y := by
    refine (h y hy).next fun a z hz => ?_
    refine ((captured_only hd (fun _ => rfl) capture).launching hz).next fun t u hu => ?_
    exact launching_pure (Q := fun (_ : α × String) => (· = is)) hu.2
  unfold Builder.recorded
  split
  · exact ((begin_only hd rfl).launching rfl).next fun capture y hy => hrest capture y hy.2
  · exact hrest (.error (.os .badDescriptor)) x rfl

theorem compileFiles_launching {c : Compiler} {number : Nat} {files : List Path} {target : Path}
    (hx : e.Asks id (launched x.past)) :
    Rules.launching.Safe (fun _ y => e.Builds id (launched y.past))
      (e.builder.compileFiles c source id number files target).run x := by
  have hend {r : Except BuildError BuildOutput} {y : Moment} (hy : e.Builds id (launched y.past)) :
      Rules.launching.Safe (fun _ y => e.Builds id (launched y.past)) (pure r) y :=
    launching_pure (Q := fun (_ : Except BuildError BuildOutput) => e.Builds id) hy
  refine .liftThen (perform_launching rfl rfl) fun nanos y hy => ?_
  have hrun (z : Moment) (hz : launched z.past = launched y.past) := runToEnd_launching
    (i := ⟨c.executable, e.builder.toolchain.arguments c files (target.join (ModuleFile.name id
      (Builder.buildNumber source nanos number))), .piped, .inherited⟩) (hz.trans hy)
  refine .liftThen (recorded_launching hrun) fun r z hz => ?_
  have hz : e.Builds id (launched z.past) := ⟨c, files, _, _, hz, hx⟩
  obtain ⟨r, captured⟩ := r
  cases r with
  | error cause => exact hend hz
  | ok out =>
    simp only
    split
    · exact hend hz
    · refine .liftThen ((isFile_only (starts_of_prompt _ rfl)).launching rfl) fun b u hu => ?_
      have hu : e.Builds id (launched u.past) := hu.2 ▸ hz
      split
      · exact hend hu
      · refine .liftThen (perform_launching (s := .emit _) rfl rfl) fun _ v hv => ?_
        exact hend (hv ▸ hu)

theorem writeSources_starts (sources : List (Path × String)) :
    (Builder.writeSources sources).run.Only (fun _ _ => True) (·.starts? = none) fun _ => True := by
  induction sources with
  | nil => trivial
  | cons source sources ih =>
    exact .ofThen (writeText_starts _ _) (fun _ _ => ih) fun _ _ => trivial

theorem build_launching {target : Path} (hx : e.Asks id (launched x.past)) :
    Rules.launching.Safe (fun r y => (∀ o, r = .ok o → e.Builds id (launched y.past)) ∧
        (e.Asks id (launched y.past) ∨ e.Builds id (launched y.past)))
      (e.builder.build source id target).run x := by
  have hfailed (cause : BuildError) (is : List Invocation) : ∀ o : BuildOutput,
      (Except.error cause : Except BuildError BuildOutput) = .ok o → e.Builds id is :=
    fun _ h => by simp at h
  rw [Builder.build_eq]
  refine .attempt (resolve_launching _ hx) (fun c y hy => ?_) fun _ _ hy => ⟨hfailed _ _, .inl hy⟩
  refine .liftThen (perform_launching rfl rfl) fun v z hz => ?_
  have hz : e.Asks id (launched z.past) := hz ▸ hy
  refine inTemporary_launching (Q := fun r is => (∀ o, r = .ok o → e.Builds id is) ∧
    (e.Asks id is ∨ e.Builds id is)) (fun scratch u hu => ?_) (fun _ => ⟨hfailed _ _, .inl hz⟩) rfl
  refine .attempt ((writeSources_starts _).launching hu) (fun _ o ho => ?_) fun _ o ho => ?_
  · have ho : e.Asks id (launched o.past) := ho.2 ▸ hz
    exact (compileFiles_launching ho).weaken fun _ _ h => ⟨fun _ _ => h, .inr h⟩
  · exact ⟨hfailed _ _, .inl (ho.2 ▸ hz)⟩

def Engine.published (r : Except Error CompiledEntry) : Except Error Compiled :=
  r.map fun entry => ⟨entry.buildOutput, entry.warnings, false⟩

theorem compileModel_launching (hx : launched x.past = []) :
    Rules.launching.Safe (fun r y => e.Launches id (Engine.published r) (launched y.past))
      (e.cache.compileModel id source e.translator e.builder).run x := by
  refine .ofThen (brief_launching openStaging_brief hx) (fun staging y hy => ?_)
    fun _ y hy => Or.inl hy.2
  refine inTemporary_launching (Q := fun r => e.Launches id (Engine.published r)) (fun work z hz => ?_)
    (fun _ => Or.inl rfl) hy.2
  refine .ofThen (translate_launching hz) (fun t u hu => ?_) fun _ u hu => hu.2
  refine .ofThen (build_launching (hu.1 t rfl).asks) (fun o v hv => ?_) fun _ v hv => hv.2
  have hv : e.Builds id (launched v.past) := hv.1 o rfl
  refine .liftThen (perform_launching (s := .now) rfl rfl) fun now v' hv' => ?_
  refine .ofThen (brief_launching store_brief hv') (fun file o ho => ?_) fun _ o ho => Or.inr ?_
  · refine .liftThen (perform_launching (s := .emit _) rfl ho.2) fun _ o' ho' => ?_
    refine launching_pure (Q := fun r => e.Launches id (Engine.published r)) ?_
    show e.Builds id (launched o'.past)
    rwa [ho']
  · rwa [ho.2]

theorem approach_launching (hx : launched x.past = []) :
    Rules.launching.Safe (fun r y => launched y.past = [] ∧
        ∀ r', r = .error r' → e.Launches id r' []) (e.approach id source) x := by
  let Q (r : Except (Except Error Compiled) Nat) (is : List Invocation) : Prop :=
    is = [] ∧ ∀ r', r = .error r' → e.Launches id r' []
  have hfound {hit : Compiled} {y : Moment} (hy : launched y.past = []) (h : hit.cached = true) :
      Rules.launching.Safe (fun r y => Q r (launched y.past)) (pure (.error (.ok hit))) y := by
    refine launching_pure (Q := Q) ⟨hy, fun r' hr => ?_⟩
    obtain rfl := Except.error.inj hr
    simp [Engine.Launches, h]
  have hfailed {cause : CacheError} {y : Moment} (hy : launched y.past = []) :
      Rules.launching.Safe (fun r y => Q r (launched y.past)) (pure (.error (.error (.cache cause)))) y := by
    refine launching_pure (Q := Q) ⟨hy, fun r' hr => ?_⟩
    obtain rfl := Except.error.inj hr
    exact Or.inl rfl
  have hcached {y : Moment} (hy : launched y.past = []) :
      Rules.launching.Safe (fun o y => (∀ hit, o = some hit → hit.cached = true) ∧ launched y.past = [])
        (e.cached id source) y :=
    (cached_found fun s hs => starts_of_prompt s hs.isPrompt).launching hy
  have hlock : (e.cache.lock id).run.Only (fun _ _ => True) (·.starts? = none) fun _ => True := by
    have hperform {s : Step} (hs : s.starts? = none) : (perform s).Only (fun _ _ => True)
        (·.starts? = none) fun _ => True := .perform hs fun _ _ => trivial
    refine .ofThen (createAll_brief.mono starts_of_brief) (fun _ _ => ?_) fun _ _ => trivial
    refine .ofThen (hperform rfl) (fun _ _ => ?_) fun _ _ => trivial
    exact .ofThen (hperform rfl) (fun _ _ => trivial) fun _ _ => trivial
  unfold Engine.approach
  refine (hcached hx).next fun o y hy => ?_
  cases o with
  | some hit => exact hfound hy.2 (hy.1 hit rfl)
  | none =>
    refine (hlock.launching hy.2).next fun r z hz => ?_
    cases r with
    | error cause => exact hfailed hz.2
    | ok n =>
      refine (hcached hz.2).next fun o u hu => ?_
      cases o with
      | some hit => exact (perform_launching rfl hu.2).next fun _ v hv => hfound hv (hu.1 hit rfl)
      | none =>
        refine (perform_launching rfl hu.2).next fun _ v hv => ?_
        refine (brief_launching delete_brief hv).next fun r o ho => ?_
        cases r with
        | error cause => exact (perform_launching rfl ho.2).next fun _ o' ho' => hfailed ho'
        | ok _ => exact launching_pure (Q := Q) ⟨ho.2, fun _ h => by simp at h⟩

theorem compile_launching (hx : launched x.past = []) :
    Rules.launching.Safe (fun r y => e.Launches id r (launched y.past)) (e.compile id source).run x := by
  have hend {r : Except Error Compiled} {y : Moment} (hy : e.Launches id r (launched y.past)) :
      Rules.launching.Safe (fun r y => e.Launches id r (launched y.past)) (pure r) y :=
    launching_pure (Q := fun r => e.Launches id r) hy
  rw [Engine.compile_eq]
  have happroach : Rules.launching.Safe (fun r y => launched y.past = [] ∧
      ∀ r', r = .error r' → e.Launches id r' []) (e.approach id source) x := approach_launching hx
  refine happroach.next fun r y hy => ?_
  cases r with
  | error r => exact hend (hy.1 ▸ hy.2 r rfl)
  | ok n =>
    refine (compileModel_launching hy.1).next fun r z hz => ?_
    cases r with
    | error err => exact (perform_launching rfl rfl).next fun _ u hu => hend (hu ▸ hz)
    | ok entry =>
      refine (perform_launching rfl rfl).next fun _ u hu => (perform_launching rfl hu).next fun _ v hv => ?_
      exact hend (hv ▸ hz)

theorem compile_launches {act : Answers} {w : World} {r : Except Error Compiled}
    (h : (e.compile id source).run.Ends act ⟨w, []⟩ r y) : e.Launches id r (launched y.past) :=
  (compile_launching (x := ⟨w, []⟩) rfl).steps_done (h.mono fun _ _ _ _ _ => trivial)

end Stages

end CompiledModels
