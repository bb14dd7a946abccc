import CompiledModels.Proofs.Conduct

/-!
Which steps the programs of the cache take, whatever they are answered.
-/

namespace CompiledModels

open Files

variable {α β ε ε' : Type}

def Program.Only (ok : ∀ s : Step, s.Reply → Prop) (P : Step → Prop) (post : α → Prop) :
    Program α → Prop
  | .done a => post a
  | .step s next => P s ∧ ∀ r, ok s r → (next r).Only ok P post

namespace Program.Only

variable {ok : ∀ s : Step, s.Reply → Prop} {P P' : Step → Prop} {p : Program α}
  {post post' : α → Prop}

theorem weaken (h : p.Only ok P post) (hp : ∀ a, post a → post' a) : p.Only ok P post' := by
  induction p with
  | done a => exact hp a h
  | step s next ih => exact ⟨h.1, fun r hr => ih r (h.2 r hr)⟩

theorem mono (h : p.Only ok P post) (hp : ∀ s, P s → P' s) : p.Only ok P' post := by
  induction p with
  | done a => exact h
  | step s next ih => exact ⟨hp s h.1, fun r hr => ih r (h.2 r hr)⟩

theorem and (h : p.Only ok P post) (h' : p.Only ok P' post') :
    p.Only ok (fun s => P s ∧ P' s) fun a => post a ∧ post' a := by
  induction p with
  | done a => exact ⟨h, h'⟩
  | step s next ih => exact ⟨⟨h.1, h'.1⟩, fun r hr => ih r (h.2 r hr) (h'.2 r hr)⟩

theorem next {f : α → Program β} {Q : α → Prop} {post : β → Prop} (h : p.Only ok P Q)
    (hf : ∀ a, Q a → (f a).Only ok P post) : (p >>= f).Only ok P post := by
  induction p with
  | done a => exact hf a h
  | step s next ih => exact ⟨h.1, fun r hr => ih r (h.2 r hr)⟩

theorem perform {s : Step} {post : s.Reply → Prop} (hs : P s) (h : ∀ r, ok s r → post r) :
    (Program.perform s).Only ok P post := ⟨hs, h⟩

theorem ran {q : Program α} {past : List Taken} (h : p.Only ok P post) (hr : p.Ran past q)
    (hok : ∀ t ∈ past, ok t.step t.reply) : q.Only ok P post ∧ ∀ t ∈ past, P t.step := by
  induction hr with
  | refl => exact ⟨h, by simp⟩
  | @step past s next _ r ih =>
    obtain ⟨⟨hs, hn⟩, hp⟩ := ih fun t ht => hok t (by simp [ht])
    exact ⟨hn r (hok ⟨s, r⟩ (by simp)), by simpa using ⟨hs, hp⟩⟩

theorem attempt {p : Attempt ε α} {f : α → Attempt ε β} {Q : Except ε α → Prop}
    {post : Except ε β → Prop} (h : p.run.Only ok P Q)
    (hok : ∀ a, Q (.ok a) → (f a).run.Only ok P post)
    (herr : ∀ e, Q (.error e) → post (.error e)) : (p >>= f).run.Only ok P post := by
  refine next h fun r hr => ?_
  cases r with
  | ok a => exact hok a hr
  | error e => exact herr e hr

theorem of {p : Program (Except ε' α)} {wrap : ε' → ε} {Q : Except ε' α → Prop}
    {post : Except ε α → Prop} (h : p.Only ok P Q) (hok : ∀ a, Q (.ok a) → post (.ok a))
    (herr : ∀ e, Q (.error e) → post (.error (wrap e))) :
    (Attempt.of p wrap).run.Only ok P post := by
  refine next h fun r hr => ?_
  cases r with
  | ok a => exact hok a hr
  | error e => exact herr e hr

theorem ofThen {p : Program (Except ε' α)} {wrap : ε' → ε} {f : α → Attempt ε β}
    {Q : Except ε' α → Prop} {post : Except ε β → Prop} (h : p.Only ok P Q)
    (hok : ∀ a, Q (.ok a) → (f a).run.Only ok P post)
    (herr : ∀ e, Q (.error e) → post (.error (wrap e))) :
    (Attempt.of p wrap >>= f).run.Only ok P post := by
  have hp : (Attempt.of p wrap).run.Only ok P fun r =>
      (∀ a, r = .ok a → Q (.ok a)) ∧ ∀ e, r = .error e → post (.error e) :=
    of h (fun a ha => ⟨fun b hb => Except.ok.inj hb ▸ ha, by simp⟩)
      fun e he => ⟨by simp, fun x hx => Except.error.inj hx ▸ herr e he⟩
  exact attempt hp (fun a ha => hok a (ha.1 a rfl)) fun e he => he.2 e rfl

theorem liftThen {p : Program α} {f : α → Attempt ε β} {Q : α → Prop} {post : Except ε β → Prop}
    (h : p.Only ok P Q) (hf : ∀ a, Q a → (f a).run.Only ok P post) :
    ((liftM p : Attempt ε α) >>= f).run.Only ok P post := by
  have hp : (liftM p : Attempt ε α).run.Only ok P fun r => ∃ a, r = .ok a ∧ Q a :=
    next h fun a ha => ⟨a, rfl, ha⟩
  refine attempt hp ?_ ?_
  · rintro a ⟨b, hb, hm⟩
    rw [Except.ok.injEq] at hb
    exact hf a (hb ▸ hm)
  · rintro e ⟨a, ha, _⟩
    simp at ha

theorem andThen {p : Attempt ε α} {after : Program Unit} {post : Except ε α → Prop}
    (h : p.run.Only ok P post) (ha : after.Only ok P fun _ => True) :
    (Attempt.andThen p after).run.Only ok P post :=
  next h fun _ hr => next ha fun _ _ => hr

theorem ite {b : Prop} [Decidable b] {q : Program α} (hp : p.Only ok P post)
    (hq : q.Only ok P post) : (if b then p else q).Only ok P post := by
  split
  · exact hp
  · exact hq

theorem safe {R : Rules} {J : Moment → Prop} {x : Moment} (h : p.Only ok P post) (hx : J x)
    (hJ : R.Stable J) (hs : ∀ y s r w, J y → P s → R.act y.world s r w → ok s r ∧
      R.keep y (y.after s r w) ∧ J (y.after s r w)) :
    R.Safe (fun a y => post a ∧ J y) p x := by
  induction p generalizing x with
  | done a => exact Rules.Safe.done_iff.2 fun y hy => ⟨h, hJ _ _ hy hx⟩
  | step s next ih =>
    rw [Rules.Safe.step_iff]
    intro y hy r w hr
    obtain ⟨hr', hk, hj⟩ := hs y s r w (hJ _ _ hy hx) h.1 hr
    exact ⟨hk, ih r (h.2 r hr') hj⟩

end Program.Only

def Step.Credible (env : Environment) : (s : Step) → s.Reply → Prop
  | .list _, r => ∀ es, r = .ok es → ∀ e ∈ es, IsPlain e.name
  | .environment, r => r = env
  | .acquire _, r => r = .ok ()
  | _, _ => True

def Step.isOutside : Step → Bool
  | .getOrLoad .. | .invalidate .. | .newRegistry | .enter _ | .leave _ => false
  | _ => true

def Step.isQuiet : Step → Bool
  | .start _ | .getOrLoad .. | .invalidate .. | .newRegistry | .enter _ | .leave _ => false
  | s => s.isIdle

theorem Step.isIdle_of_isQuiet {s : Step} (h : s.isQuiet = true) : s.isIdle = true := by
  cases s <;> first | rfl | exact h

def Step.isPrompt : Step → Bool
  | .stat .. | .list _ | .read _ | .drawSuffix | .environment | .emit _ => true
  | _ => false

theorem Step.isQuiet_of_isPrompt {s : Step} (h : s.isPrompt = true) : s.isQuiet = true := by
  cases s <;> first | rfl | simp [Step.isPrompt] at h

def Step.isBrief : Step → Bool
  | .write .. | .makeDirectory _ | .removeFile _ | .removeDirectory _ | .rename .. | .copy .. => true
  | s => s.isPrompt

theorem Step.isBrief_of_isPrompt {s : Step} (h : s.isPrompt = true) : s.isBrief = true := by
  cases s <;> first | rfl | simp [Step.isPrompt] at h

theorem Step.exec_isBrief {m : Machine} {w : World} {s : Step} (h : s.isBrief = true) :
    ∃ r w', s.exec m w = some (r, w') := by
  cases s <;> first | exact ⟨_, _, rfl⟩ | simp [Step.isBrief, Step.isPrompt] at h

theorem credible_of_exec {m : Machine} {w w' : World} {s : Step} {r : s.Reply}
    (hw : w.files.WellFormed) (h : s.exec m w = some (r, w')) : s.Credible w.environment r := by
  cases s with
  | list p =>
    rintro es rfl e he
    have hlist : w.files.list w.directory p = .ok es := (Prod.mk.inj (Option.some.inj h)).1
    obtain ⟨l, _, _, rfl⟩ := Tree.list_eq_ok.mp hlist
    obtain ⟨n, hn, _⟩ := hw.mem_children.mp he
    exact (hw.proper_name (by rw [hn]; simp)).1
  | environment => exact (Prod.mk.inj (Option.some.inj h)).1.symm
  | acquire n =>
    simp only [Step.exec] at h
    split at h
    · simp at h
    · exact (Prod.mk.inj (Option.some.inj h)).1.symm
  | _ => trivial

def Step.LooksAt (c : Cache) (id : ModelIdentity) : Step → Prop
  | .list p => p = c.entryDirectory id
  | .stat p follow =>
    follow = true ∧ (p = c.entryDirectory id ∨ ∃ name, p = (c.entryDirectory id).join name)
  | .read p => ∃ name, p = (c.entryDirectory id).join name
  | .emit _ => True
  | _ => False

theorem Step.LooksAt.isPrompt {c : Cache} {id : ModelIdentity} {s : Step} (h : s.LooksAt c id) :
    s.isPrompt = true := by
  cases s <;> first | rfl | exact h.elim

section Looking

open Program

variable {ok : ∀ s : Step, s.Reply → Prop} {P : Step → Prop} {p : Path}

theorem isFile_only (h : P (.stat p true)) : (isFile p).Only ok P fun _ => True :=
  .next (.perform h fun _ h => h) fun r _ => by cases r <;> trivial

theorem isDirectory_only (h : P (.stat p true)) : (isDirectory p).Only ok P fun _ => True :=
  .next (.perform h fun _ h => h) fun r _ => by cases r <;> trivial

theorem pathExists_only (h : P (.stat p true)) : (pathExists p).Only ok P fun _ => True :=
  .next (.perform h fun _ h => h) fun r _ => by cases r <;> trivial

theorem readText_only (h : P (.read p)) : (readText p).Only ok P fun _ => True := by
  refine .next (.perform h fun _ h => h) fun r _ => ?_
  cases r with
  | error e => trivial
  | ok bytes =>
    simp only
    split <;> trivial

theorem filesAmong_only (h : ∀ name, P (.stat (p.join name) true)) (names : List String) :
    (Cache.filesAmong p names).Only ok P fun _ => True := by
  induction names with
  | nil => trivial
  | cons name names ih => exact (isFile_only (h name)).next fun _ _ => ih.next fun _ _ => trivial

section Entry

variable {c : Cache} {id : ModelIdentity} (hl : ∀ s : Step, s.LooksAt c id → P s)
include hl

theorem modulePath_only : (c.modulePath id).Only ok P fun r =>
    ∀ p, r = some p → ∃ name, p = (c.entryDirectory id).join name := by
  refine .next (.perform (hl _ rfl) fun _ h => h) fun r _ => ?_
  cases r with
  | error e => exact fun p hp => by simp at hp
  | ok es =>
    refine (filesAmong_only (fun name => hl _ ⟨rfl, .inr ⟨name, rfl⟩⟩) _).next fun names _ p hp => ?_
    obtain ⟨name, -, rfl⟩ := Option.map_eq_some_iff.mp hp
    exact ⟨name, rfl⟩

theorem exists_only : (c.exists? id).Only ok P fun _ => True :=
  (modulePath_only hl).next fun _ _ => trivial

theorem readArtifact_only {name what : String} :
    (c.readArtifact id name what).run.Only ok P fun _ => True := by
  refine .liftThen (isDirectory_only (hl _ ⟨rfl, .inl rfl⟩)) fun b _ => ?_
  split
  · trivial
  · exact .of (readText_only (hl _ ⟨name, rfl⟩)) (fun _ _ => trivial) fun _ _ => trivial

theorem loadManifest_only : (c.loadManifest id).run.Only ok P fun _ => True :=
  .ofThen (readArtifact_only hl) (fun _ _ => trivial) fun _ _ => trivial

omit hl in
theorem admits_only (he : ∀ event, P (.emit event)) {source : String}
    {manifest : Except Error Manifest} :
    (Engine.admits id source manifest).Only ok P fun _ => True := by
  unfold Engine.admits
  split
  · trivial
  · split
    · exact .next (.perform (he _) fun _ h => h) fun _ _ => trivial
    · split
      · exact .next (.perform (he _) fun _ h => h) fun _ _ => trivial
      · trivial

end Entry

theorem cached_found {e : Engine} {id : ModelIdentity} {source : String}
    (hl : ∀ s : Step, s.LooksAt e.cache id → P s) :
    (e.cached id source).Only ok P fun o => ∀ hit, o = some hit → hit.cached = true := by
  have he (event : Event) : P (.emit event) := hl _ trivial
  have hnone {o : Option Compiled} (ho : o = none) : ∀ hit, o = some hit → hit.cached = true :=
    fun hit h => by simp [ho] at h
  refine (exists_only hl).next fun b _ => ?_
  split
  · exact hnone rfl
  · refine (readArtifact_only hl).next fun r _ => ?_
    cases r with
    | error cause => exact .next (.perform (he _) fun _ h => h) fun _ _ => hnone rfl
    | ok diagnostics =>
      refine (readArtifact_only hl).next fun _ _ => (loadManifest_only hl).next fun _ _ =>
        (admits_only he).next fun b _ => ?_
      split
      · exact .next (.perform (he _) fun _ h => h) fun _ _ hit h => Option.some.inj h ▸ rfl
      · exact hnone rfl

theorem cached_only {e : Engine} {id : ModelIdentity} {source : String}
    (hl : ∀ s : Step, s.LooksAt e.cache id → P s) :
    (e.cached id source).Only ok P fun _ => True := (cached_found hl).weaken fun _ _ => trivial

variable (hq : ∀ s, s.isPrompt = true → P s)
include hq

theorem prompt_only {s : Step} (hs : s.isPrompt = true) :
    (Program.perform s).Only ok P fun r => ok s r :=
  .perform (hq s hs) fun _ h => h

end Looking

def Translator.transcribe (t : Translator) (id : ModelIdentity) (file : Path) :
    Attempt TranslationError Translation := do
  let child ← Attempt.of
    (Program.perform (.start ⟨t.program, arguments id file, .piped, .piped⟩))
    (.notStarted t.program)
  let status ← t.await id child
  let out := Text.decodeLossy (← Program.perform (.collectOut child))
  let err := Text.decodeLossy (← Program.perform (.collectErr child))
  if status.success then return ⟨Text.trim out, Text.trim err⟩
  else throw (.rejected (Text.trim err))

theorem Translator.translate_eq (t : Translator) (source : String) (id : ModelIdentity) :
    t.translate source id = (do
      let e ← Program.perform .environment
      Attempt.inTemporary "stanbind_" (t.scratchRoot.getD e.temporaryDirectory) .io fun scratch => do
        Attempt.of (Program.writeText (scratch.join (id.name ++ ".stan")) source) .io
        t.transcribe id (scratch.join (id.name ++ ".stan"))) := rfl

def Builder.compileFiles (b : Builder) (compiler : Compiler) (source : String) (id : ModelIdentity)
    (processNumber : Nat) (files : List Path) (target : Path) : Attempt BuildError BuildOutput := do
  let nanos ← Program.perform .now
  let file := target.join (ModuleFile.name id (buildNumber source nanos processNumber))
  let arguments := b.toolchain.arguments compiler files file
  let (result, captured) ← recorded (!b.debug)
    (runToEnd ⟨compiler.executable, arguments, .piped, .inherited⟩)
  match result with
  | .error cause => throw ⟨.notRun compiler.executable cause, captured⟩
  | .ok (out, status) =>
    let diagnostics := Text.decodeLossy out ++ captured
    if !status.success then throw ⟨.badExit compiler.executable status, diagnostics⟩
    else if !(← Program.isFile file) then throw ⟨.noModule file, diagnostics⟩
    else
      Program.perform (.emit (.built id.key file))
      return ⟨file, diagnostics, compiler⟩

theorem Builder.build_eq (b : Builder) (source : String) (id : ModelIdentity) (target : Path) :
    b.build source id target = (do
      let compiler ← b.toolchain.resolve
      let e ← Program.perform .environment
      Attempt.inTemporary "stanbind_build_" e.temporaryDirectory (fun e => ⟨.noScratch e, ""⟩)
        fun scratch => do
          let model := scratch.join (id.name ++ ".cpp")
          let glue := scratch.join Glue.fileName
          writeSources [(model, source), (glue, Glue.source)]
          b.compileFiles compiler source id e.processNumber [model, glue] target) := rfl

def Step.isHandling : Step → Bool
  | .endRedirection | .flush _ | .openScratch | .duplicate _ | .redirect .. | .close _ | .rewind _
  | .readToEnd _ => true
  | _ => false

theorem Step.isQuiet_of_isHandling {s : Step} (h : s.isHandling = true) : s.isQuiet = true := by
  cases s <;> first | rfl | simp [Step.isHandling] at h

namespace Capture

open Program

def proceed : Program (Except FileError Capture) := do
  match ← perform (.flush Descriptors.diagnostics) with
  | .error e =>
    perform .endRedirection
    return .error e
  | .ok () =>
    match ← perform .openScratch with
    | .error e =>
      perform .endRedirection
      return .error e
    | .ok scratch =>
      match ← perform (.duplicate Descriptors.diagnostics) with
      | .error e =>
        release scratch
        return .error e
      | .ok saved =>
        match ← perform (.redirect scratch Descriptors.diagnostics) with
        | .error e =>
          perform (.close saved)
          release scratch
          return .error e
        | .ok () => return .ok ⟨scratch, saved⟩

end Capture

section Handling

open Program

variable {ok : ∀ s : Step, s.Reply → Prop} {P : Step → Prop} (hd : ∀ s, s.isHandling = true → P s)
include hd

theorem handling_only {s : Step} (hs : s.isHandling = true) :
    (Program.perform s).Only ok P fun r => ok s r :=
  .perform (hd s hs) fun _ h => h

theorem release_only {scratch : Nat} : (Capture.release scratch).Only ok P fun _ => True :=
  (handling_only hd rfl).next fun _ _ => .perform (hd _ rfl) fun _ _ => trivial

theorem proceed_only : Capture.proceed.Only ok P fun _ => True := by
  refine (handling_only hd rfl).next fun r _ => ?_
  cases r with
  | error e => exact (handling_only hd rfl).next fun _ _ => trivial
  | ok _ =>
    refine (handling_only hd rfl).next fun r _ => ?_
    cases r with
    | error e => exact (handling_only hd rfl).next fun _ _ => trivial
    | ok scratch =>
      refine (handling_only hd rfl).next fun r _ => ?_
      cases r with
      | error e => exact (release_only hd).next fun _ _ => trivial
      | ok saved =>
        refine (handling_only hd rfl).next fun r _ => ?_
        cases r with
        | error e =>
          exact (handling_only hd rfl).next fun _ _ => (release_only hd).next fun _ _ => trivial
        | ok _ => trivial

theorem begin_only (hb : P .beginRedirection) : Capture.begin.Only ok P fun _ => True :=
  (Program.Only.perform hb fun _ h => h).next fun _ _ => proceed_only hd

theorem finish_only {c : Capture} : c.finish.Only ok P fun _ => True := by
  refine Program.Only.next (Q := fun _ => True) ?_ fun r _ => (release_only hd).next fun _ _ => trivial
  refine Program.Only.next (Q := fun _ => True) ?_ fun r _ => ?_
  · exact (handling_only hd rfl).next fun _ _ => (handling_only hd rfl).next fun _ _ => trivial
  cases r with
  | error e => trivial
  | ok _ =>
    refine (handling_only hd rfl).next fun r _ => ?_
    cases r with
    | error e => trivial
    | ok _ =>
      refine (handling_only hd rfl).next fun r _ => ?_
      cases r <;> trivial

theorem captured_only (he : ∀ e, P (.emit e)) (capture : Except FileError Capture) :
    (Builder.captured capture).Only ok P fun _ => True := by
  cases capture with
  | error e => trivial
  | ok c =>
    refine (finish_only hd).next fun r _ => ?_
    cases r with
    | ok text => trivial
    | error e => exact (Program.Only.perform (he _) fun _ h => h).next fun _ _ => trivial

end Handling

section Running

open Program

variable {ok : ∀ s : Step, s.Reply → Prop} {P : Step → Prop} (hq : ∀ s, s.isQuiet = true → P s)
include hq

theorem prompt_of_quiet (s : Step) (hs : s.isPrompt = true) : P s :=
  hq s (Step.isQuiet_of_isPrompt hs)

theorem quiet_only {s : Step} (hs : s.isQuiet = true) :
    (Program.perform s).Only ok P fun r => ok s r :=
  .perform (hq s hs) fun _ h => h

theorem recorded_only {α : Type} {redirected : Bool} {work : Program α} {post : α → Prop}
    (h : work.Only ok P post) :
    (Builder.recorded redirected work).Only ok P fun r => post r.1 := by
  have hd (s : Step) (hs : s.isHandling = true) : P s := hq s (Step.isQuiet_of_isHandling hs)
  have hrest (capture : Except FileError Capture) : Program.Only ok P
      (fun r => post r.1) (work >>= fun a => Builder.captured capture >>= fun t => pure (a, t)) :=
    h.next fun a ha => (captured_only hd (fun _ => hq _ rfl) capture).next fun _ _ => ha
  unfold Builder.recorded
  split
  · exact (begin_only hd (hq _ rfl)).next fun capture _ => hrest capture
  · exact hrest (.error (.os .badDescriptor))

theorem runToEnd_only {i : Invocation} (hs : P (.start i)) :
    (Builder.runToEnd i).Only ok P fun _ => True := by
  refine (Program.Only.perform hs fun _ _ => trivial).next fun r _ => ?_
  cases r with
  | error e => trivial
  | ok child =>
    refine (quiet_only hq rfl).next fun _ _ => (quiet_only hq rfl).next fun r _ => ?_
    cases r <;> trivial

theorem isAvailable_only {c : Compiler}
    (hs : P (.start ⟨c.executable, ["--version"], .discarded, .discarded⟩)) :
    c.isAvailable.Only ok P fun _ => True := by
  refine Program.Only.ite (isFile_only (prompt_of_quiet hq _ rfl)) ?_
  refine (Program.Only.perform hs fun _ _ => trivial).next fun r _ => ?_
  cases r with
  | error e => trivial
  | ok child =>
    refine (quiet_only hq rfl).next fun r _ => ?_
    cases r <;> trivial

theorem find_only {t : Toolchain}
    (hs : ∀ c : Compiler, P (.start ⟨c.executable, ["--version"], .discarded, .discarded⟩)) :
    t.resolve.run.Only ok P fun _ => True := by
  have hfirst (cs : List Compiler) :
      (Compiler.firstAvailable cs).Only ok P fun _ => True := by
    induction cs with
    | nil => trivial
    | cons c cs ih =>
      refine (isAvailable_only hq (hs c)).next fun b _ => ?_
      split
      · trivial
      · exact ih
  unfold Toolchain.resolve
  split
  · trivial
  · refine .liftThen (hfirst _) fun r _ => ?_
    cases r <;> trivial

theorem waitFor_only {child deadline : Nat} (looks : Nat) :
    (Translator.waitFor child deadline looks).Only ok P fun _ => True := by
  induction looks with
  | zero => trivial
  | succ looks ih =>
    refine (quiet_only hq rfl).next fun r _ => ?_
    cases r with
    | error e => trivial
    | ok status =>
      cases status with
      | some status => trivial
      | none =>
        refine (quiet_only hq rfl).next fun _ _ => ?_
        split
        · trivial
        · exact (quiet_only hq rfl).next fun _ _ => ih

theorem await_only {t : Translator} {id : ModelIdentity} {child : Nat} :
    (t.await id child).run.Only ok P fun _ => True := by
  have hreap : (Translator.reap child).Only ok P fun _ => True :=
    (quiet_only hq rfl).next fun _ _ => (quiet_only hq rfl).next fun _ _ => trivial
  refine .liftThen (quiet_only hq rfl) fun now _ => ?_
  cases Instant.after? ⟨now⟩ t.timeout with
  | none => trivial
  | some deadline =>
    refine .liftThen (waitFor_only hq _) fun r _ => ?_
    cases r with
    | error e => exact .liftThen hreap fun _ _ => trivial
    | ok status =>
      cases status with
      | some status => trivial
      | none => exact .liftThen hreap fun _ _ => .liftThen (quiet_only hq rfl) fun _ _ => trivial

theorem transcribe_only {t : Translator} {id : ModelIdentity} {file : Path}
    (hs : P (.start ⟨t.program, Translator.arguments id file, .piped, .piped⟩)) :
    (t.transcribe id file).run.Only ok P fun _ => True := by
  refine .ofThen (Q := fun _ => True) (.perform hs fun _ _ => trivial) (fun child _ => ?_)
    fun _ _ => trivial
  refine .attempt (await_only hq) (fun status _ => ?_) fun _ _ => trivial
  refine .liftThen (quiet_only hq rfl) fun _ _ => .liftThen (quiet_only hq rfl) fun _ _ => ?_
  split <;> trivial

theorem compileFiles_only {b : Builder} {c : Compiler} {source : String} {id : ModelIdentity}
    {processNumber : Nat} {files : List Path} {target : Path}
    (hs : ∀ number, P (.start ⟨c.executable, b.toolchain.arguments c files
      (target.join (ModuleFile.name id number)), .piped, .inherited⟩)) :
    (b.compileFiles c source id processNumber files target).run.Only ok P
      fun r => ∀ output, r = .ok output → ∃ nanos, output.file =
        target.join (ModuleFile.name id (Builder.buildNumber source nanos processNumber)) := by
  refine .liftThen (quiet_only hq rfl) fun nanos _ => ?_
  refine .liftThen (recorded_only hq (runToEnd_only hq (hs _))) fun r _ => ?_
  obtain ⟨r, captured⟩ := r
  cases r with
  | error cause => exact fun _ h => by simp at h
  | ok out =>
    obtain ⟨out, status⟩ := out
    simp only
    split
    · exact fun _ h => by simp at h
    · refine .liftThen (isFile_only (hq _ rfl)) fun b _ => ?_
      split
      · exact fun _ h => by simp at h
      · refine .liftThen (quiet_only hq rfl) fun _ _ output h => ?_
        obtain rfl := Except.ok.inj h
        exact ⟨_, rfl⟩

end Running

theorem plain_of_credible {env : Environment} (p : Path)
    (r : Except FileError (List DirectoryEntry)) (h : (Step.list p).Credible env r) :
    ∀ es, r = .ok es → ∀ e ∈ es, IsPlain e.name := h

section Making

open Program

variable {env : Environment} {ok : ∀ s : Step, s.Reply → Prop} {P : Step → Prop} {p : Path}
  {N : String → Prop} (hq : ∀ s, s.isPrompt = true → P s)

theorem removeEach_only {remove : DirectoryEntry → Program (Except FileError Unit)}
    (es : List DirectoryEntry)
    (h : ∀ e ∈ es, (remove e).Only ok P fun _ => True) :
    (removeEach remove es).Only ok P fun _ => True := by
  induction es with
  | nil => trivial
  | cons e es ih =>
    have hrest := ih fun e he => h e (by simp [he])
    refine (h e (by simp)).next fun r _ => ?_
    cases r with
    | ok _ => exact hrest
    | error err =>
      simp only
      split
      · exact hrest
      · trivial

include hq

theorem removeBelow_only (nesting : Nat) {names : List String}
    (hlist : ∀ p r, ok (.list p) r → ∀ es, r = .ok es → ∀ e ∈ es, N e.name)
    (hn : ∀ s ∈ names, N s) (hrm : ∀ names, (∀ s ∈ names, N s) →
      P (.removeFile (p.joins names)) ∧ P (.removeDirectory (p.joins names))) :
    (removeBelow nesting (p.joins names)).Only ok P fun _ => True := by
  induction nesting generalizing names with
  | zero => trivial
  | succ nesting ih =>
    refine (prompt_only hq rfl).next fun r hr => ?_
    cases r with
    | error e => trivial
    | ok es =>
      refine (removeEach_only es fun e he => ?_).next fun r _ => ?_
      · have hnames : ∀ s ∈ names ++ [e.name], N s := by
          simp only [List.mem_append, List.mem_singleton]
          rintro s (hs | rfl)
          · exact hn s hs
          · exact hlist _ _ hr es rfl e he
        rw [Path.joins_join]
        split
        · exact ih hnames
        · exact .perform (hrm _ hnames).1 fun _ _ => trivial
      · cases r with
        | error e => trivial
        | ok _ =>
          refine (Program.Only.perform (hrm names hn).2 fun _ _ => trivial).next fun r _ => ?_
          cases r with
          | ok _ => trivial
          | error e =>
            simp only
            split <;> trivial

theorem removeAll_only
    (hlist : ∀ p r, ok (.list p) r → ∀ es, r = .ok es → ∀ e ∈ es, N e.name)
    (hrm : ∀ names, (∀ s ∈ names, N s) →
      P (.removeFile (p.joins names)) ∧ P (.removeDirectory (p.joins names))) :
    (removeAll p).Only ok P fun _ => True := by
  refine (prompt_only hq rfl).next fun r _ => ?_
  cases r with
  | error e => trivial
  | ok n =>
    cases n with
    | link target =>
      refine .perform ?_ fun _ _ => trivial
      simpa [Path.joins_nil] using (hrm [] (by simp)).1
    | directory =>
      rw [← p.joins_nil]
      exact removeBelow_only hq maxNesting hlist (by simp) hrm
    | file => trivial
    | other => trivial

theorem makeOrKeep_only (hmk : P (.makeDirectory p)) :
    (makeOrKeep p).Only ok P fun _ => True := by
  refine (Program.Only.perform hmk fun _ _ => trivial).next fun r _ => ?_
  cases r with
  | ok _ => trivial
  | error e =>
    refine (isDirectory_only (hq _ rfl)).next fun b _ => ?_
    split <;> trivial

theorem createUpTo_only (count : Nat) (hmk : ∀ q, Above p q → P (.makeDirectory q)) :
    (createUpTo count p).Only ok P fun _ => True := by
  induction count generalizing p with
  | zero => exact makeOrKeep_only hq (hmk p .self)
  | succ count ih =>
    simp only [createUpTo]
    split
    · trivial
    refine (Program.Only.perform (hmk p .self) fun _ _ => trivial).next fun r _ => ?_
    cases r with
    | ok _ => trivial
    | error e =>
      simp only
      split
      · cases hp : p.parent? with
        | none => trivial
        | some q =>
          have hup : ∀ q', Above q q' → Above p q' := by
            intro q' h
            induction h with
            | self => exact .parent .self hp
            | parent _ hq' ih => exact .parent ih hq'
          refine (ih fun q' h => hmk q' (hup q' h)).next fun r _ => ?_
          cases r with
          | error e => trivial
          | ok _ => exact makeOrKeep_only hq (hmk p .self)
      · refine (isDirectory_only (hq _ rfl)).next fun b _ => ?_
        split <;> trivial

theorem makeFresh_only {start : String} (tries : Nat)
    (hmk : ∀ s, P (.makeDirectory (p.join (start ++ s)))) :
    (makeFresh start p tries).Only ok P fun r =>
      ∀ q, r = .ok q → ∃ s, q = p.join (start ++ s) := by
  induction tries with
  | zero => exact fun q h => by simp at h
  | succ tries ih =>
    refine (prompt_only hq rfl).next fun s _ => ?_
    refine (Program.Only.perform (hmk s) fun _ _ => trivial).next fun r _ => ?_
    cases r with
    | ok _ => exact fun q h => ⟨s, (Except.ok.inj h).symm⟩
    | error e =>
      simp only
      split
      · exact ih
      · exact fun q h => by simp at h

theorem inTemporary_only {α ε : Type} {start : String} {wrap : FileError → ε}
    {work : Path → Attempt ε α} {post : Except ε α → Prop}
    (hmk : ∀ s, P (.makeDirectory ((Path.inDirectory env.directory p).join (start ++ s))))
    (hrm : ∀ s names, (∀ n ∈ names, IsPlain n) →
      let q := ((Path.inDirectory env.directory p).join (start ++ s)).joins names
      P (.removeFile q) ∧ P (.removeDirectory q))
    (hwork : ∀ s, (work ((Path.inDirectory env.directory p).join (start ++ s))).run.Only
      (Step.Credible env) P post)
    (herr : ∀ e, post (.error (wrap e))) :
    (Attempt.inTemporary start p wrap work).run.Only (Step.Credible env) P post := by
  refine .ofThen (Q := fun r => ∀ q, r = .ok q →
    ∃ s, q = (Path.inDirectory env.directory p).join (start ++ s)) ?_ (fun q hq' => ?_) fun e _ => herr e
  · refine (prompt_only hq rfl).next fun e he => ?_
    obtain rfl : e = env := he
    exact makeFresh_only hq maxTries hmk
  · obtain ⟨s, rfl⟩ := hq' q rfl
    exact .andThen (hwork s) ((removeAll_only hq plain_of_credible (hrm s)).next fun _ _ => trivial)

end Making

end CompiledModels
