import CompiledModels.Proofs.Lodging
import CompiledModels.Proofs.Recording

/-!
What comes of building a module, on a machine on which steps on the files and on the descriptors may
fail, and what it leaves behind.
-/

namespace CompiledModels

open Files Program

namespace Builder

variable {m : Machine} {w : World} {b : Builder} {compiler : Compiler} {source : String}
  {id : ModelIdentity} {target p : Path} {x y : Moment}

def sources (source : String) (id : ModelIdentity) (p : Path) : List (Path × String) :=
  [(p.join (id.name ++ ".cpp"), source), (p.join Glue.fileName, Glue.source)]

def product (w : World) (source : String) (id : ModelIdentity) (target : Path) : Path :=
  target.join (ModuleFile.name id (buildNumber source w.clock w.environment.processNumber))

def place (w : World) : Path :=
  Path.inDirectory w.environment.directory w.environment.temporaryDirectory

def wrote (f : Path × String) : Taken := ⟨.write f.1 (Text.encode f.2), .ok ()⟩

def invocation (b : Builder) (compiler : Compiler) (id : ModelIdentity) (p file : Path) : Invocation :=
  ⟨compiler.executable, b.toolchain.arguments compiler [p.join (id.name ++ ".cpp"), p.join Glue.fileName]
    file, .piped, .inherited⟩

section Outcome

variable (m w b compiler source id target)

inductive Prepared : Path → Tree → List Taken → Prop
  | intro {past : List Taken} {p : Path} {made model files : Tree}
      (hp : Drawn "stanbind_build_" (place w) w.asked p past)
      (hmade : w.files.makeDirectory w.directory p = .ok made)
      (hmodel : made.write w.directory (p.join (id.name ++ ".cpp")) ⟨Text.encode source, 0⟩ = .ok model)
      (hglue : model.write w.directory (p.join Glue.fileName) ⟨Text.encode Glue.source, 0⟩ = .ok files) :
      Prepared p files (wrote (p.join Glue.fileName, Glue.source) ::
        wrote (p.join (id.name ++ ".cpp"), source) :: past)

/-- The compiler is run over the sources when the time has been noted, and what it has written to the
diagnostics gives `text`. Meanwhile other programs may have gone on. -/
inductive Compiled (r : Except FileError (Bytes × ExitStatus)) (text : String) : List Taken → Prop
  | intro {p : Path} {x : World} {before during : List Taken} {bytes : Bytes}
      (hp : Prepared w source id p x.files before) (hx : w.Aside x)
      (hstart : ∃ reply, ⟨.start (b.invocation compiler id p (product w source id target)), reply⟩ ∈ during)
      (hs : Said m (b.invocation compiler id p (product w source id target)) w
        (x.advanceTo (x.clock + 1)).files r bytes)
      (hc : Caught b.debug bytes during text) :
      Compiled r text (during ++ ⟨.now, w.clock⟩ :: before)

/-- How the steps of a build and its result belong together, but for the removal of its directory. -/
inductive Outcome : Except BuildError BuildOutput → List Taken → Prop
  | unmade {e : FileError} {past : List Taken}
      (h : Unmade "stanbind_build_" (place w) w.asked e past) : Outcome (.error ⟨.noScratch e, ""⟩) past
  | unwritten {p : Path} {e : FileError} {past : List Taken} {f : Path × String}
      {before after : List (Path × String)} (hp : Drawn "stanbind_build_" (place w) w.asked p past)
      (hf : sources source id p = before ++ f :: after) :
      Outcome (.error ⟨.notWritten f.1 e, ""⟩)
        (⟨.write f.1 (Text.encode f.2), .error e⟩ :: ((before.map wrote).reverse ++ past))
  | notRun {e : FileError} {text : String} {past : List Taken}
      (hc : Compiled m w b compiler source id target (.error e) text past) :
      Outcome (.error ⟨.notRun compiler.executable e, text⟩) past
  | badExit {out : Bytes} {status : ExitStatus} {text : String} {past : List Taken}
      (hc : Compiled m w b compiler source id target (.ok (out, status)) text past)
      (hs : status.success = false) :
      Outcome (.error ⟨.badExit compiler.executable status, Text.decodeLossy out ++ text⟩) past
  | noModule {out : Bytes} {status : ExitStatus} {text : String} {past : List Taken}
      {r : Except FileError Node}
      (hc : Compiled m w b compiler source id target (.ok (out, status)) text past)
      (hs : status.success = true) (hr : ∀ n, r = .ok n → n.isFile = false) :
      Outcome (.error ⟨.noModule (product w source id target), Text.decodeLossy out ++ text⟩)
        (⟨.stat (product w source id target) true, r⟩ :: past)
  | built {out : Bytes} {status : ExitStatus} {text : String} {past : List Taken} {n : Node}
      (hc : Compiled m w b compiler source id target (.ok (out, status)) text past)
      (hs : status.success = true) (hn : n.isFile = true) :
      Outcome (.ok ⟨product w source id target, Text.decodeLossy out ++ text, compiler⟩)
        (⟨.emit (.built id.key (product w source id target)), ()⟩ ::
          ⟨.stat (product w source id target) true, .ok n⟩ :: past)

end Outcome

theorem Outcome.isOk_iff {r : Except BuildError BuildOutput} {past : List Taken}
    (h : Outcome m w b compiler source id target r past) (hp : Furnished past) :
    ∃ result text before, Compiled m w b compiler source id target result text before ∧
      before <:+ past ∧ (r.isOk = true ↔ ∃ out status n, result = .ok (out, status) ∧
        status.success = true ∧ n.isFile = true ∧
        ⟨.stat (product w source id target) true, .ok n⟩ :: before <:+ past) := by
  cases h with
  | unmade h =>
    obtain ⟨p, hmade⟩ := hp.made
    exact absurd hmade h.not_made
  | unwritten => exact absurd List.mem_cons_self (hp.filled _ _ _)
  | notRun hc =>
    refine ⟨_, _, past, hc, List.suffix_refl _, fun h => (by cases h), ?_⟩
    rintro ⟨out, status, n, hr, -⟩
    cases hr
  | badExit hc hs =>
    refine ⟨_, _, past, hc, List.suffix_refl _, fun h => (by cases h), ?_⟩
    rintro ⟨out, status, n, hr, hsuccess, -⟩
    obtain ⟨-, rfl⟩ := Prod.mk.inj (Except.ok.inj hr)
    cases hs.symm.trans hsuccess
  | @noModule out status text before reply hc hs hr =>
    refine ⟨_, _, before, hc, List.suffix_cons _ _, fun h => (by cases h), ?_⟩
    rintro ⟨-, -, n, -, -, hn, hlater⟩
    have hreply := (List.cons.inj (hlater.eq_of_length rfl)).1
    simp only [Taken.mk.injEq, heq_eq_eq, true_and] at hreply
    cases (hr n hreply.symm).symm.trans hn
  | @built out status text before n hc hs hn =>
    refine ⟨_, _, before, hc, (List.suffix_cons _ _).trans (List.suffix_cons _ _), fun _ => ?_, fun _ => rfl⟩
    exact ⟨out, status, n, rfl, hs, hn, List.suffix_cons _ _⟩

structure Restored (w : World) (y : Moment) : Prop where
  table : y.world.descriptors.target? = w.descriptors.target?
  free : y.world.redirecting = false

theorem Restored.aside (h : Restored w x) (ha : x.world.Aside y.world) : Restored w y := by
  obtain ⟨_, _, _, ha⟩ := ha
  constructor
  · rw [ha]
    exact h.table
  · rw [ha]
    exact h.free

theorem writeSources_prepared (hp : Drawn "stanbind_build_" (place w) w.asked p x.past)
    (hmade : w.files.makeDirectory w.directory p = .ok x.files) (haside : w.Aside x.world) :
    (writeSources (sources source id p)).run.Sure (Step.wary m) (fun r y => w.Aside y.world ∧
      (r = .ok () → Prepared w source id p y.files y.past) ∧
      ∀ e, r = .error e → Outcome m w b compiler source id target (.error e) y.past) x := by
  apply Program.Sure.ofThen (writeText_writes (Step.wary_fair m) _ source x)
  · rintro ⟨⟩ y ⟨hy, hpy, hmodel⟩
    apply Program.Sure.ofThen (writeText_writes (Step.wary_fair m) _ Glue.source y)
    · rintro ⟨⟩ z ⟨hz, hpz, hglue⟩
      have hmodel := hmodel rfl
      have hglue := hglue rfl
      rw [haside.directory] at hmodel
      rw [(haside.trans hy).directory] at hglue
      refine .pure ⟨(haside.trans hy).trans hz, fun _ => ?_, fun _ h => by cases h⟩
      rw [hpz, hpy]
      exact .intro hp hmade hmodel hglue
    · rintro e z ⟨hz, hpz, -⟩
      refine ⟨(haside.trans hy).trans hz, fun h => (by cases h), fun e' he => ?_⟩
      obtain rfl := Except.error.inj he
      rw [hpz, hpy]
      exact .unwritten hp (List.singleton_append (l := [_])).symm
  · rintro e y ⟨hy, hpy, -⟩
    refine ⟨haside.trans hy, fun h => (by cases h), fun e' he => ?_⟩
    obtain rfl := Except.error.inj he
    rw [hpy]
    exact .unwritten hp (List.nil_append (_ :: _)).symm

theorem open_advanceTo (hw : w.Open) (now : Nat) : (w.advanceTo now).Open := by
  have halike := w.advanceTo_alike now
  obtain ⟨_, _, hsame⟩ := (w.advanceTo_passes now).same
  refine ⟨halike.table ▸ hw.diagnostics, fun k file hk => ?_, ?_⟩
  · rw [halike.length]
    exact hw.bound k file (halike.table ▸ hk)
  · rw [hsame]
    exact hw.free

theorem counted_advanceTo (hw : w.Counted) (now : Nat) : (w.advanceTo now).Counted := by
  obtain ⟨hchildren, _, _, hsame⟩ := World.settle_eq { w with clock := max w.clock now }
  have hnext : (w.advanceTo now).nextNumber = w.nextNumber := by
    rw [World.advanceTo, hsame]
  rw [World.Counted, hnext]
  exact World.forall_settled (P := fun c => c.number < w.nextNumber) hchildren
    (fun hl hc => hl.number ▸ hc) hw

theorem mute_advanceTo (hw : ∀ c ∈ w.children, c.Mute) (now : Nat) :
    ∀ c ∈ (w.advanceTo now).children, c.Mute :=
  World.forall_settled (World.settle_eq { w with clock := max w.clock now }).1 (fun hl hc => hl.mute hc) hw

theorem compileFiles_outcome
    (hm : ∀ env files i a, m.start env files i = .ok a → a.Orderly ∧ a.exit.isSome)
    (hw : w.Counted) (ho : w.Open) (haside : w.Aside x.world)
    (hp : Prepared w source id p x.files x.past) :
    (b.compileFiles compiler source id w.environment.processNumber
      [p.join (id.name ++ ".cpp"), p.join Glue.fileName] target).run.Sure (Step.wary m)
      (fun r y => Outcome m w b compiler source id target r y.past ∧ Restored w y) x := by
  obtain ⟨files, seed, events, hx⟩ := haside
  have hclock : x.world.clock = w.clock := by rw [hx]
  have henv : x.world.environment = w.environment := by rw [hx]
  have hopen : x.world.Open := by
    rw [hx]
    exact ⟨ho.diagnostics, ho.bound, ho.free⟩
  have hcounted : x.world.Counted := by
    rw [hx]
    exact hw
  apply Program.Sure.liftThen (Q := fun nanos y => nanos = w.clock ∧
    y = x.after .now w.clock (x.world.advanceTo (x.world.clock + 1)))
  · refine .steady (Step.wary_fair m) rfl rfl ⟨hclock, ?_⟩
    rw [← hclock]
  rintro nanos y ⟨rfl, rfl⟩
  apply Program.Sure.liftThen (recorded_heard rfl rfl (fun a ha => hm _ _ _ a ha)
    (counted_advanceTo hcounted _) (open_advanceTo hopen _) b.debug)
  rintro ⟨r, text⟩ z ⟨⟨during, bytes, hpast, hstart, hsaid, hcaught⟩, htable, hfree⟩
  have hpass := x.world.advanceTo_passes (x.world.clock + 1)
  have hcompiled : Compiled m w b compiler source id target r text z.past := by
    rw [hpast]
    refine .intro hp ⟨files, seed, events, hx⟩ hstart ?_ hcaught
    refine hsaid.world (hpass.environment.trans henv) fun hmute => mute_advanceTo ?_ _
    rw [hx]
    exact hmute
  have hrestored : Restored w z := by
    refine ⟨htable.trans ((x.world.advanceTo_alike _).table.trans ?_), hfree⟩
    rw [hx]
  cases r with
  | error e => exact .pure ⟨.notRun hcompiled, hrestored⟩
  | ok result =>
    obtain ⟨out, status⟩ := result
    cases hs : status.success with
    | false =>
      simp only [hs]
      exact .pure ⟨.badExit hcompiled hs, hrestored⟩
    | true =>
      simp only [hs]
      apply Program.Sure.liftThen (isFile_looks (Step.wary_fair m) _ z)
      rintro isFile u ⟨haside, reply, hu, hfile, hnone⟩
      cases isFile with
      | false =>
        refine .pure ⟨?_, hrestored.aside haside⟩
        rw [hu]
        exact .noModule hcompiled hs (hnone rfl)
      | true =>
        obtain ⟨n, rfl, hn⟩ := hfile rfl
        apply Program.Sure.liftThen (Q := fun _ v => v = u.after (.emit _) () { u.world with
          events := u.world.events ++ [.built id.key (product w source id target)] })
          (.steady (Step.wary_fair m) rfl rfl rfl)
        rintro - v rfl
        refine .pure ⟨?_, (hrestored.aside haside).aside ⟨_, _, _, rfl⟩⟩
        rw [Moment.after_past, hu]
        exact .built hcompiled hs hn

/-- What comes of a build, whatever becomes of its steps and of the compiler: in the end its directory
is removed, or there has never been any. -/
structure Told (m : Machine) (w : World) (b : Builder) (compiler : Compiler) (source : String)
    (id : ModelIdentity) (target : Path) (r : Except BuildError BuildOutput) (y : Moment) : Prop where
  restored : Restored w y
  outcome : ∃ tidying past, y.past = tidying ++ past ∧ (∀ s ∈ tidying, s.step.isBrief = true) ∧
    Outcome m w b compiler source id target r past

theorem build_told (hc : b.toolchain.compiler = some compiler)
    (hm : ∀ env files i a, m.start env files i = .ok a → a.Orderly ∧ a.exit.isSome)
    (hw : w.Counted) (ho : w.Open) : (b.build source id target).run.Sure (Step.wary m)
      (Told m w b compiler source id target) ⟨w, []⟩ := by
  have hresolve : b.toolchain.resolve = pure compiler := by
    unfold Toolchain.resolve
    rw [hc]
  rw [build_eq, hresolve, pure_bind]
  apply Program.Sure.liftThen (Q := fun e y => e = w.environment ∧ y.world = w ∧
    y.past = [⟨.environment, w.environment⟩])
  · refine .brief (Step.wary_fair m) rfl fun e w' hr => ?_
    obtain ⟨rfl, rfl⟩ := Step.faulty.environment hr
    exact ⟨rfl, rfl, rfl⟩
  rintro env y ⟨rfl, hy, hpast⟩
  apply Program.Sure.ofThen (makeTemporary_searched (Step.wary_fair m) hy (congrArg _ hpast) rfl)
  · rintro p z ⟨haside, hz⟩
    cases hz with
    | found hp hmade hf =>
      have hwork : (do
          writeSources (sources source id p)
          b.compileFiles compiler source id w.environment.processNumber
            [p.join (id.name ++ ".cpp"), p.join Glue.fileName] target).run.Sure (Step.wary m)
          (fun r u => Outcome m w b compiler source id target r u.past ∧ Restored w u) z := by
        apply Program.Sure.attempt (writeSources_prepared hp (hf ▸ hmade) haside)
        · rintro ⟨⟩ u ⟨hu, hprepared, -⟩
          exact compileFiles_outcome hm hw ho hu (hprepared rfl)
        · rintro e u ⟨⟨files, seed, events, hu⟩, -, hunwritten⟩
          refine ⟨hunwritten e rfl, ?_, ?_⟩
          · rw [hu]
          · rw [hu, ho.free]
      apply hwork.andThen
      rintro r u ⟨houtcome, hrestored⟩
      apply (removeAll_tidies (Step.wary_fair m) u).weaken
      rintro _ v ⟨ha, tidying, htidying, hv⟩
      exact ⟨hrestored.aside ha, tidying, u.past, hv, htidying, houtcome⟩
  · rintro e z ⟨⟨files, seed, events, hz⟩, hsearched⟩
    cases hsearched with
    | unmade h hf =>
      refine ⟨⟨?_, ?_⟩, [], z.past, rfl, List.forall_mem_nil _, .unmade h⟩
      · rw [hz]
      · rw [hz, ho.free]

section Place

variable {S : Site} {Z : Location → Prop} {env : Environment} {s : String} {q : Path} {tree : Tree}

theorem loose_of_wary {st : Step} {r : st.Reply} (h : st.wary m x r w) : st.loose m x.world r w := by
  rcases h with h | ⟨h, hw⟩
  · exact .inl h
  · exact .inr (by cases h <;> exact ⟨rfl, rfl, hw⟩)

theorem writeSources_lodged (hq : S.Leads env.location q) (hs : IsPlain s) (hx : Lodged S Z env tree s x)
    (hf : x.files.Folder (S.root ++ [s]) []) :
    (Rules.alone (Step.loose m) fun _ _ => True).Safe (fun _ y => Lodged S Z env tree s y)
      (writeSources (sources source id (q.join s))).run x := by
  apply Rules.Safe.ofThen (Q := fun r y => Lodged S Z env tree s y ∧ (r = .ok () →
    y.files.Folder (S.root ++ [s]) [(id.name ++ ".cpp", ⟨Text.encode source, 0⟩, false)] ∧
      S.Owns Z s y.files))
  · refine Rules.Safe.perform (s := .write _ _) ?_
    rintro y rfl r w hr
    refine ⟨trivial, ?_⟩
    rintro z rfl
    obtain ⟨hy, hfolder⟩ := hx.write hq hs (id.plain_append ".cpp") hf (Site.owns_nothing hf)
      (Step.loose.faulty rfl hr)
    exact ⟨hy, fun hok => hfolder hok (List.forall_mem_nil _)⟩
  · rintro ⟨⟩ y ⟨hy, hfolder⟩
    obtain ⟨hfolder, howns⟩ := hfolder rfl
    apply Rules.Safe.ofThen (Q := fun _ z => Lodged S Z env tree s z)
    · refine Rules.Safe.perform (s := .write _ _) ?_
      rintro z rfl r w hr
      refine ⟨trivial, ?_⟩
      rintro u rfl
      exact (hy.write hq hs (by decide) hfolder howns (Step.loose.faulty rfl hr)).1
    · exact fun _ z hz => .done hz (Rules.alone_stable _ _ _)
    · exact fun _ _ h => h
  · exact fun _ _ h => h.1

theorem build_vacates (hc : b.toolchain.compiler = some compiler)
    (hm : ∀ env files i a, m.start env files i = .ok a → (S.custom Z).Tame a)
    (hZ : ∀ s, S.Hosts Z ("stanbind_build_" ++ s)) (hx : (S.custom Z).Calm x.world)
    (hlead : S.Leads x.world.environment.location
      (Path.inDirectory x.world.environment.directory x.world.environment.temporaryDirectory)) :
    (Rules.alone (Step.loose m) fun _ _ => True).Safe (fun _ y => Vacated S Z x.files y)
      (b.build source id target).run x := by
  have hresolve : b.toolchain.resolve = pure compiler := by
    unfold Toolchain.resolve
    rw [hc]
  rw [build_eq, hresolve, pure_bind]
  apply Rules.Safe.liftThen (Q := fun e y => e = x.world.environment ∧ y.world = x.world)
  · refine Rules.Safe.perform (s := .environment) ?_
    rintro y rfl r w hr
    refine ⟨trivial, ?_⟩
    rintro z rfl
    exact Step.faulty.environment (Step.loose.faulty rfl hr)
  rintro e y ⟨rfl, hy⟩
  have hfiles : y.files = x.files := by rw [Moment.files, hy]
  rw [← hfiles]
  refine lodging_vacated (fun _ _ _ _ hs => Step.loose.faulty hs) (fun _ _ _ _ _ => trivial) hlead
    (plain_of_start rfl) hZ (fun s z hz hf => ?_) (hy ▸ hx) (by rw [hy])
  refine .attempt (writeSources_lodged hlead (plain_of_start rfl s) hz hf) (fun _ u hu => ?_) fun _ _ h => h
  have honly (files : List Path) : (b.compileFiles compiler source id x.world.environment.processNumber
      files target).run.Only (Step.Credible x.world.environment) (·.isIdle = true) fun _ => True :=
    (compileFiles_only (fun _ => Step.isIdle_of_isQuiet) fun _ => rfl).weaken fun _ _ => trivial
  refine Lodged.only (honly _) hu fun v st r w hv he hs hr => ⟨?_, trivial, ?_⟩
  · exact he ▸ hr.credible hv.sound.1.wellFormed
  · exact hr.drifts hs hv fun i a _ ha => hm _ _ i a ha

end Place

/-- A build comes to an end with a result that tells what became of the compiler and keeps what it has
written; the descriptors are as they were, and so are the files but for what programs have changed,
if the directory of the build could be removed. -/
theorem build_ends (b : Builder) (source : String) (id : ModelIdentity) (target : Path)
    (hc : b.toolchain.compiler = some compiler)
    (hm : ∀ env files i a, m.start env files i = .ok a → a.Orderly ∧ a.exit.isSome)
    (hw : w.Counted) (ho : w.Open) :
    (b.build source id target).run.Sure (Step.wary m) (Told m w b compiler source id target) ⟨w, []⟩ ∧
      (∀ r past, Outcome m w b compiler source id target r past → Furnished past →
        ∃ result text before, Compiled m w b compiler source id target result text before ∧
          before <:+ past ∧ (r.isOk = true ↔ ∃ out status n, result = .ok (out, status) ∧
            status.success = true ∧ n.isFile = true ∧
            ⟨.stat (product w source id target) true, .ok n⟩ :: before <:+ past)) ∧
      ∀ (S : Site) (Z : Location → Prop), (∀ s, S.Hosts Z ("stanbind_build_" ++ s)) →
        S.Leads w.environment.location
          (Path.inDirectory w.environment.directory w.environment.temporaryDirectory) →
        (S.custom Z).Calm w → (∀ env files i a, m.start env files i = .ok a → (S.custom Z).Tame a) →
        (b.build source id target).run.Sure (Step.wary m) (fun _ y => Vacated S Z w.files y) ⟨w, []⟩ := by
  have hsure : (b.build source id target).run.Sure (Step.wary m)
    (Told m w b compiler source id target) ⟨w, []⟩ := build_told hc hm hw ho
  refine ⟨hsure, fun r past h => h.isOk_iff, fun S Z hZ hlead hcalm htame => ?_⟩
  have hsafe : (Rules.alone (Step.loose m) fun _ _ => True).Safe (fun _ y => Vacated S Z w.files y)
    (b.build source id target).run ⟨w, []⟩ := build_vacates (x := ⟨w, []⟩) hc htame hZ hcalm hlead
  exact (hsure.and hsafe fun _ _ _ _ => loose_of_wary).weaken fun _ _ h => h.2

end Builder

def Machine.failing : Machine where
  start _ _ _ := .ok ⟨[(⟨0⟩, .out (Text.encode "o")), (⟨0⟩, .err (Text.encode "e"))],
    some (⟨0⟩, .code 1), some ⟨0⟩, some ⟨0⟩⟩
  load _ _ _ := .error (.libraryLoad "")

namespace Builder

def small : Builder := ⟨.ofCompiler (some .gcc), false⟩

theorem failing_orderly (env : Environment) (files : Tree) (i : Invocation) (a : Activity)
    (ha : Machine.failing.start env files i = .ok a) : a.Orderly ∧ a.exit.isSome := by
  obtain rfl := Except.ok.inj ha
  refine ⟨⟨by decide, fun d hd e he _ => ?_, fun d hd e he _ => ?_, fun _ => ⟨rfl, rfl⟩⟩, rfl⟩ <;>
  · simp only [List.mem_cons, List.not_mem_nil, or_false] at he
    rcases he with rfl | rfl <;> exact Nat.zero_le _

theorem failing_tame (K : Custom) (env : Environment) (files : Tree) (i : Invocation) (a : Activity)
    (ha : Machine.failing.start env files i = .ok a) : K.Tame a := by
  obtain rfl := Except.ok.inj ha
  intro e he change hc
  simp only [List.mem_cons, List.not_mem_nil, or_false] at he
  rcases he with rfl | rfl <;> cases hc

def failed? : Except BuildError BuildOutput → Option (Path × ExitStatus × String)
  | .error ⟨.badExit c status, text⟩ => some (c, status, text)
  | _ => none

theorem failed?_eq_some {r : Except BuildError BuildOutput} {c : Path} {status : ExitStatus}
    {text : String} (h : failed? r = some (c, status, text)) : r = .error ⟨.badExit c status, text⟩ := by
  unfold failed? at h
  split at h
  · obtain ⟨rfl, rfl, rfl⟩ := by simpa using h
    rfl
  · cases h

theorem build_ends_failing : small.toolchain.compiler = some .gcc ∧ World.empty.Counted ∧
    World.empty.Open ∧ (Site.whole.custom Site.whole.entries).Calm .empty ∧
    ∃ y, (small.build "x" .small (Path.ofText "/")).run.Ends (Step.answers .failing) ⟨.empty, []⟩
        (.error ⟨.badExit Compiler.gcc.executable (.code 1), "oe"⟩) y ∧
      Told .failing .empty small .gcc "x" .small (Path.ofText "/")
        (.error ⟨.badExit Compiler.gcc.executable (.code 1), "oe"⟩) y ∧
      (∀ s ∈ y.past, ∀ p, ¬s.Stumbles p) ∧ Vacated .whole Site.whole.entries World.empty.files y := by
  have hcounted : World.empty.Counted := by simp [World.Counted, World.empty, World.initial]
  have hopen : World.empty.Open := by
    refine ⟨⟨2, rfl⟩, fun k file hk => ?_, rfl⟩
    obtain ⟨e, he, rfl⟩ := Option.map_eq_some_iff.1 hk
    exact (by decide : ∀ e ∈ World.empty.descriptors.table, e.2 < World.empty.descriptors.files.length) e
      (List.mem_of_find?_eq_some he)
  have hcalm := Site.whole_calm (w := .empty) rfl rfl Site.whole.entries
  have hpath : Path.inDirectory World.empty.environment.directory
      World.empty.environment.temporaryDirectory = Site.path [] := by
    decide +kernel
  obtain ⟨hsure, -, hsafe⟩ := build_ends small "x" .small (Path.ofText "/") rfl
    (fun env files i a => failing_orderly env files i a) hcounted hopen
  obtain ⟨⟨r, y⟩, htrack, h⟩ := (Option.any_eq_true _ _).mp
    (show ((small.build "x" .small (Path.ofText "/")).run.track .failing ⟨.empty, []⟩).any (fun o =>
      failed? o.1 = some (Compiler.gcc.executable, .code 1, "oe") ∧ o.2.past.all (·.stumble?.isNone)) =
        true by decide +kernel)
  obtain ⟨hr, hpast⟩ := of_decide_eq_true h
  obtain rfl := failed?_eq_some hr
  have hends := Ends.of_track htrack
  refine ⟨rfl, hcounted, hopen, hcalm, y, hends, hsure.ends (Step.wary_fair _) hends, fun s hs p hp => ?_, ?_⟩
  · obtain ⟨names, hnames⟩ := Taken.stumble?_of_stumbles hp
    have hnone := List.all_eq_true.1 hpast s hs
    rw [hnames] at hnone
    cases hnone
  · exact (hsafe .whole _ (fun s => Site.whole.hosts_entries _) (hpath ▸ (Site.serves_path .whole _).leads)
      hcalm fun env files i a => failing_tame _ env files i a).ends (Step.wary_fair _) hends

end Builder

end CompiledModels
