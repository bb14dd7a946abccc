import CompiledModels.Proofs.Diagnostics
import CompiledModels.Proofs.Redirection
import CompiledModels.Proofs.Sure

/-!
Recording what a program writes to its diagnostics, while it runs to its end.
-/

namespace CompiledModels

open Program
open Descriptors (diagnostics)

variable {m : Machine} {x y : Moment} {w w' : World} {α : Type} {p : Program α} {i : Invocation}
  {a : Activity} {t₀ : Descriptors} {c : Capture}

def Moment.sight (x : Moment) : Sight Unit := ⟨x.world, x.past.map fun t => (some (), t)⟩

/-- The answers of a machine on which steps on the files and on the descriptors may fail, but not
the one that gives the diagnostics back. -/
def Step.wary (m : Machine) : Replies := fun x s r w =>
  faulty m x.world s r w ∨ Refuses x.sight.log s r ∧ w = x.world

theorem Step.wary_fair (m : Machine) : Replies.Fair (Step.wary m) m where
  exec h := .inl (.inl h)
  brief {x s r w} hs h := by
    rcases h with h | ⟨h, -⟩
    · exact h
    · cases h <;> simp [isBrief, isPrompt] at hs
  steady {x s r w} hs h := by
    rcases h with (h | h) | ⟨h, -⟩
    · exact h
    · cases s <;> first | exact h.elim | simp [isSteady] at hs
    · cases h <;> simp [isSteady] at hs

theorem Step.wary_handling {s : Step} {r : s.Reply} (hs : s.isHandling = true)
    (h : s.wary m x r w) : x.sight.Answers m s r w := by
  rcases h with (h | h) | h
  · exact .inl h
  · cases s <;> first | exact h.elim | simp [isHandling] at hs
  · exact .inr h

theorem Step.exec_isHandling {s : Step} (h : s.isHandling = true) (m : Machine) (w : World) :
    ∃ r w', s.exec m w = some (r, w') := by
  cases s <;> first | exact ⟨_, _, rfl⟩ | simp [isHandling] at h

theorem Sight.Safe.sure {post : α → Sight Unit → Prop} {Q : α → Prop}
    (h : Sight.Safe m () post p x.sight) (ho : p.Only (fun _ _ => True) (·.isHandling = true) Q) :
    p.Sure (Step.wary m) (fun a y => post a y.sight) x := by
  induction p generalizing x with
  | done a => exact h
  | step s next ih =>
    obtain ⟨r, w, hr⟩ := Step.exec_isHandling ho.1 m x.world
    refine ⟨⟨r, w, (Step.wary_fair m).exec hr⟩, fun r w hr => ih r ?_ (ho.2 r trivial)⟩
    exact h.2 x.sight .refl r w (Step.wary_handling ho.1 hr)

theorem Program.Sure.and {act : Replies} {act' : Answers} {K : Moment → Moment → Prop}
    {post post' : α → Moment → Prop} (h : p.Sure act post x)
    (hs : (Rules.alone act' K).Safe post' p x)
    (hact : ∀ y s r w, act y s r w → act' y.world s r w) :
    p.Sure act (fun a y => post a y ∧ post' a y) x := by
  induction p generalizing x with
  | done a => exact ⟨h, Rules.Safe.done_iff.1 hs x rfl⟩
  | step s next ih =>
    rw [Rules.Safe.step_iff] at hs
    exact ⟨h.1, fun r w hr => ih r (h.2 r w hr) (hs x rfl r w (hact _ _ _ _ hr)).2⟩

def Taken.redirects : Taken → Bool
  | ⟨.redirect .., r⟩ => r.isOk
  | _ => false

abbrev Rules.any : Rules := .alone (fun _ _ _ _ => True) fun _ _ => True

theorem Rules.any_step {s : Step} {next : s.Reply → Program α} {post : α → Moment → Prop}
    (h : ∀ r w, Rules.any.Safe post (next r) (x.after s r w)) : Rules.any.Safe post (.step s next) x := by
  rw [Rules.Safe.step_iff]
  rintro _ rfl r w -
  exact ⟨trivial, h r w⟩

theorem Rules.any_done {a : α} {post : α → Moment → Prop} (h : post a x) :
    Rules.any.Safe post (.done a) x := by
  rw [Rules.Safe.done_iff]
  rintro _ rfl
  exact h

theorem begin_traced (x : Moment) : Rules.any.Safe
    (fun r y => ∃ taken, y.past = taken ++ x.past ∧ taken.any (·.redirects) = r.isOk)
    Capture.begin x := by
  refine Rules.any_step fun _ w₁ => Rules.any_step fun r w₂ => ?_
  cases r with
  | error e => exact Rules.any_step fun _ w₃ => Rules.any_done ⟨[_, _, _], rfl, rfl⟩
  | ok _ =>
    refine Rules.any_step fun r w₃ => ?_
    cases r with
    | error e => exact Rules.any_step fun _ w₄ => Rules.any_done ⟨[_, _, _, _], rfl, rfl⟩
    | ok d =>
      refine Rules.any_step fun r w₄ => ?_
      cases r with
      | error e =>
        exact Rules.any_step fun _ w₅ => Rules.any_step fun _ w₆ =>
          Rules.any_done ⟨[_, _, _, _, _, _], rfl, rfl⟩
      | ok v =>
        refine Rules.any_step fun r w₅ => ?_
        cases r with
        | error e =>
          exact Rules.any_step fun _ w₆ => Rules.any_step fun _ w₇ => Rules.any_step fun _ w₈ =>
            Rules.any_done ⟨[_, _, _, _, _, _, _, _], rfl, rfl⟩
        | ok _ => exact Rules.any_done ⟨[_, _, _, _, _], rfl, rfl⟩

def World.Handled (w w' : World) : Prop := ∃ descriptors redirecting, w' = { w with descriptors, redirecting }

theorem World.Handled.refl (w : World) : w.Handled w := ⟨_, _, rfl⟩

theorem World.Handled.trans {w'' : World} (h : w.Handled w') (h' : w'.Handled w'') : w.Handled w'' := by
  obtain ⟨_, _, rfl⟩ := h
  obtain ⟨_, _, rfl⟩ := h'
  exact ⟨_, _, rfl⟩

theorem handled_onDescriptors {op : Except Errno (α × Descriptors)} {r : Except FileError α}
    (h : some (Step.onDescriptors w op) = some (r, w')) : w.Handled w' := by
  have h := Option.some.inj h
  cases op with
  | error e =>
    obtain ⟨-, rfl⟩ := Prod.mk.inj h
    exact .refl w
  | ok a =>
    obtain ⟨-, rfl⟩ := Prod.mk.inj h
    exact ⟨_, _, rfl⟩

theorem Step.wary_handled {s : Step} {r : s.Reply} (hs : s.isHandling = true ∨ s = .beginRedirection)
    (h : s.wary m x r w) : x.world.Handled w := by
  rcases h with (h | h) | ⟨-, rfl⟩
  · cases s with
    | duplicate | redirect | rewind | readToEnd => exact handled_onDescriptors h
    | beginRedirection =>
      simp only [answers, exec] at h
      split at h
      · cases h
      · obtain ⟨-, rfl⟩ := Prod.mk.inj (Option.some.inj h)
        exact ⟨_, _, rfl⟩
    | endRedirection | flush | openScratch | close =>
      obtain ⟨-, rfl⟩ := Prod.mk.inj (Option.some.inj h)
      exact ⟨_, _, rfl⟩
    | _ => simp [isHandling] at hs
  · cases s <;> first | exact h.elim | simp [isHandling] at hs
  · exact .refl _

theorem Program.Sure.handled {post : α → Moment → Prop} {Q : α → Prop}
    (h : p.Sure (Step.wary m) post x)
    (ho : p.Only (fun _ _ => True) (fun s => s.isHandling = true ∨ s = .beginRedirection) Q) :
    p.Sure (Step.wary m) (fun a y => post a y ∧ x.world.Handled y.world) x := by
  induction p generalizing x with
  | done a => exact ⟨h, .refl _⟩
  | step s next ih =>
    refine ⟨h.1, fun r w hr => (ih r (h.2 r w hr) (ho.2 r trivial)).weaken fun a y hy => ⟨hy.1, ?_⟩⟩
    exact (Step.wary_handled ho.1 hr).trans hy.2

theorem Sight.Redirected.mono {P Q : OpenFile → Log Unit → Prop} {x : Sight Unit}
    (h : Redirected t₀ P c x) (hP : ∀ f, P f x.log → Q f x.log) : Redirected t₀ Q c x := by
  obtain ⟨hd, hv, hvd, n, hn⟩ := h
  obtain ⟨f, hf, hPf⟩ := hn.file
  exact ⟨hd, hv, hvd, n, hn.toStage, hn.new, f, hf, hP f hPf⟩

theorem Moment.sight_some (x : Moment) : ∀ t ∈ x.sight.log, t.1 ≠ none := by
  intro t ht
  obtain ⟨s, -, rfl⟩ := List.mem_map.1 ht
  simp

theorem recorded_alone {f : OpenFile} (h : Sight.Recorded () f x.sight.log) : f = .empty := by
  obtain ⟨scratch, during, earlier, hlog, hduring, rfl⟩ := h
  cases during with
  | nil => rfl
  | cons t during =>
    obtain ⟨part, rfl⟩ := hduring t List.mem_cons_self
    have hmem : (none, ⟨.print diagnostics part, ()⟩) ∈ x.sight.log := by
      rw [hlog]
      exact List.mem_cons_self
    exact absurd rfl (x.sight_some _ hmem)

/-- The diagnostics of a process go somewhere, and no one redirects them. -/
structure World.Open (w : World) : Prop where
  diagnostics : ∃ original, w.descriptors.target? diagnostics = some original
  bound : ∀ k file, w.descriptors.target? k = some file → file < w.descriptors.files.length
  free : w.redirecting = false

theorem begin_redirects (hx : x.world.Open) : Capture.begin.Sure (Step.wary m) (fun r y =>
    (((∀ e, r = .error e → Sight.Clear x.world.descriptors y.sight) ∧
      ∀ c, r = .ok c → Sight.Redirected x.world.descriptors (fun f _ => f = .empty) c y.sight) ∧
      x.world.Handled y.world) ∧
    ∃ taken, y.past = taken ++ x.past ∧ taken.any (·.redirects) = r.isOk) x := by
  obtain ⟨original, ho⟩ := hx.diagnostics
  have hexec : Step.beginRedirection.exec m x.world =
      some ((), { x.world with redirecting := true }) := by simp [Step.exec, hx.free]
  have hproceed (y : Moment) (hy : y = x.after .beginRedirection () { x.world with redirecting := true }) :
      Capture.proceed.Sure (Step.wary m) (fun r y =>
        (∀ e, r = .error e → Sight.Clear x.world.descriptors y.sight) ∧
        ∀ c, r = .ok c → Sight.Redirected x.world.descriptors (fun f _ => f = .empty) c y.sight) y := by
    subst hy
    have hsafe := Sight.proceed_active (m := m) (i := ()) ho (x := (x.after .beginRedirection ()
      { x.world with redirecting := true }).sight) ⟨rfl, rfl, hx.bound, rfl⟩
    refine (hsafe.sure (proceed_only fun s hs => hs)).weaken fun r y hy => ?_
    cases r with
    | error e => exact ⟨fun _ _ => hy, fun _ h => by cases h⟩
    | ok c =>
      refine ⟨fun _ h => (by cases h), ?_⟩
      rintro c' hc
      obtain rfl := Except.ok.inj hc
      exact hy.mono fun f hf => recorded_alone hf
  refine (Program.Sure.handled ?_ (begin_only (fun s hs => .inl hs) (.inr rfl))).and
    (begin_traced x) fun _ _ _ _ _ => trivial
  refine ⟨⟨(), _, (Step.wary_fair m).exec hexec⟩, fun r w hr => hproceed _ ?_⟩
  rcases hr with (hr | hr) | ⟨hr, -⟩
  · obtain ⟨-, rfl⟩ := Prod.mk.inj (Option.some.inj (hexec.symm.trans hr))
    rfl
  · exact hr.elim
  · cases hr

namespace Builder

variable {r : Except FileError (Bytes × ExitStatus)}

inductive Ran (m : Machine) (i : Invocation) (x : Moment) :
    Except FileError (Bytes × ExitStatus) → Moment → Prop
  | failed {e : FileError} {y : Moment} (hs : m.start x.world.environment x.files i = .error e)
      (hy : y.world = x.world) (hp : y.past = ⟨.start i, .error e⟩ :: x.past) : Ran m i x (.error e) y
  | ended {a : Activity} {d : Duration} {status : ExitStatus} {y : Moment}
      (hs : m.start x.world.environment x.files i = .ok a) (he : a.exit = some (d, status))
      (hr : y.world.redirecting = x.world.redirecting)
      (ha : x.world.descriptors.Alike y.world.descriptors)
      (hd : (∀ c ∈ x.world.children, c.Mute) → y.world.descriptors =
        x.world.descriptors.update diagnostics
          (diagnose (a.effects.takeWhile fun e => e.1.nanos ≤ a.over)))
      (hp : y.past = [⟨.await x.world.nextNumber, .ok status⟩,
        ⟨.collectOut x.world.nextNumber, outOf a.effects⟩,
        ⟨.start i, .ok x.world.nextNumber⟩] ++ x.past) :
      Ran m i x (.ok (outOf a.effects, status)) y

theorem due_born (w : World) (i : Invocation) (a : Activity) (d : Nat) :
    World.due (w.born i a) (w.clock + d) = a.effects.takeWhile fun e => e.1.nanos ≤ d := by
  have hreached : (fun e : Duration × Effect => (w.born i a).reached (w.clock + d) e.1) =
      fun e => decide (e.1.nanos ≤ d) := by
    funext e
    simp [Child.reached, World.born]
  rw [World.due, hreached]
  rfl

theorem runToEnd_ran {act : Replies} (hact : act.Fair m) (hi : i.out = .piped) (hi' : i.err = .inherited)
    (hm : ∀ a, m.start x.world.environment x.files i = .ok a → a.Orderly ∧ a.exit.isSome)
    (hw : x.world.Counted) : (runToEnd i).Sure act (Ran m i x) x := by
  cases hs : m.start x.world.environment x.files i with
  | error e =>
    have hexec : (Step.start i).exec m x.world = some (.error e, x.world) := by
      simp only [Step.exec, Moment.files] at hs ⊢
      rw [hs]
    apply Program.Sure.next (Q := fun r y => r = .error e ∧ y = x.after (.start i) (.error e) x.world)
      (.steady hact rfl hexec ⟨rfl, rfl⟩)
    rintro r y ⟨rfl, rfl⟩
    exact .pure (.failed hs rfl rfl)
  | ok a =>
    obtain ⟨horderly, hexit⟩ := hm a hs
    obtain ⟨⟨d, status⟩, he⟩ := Option.isSome_iff_exists.1 hexit
    obtain ⟨out, hout⟩ := Option.isSome_iff_exists.1 (horderly.ends hexit).1
    obtain ⟨hnumber, hclock, -, c, hc, ⟨done, hl⟩, -⟩ := World.adopt_child hw i a
    obtain ⟨_, _, _, hsame⟩ := World.adopt_same x.world i a
    have hexec : (Step.start i).exec m x.world =
        some (.ok x.world.nextNumber, (Step.adopt x.world i a).2) := by
      simp only [Step.exec, Moment.files] at hs ⊢
      simp only [hs, hnumber]
    have hhas : (Step.adopt x.world i a).2.Has x.world.nextNumber (x.world.born i a) := ⟨c, done, hc, hl⟩
    obtain ⟨hcollect, hhas'⟩ := hhas.collect (f := (·.outEnd)) (g := Effect.outBytes) rfl
      (fun c' done h => ⟨h.outEnd, World.born_out hi h⟩) hout horderly.sorted (horderly.out out hout)
    obtain ⟨hawait, -⟩ := hhas'.await (m := m) rfl he
    have hpass := (Step.adopt x.world i a).2.advanceTo_passes (x.world.clock + out.nanos)
    have hpass' := ((Step.adopt x.world i a).2.advanceTo (x.world.clock + out.nanos)).advanceTo_passes
      (x.world.clock + d.nanos)
    have halike := ((World.adopt_alike x.world i a).trans
      (World.advanceTo_alike _ (x.world.clock + out.nanos))).trans
      (World.advanceTo_alike _ (x.world.clock + d.nanos))
    have hspeak (hm : ∀ c ∈ x.world.children, c.Mute) :=
      ((World.adopt_speaking hw hm (i := i) (by simp [hi]) a).advanceTo
        (by simp [World.born, hi]) (x.world.clock + out.nanos)).advanceTo
        (by simp [World.born, hi]) (x.world.clock + d.nanos)
    have hover : a.over = max out.nanos d.nanos := by simp [Activity.over, hout, he]
    have hend : (((Step.adopt x.world i a).2.advanceTo (x.world.clock + out.nanos)).advanceTo
        (x.world.clock + d.nanos)).clock = x.world.clock + a.over := by
      rw [hpass'.clock, hpass.clock, hclock, hover]
      omega
    have hredirecting : (((Step.adopt x.world i a).2.advanceTo (x.world.clock + out.nanos)).advanceTo
        (x.world.clock + d.nanos)).redirecting = x.world.redirecting := by
      obtain ⟨_, _, h⟩ := hpass.same
      obtain ⟨_, _, h'⟩ := hpass'.same
      rw [h', h, hsame]
    have hcollect : (Step.collectOut x.world.nextNumber).exec m (Step.adopt x.world i a).2 =
      some (outOf a.effects, (Step.adopt x.world i a).2.advanceTo (x.world.clock + out.nanos)) := hcollect
    apply Program.Sure.next (Q := fun r y => r = .ok x.world.nextNumber ∧
      y = x.after (.start i) (.ok x.world.nextNumber) (Step.adopt x.world i a).2)
      (.steady hact rfl hexec ⟨rfl, rfl⟩)
    rintro r y ⟨rfl, rfl⟩
    apply Program.Sure.next (Q := fun r z => r = outOf a.effects ∧
      z = (x.after (.start i) (.ok x.world.nextNumber) (Step.adopt x.world i a).2).after
        (.collectOut x.world.nextNumber) (outOf a.effects)
        ((Step.adopt x.world i a).2.advanceTo (x.world.clock + out.nanos)))
      (.steady hact rfl hcollect ⟨rfl, rfl⟩)
    rintro r z ⟨rfl, rfl⟩
    apply Program.Sure.next (p := Program.perform (.await x.world.nextNumber))
      (Q := fun r u => r = .ok status ∧ Ran m i x (.ok (outOf a.effects, status)) u) (.steady hact rfl hawait ⟨rfl, ?_⟩)
    · rintro r u ⟨rfl, hu⟩
      exact .pure hu
    · refine .ended hs he hredirecting halike (fun hm => (hspeak hm).descriptors.trans ?_) rfl
      have hutters (es : List (Duration × Effect)) : (x.world.born i a).utters es = diagnose es := if_pos hi'
      rw [hend, hutters, due_born]

inductive Said (m : Machine) (i : Invocation) (w : World) (files : Files.Tree) :
    Except FileError (Bytes × ExitStatus) → Bytes → Prop
  | failed {e : FileError} (hs : m.start w.environment files i = .error e) : Said m i w files (.error e) []
  | ended {a : Activity} {d : Duration} {status : ExitStatus} {bytes : Bytes}
      (hs : m.start w.environment files i = .ok a) (he : a.exit = some (d, status))
      (hb : (∀ c ∈ w.children, c.Mute) → bytes = a.heard) :
      Said m i w files (.ok (outOf a.effects, status)) bytes

theorem Said.world {files : Files.Tree} {bytes : Bytes} (h : Said m i w' files r bytes)
    (he : w'.environment = w.environment)
    (hc : (∀ c ∈ w.children, c.Mute) → ∀ c ∈ w'.children, c.Mute) : Said m i w files r bytes := by
  cases h with
  | failed hs => exact .failed (he ▸ hs)
  | ended hs hexit hb => exact .ended (he ▸ hs) hexit fun hm => hb (hc hm)

theorem Ran.undisturbed (h : Ran m i x r y) :
    (∃ taken, y.past = taken ++ x.past ∧ (∃ reply, ⟨.start i, reply⟩ ∈ taken) ∧
      taken.any (·.redirects) = false) ∧ (∃ bytes, Said m i x.world x.files r bytes) ∧
    x.world.descriptors.Alike y.world.descriptors ∧ y.world.redirecting = x.world.redirecting := by
  cases h with
  | failed hs hy hp =>
    rw [hy]
    exact ⟨⟨[_], hp, ⟨_, List.mem_cons_self⟩, rfl⟩, ⟨[], .failed hs⟩, .refl _, rfl⟩
  | @ended a _ _ _ hs he hr ha hd hp =>
    exact ⟨⟨_, hp, ⟨_, List.mem_of_getLast? rfl⟩, rfl⟩, ⟨a.heard, .ended hs he fun _ => rfl⟩, ha, hr⟩

theorem Ran.redirected (h : Ran m i x r y)
    (hx : Sight.Redirected t₀ (fun f _ => f = .empty) c x.sight) :
    ∃ bytes, Said m i x.world x.files r bytes ∧
      Sight.Redirected t₀ (fun f _ => f.content = bytes) c y.sight := by
  obtain ⟨hd, hv, hvd, n, ⟨htaken, htable, hbound, hlog⟩, hnew, _, hf, rfl⟩ := hx
  cases h with
  | failed hs hy hp =>
    refine ⟨[], .failed hs, hd, hv, hvd, n, ⟨?_, ?_, ?_, ?_⟩, hnew, .empty, ?_, rfl⟩
    · rwa [Moment.sight, hy]
    · rwa [Moment.sight, hy]
    · rwa [Moment.sight, hy]
    · rw [Moment.sight, hp]
      exact hlog
    · rwa [Moment.sight, hy]
  | ended hs he hr ha hsaid hp =>
    have hlt : n < y.world.descriptors.files.length := by
      rw [ha.length]
      exact (List.getElem?_eq_some_iff.1 hf).1
    obtain ⟨f, hf'⟩ : ∃ f, y.world.descriptors.files[n]? = some f := ⟨_, List.getElem?_eq_getElem hlt⟩
    refine ⟨f.content, .ended hs he fun hm => ?_, hd, hv, hvd, n,
      ⟨hr.trans htaken, ha.table.trans htable, ?_, ?_⟩, hnew, f, hf', rfl⟩
    · have htarget : x.world.descriptors.target? diagnostics = some n :=
        (congrFun htable diagnostics).trans (Function.update_self _ _ _)
      have hsome : x.world.descriptors.files[n]? = some .empty := hf
      rw [hsaid hm, Descriptors.files_update, if_pos htarget, hsome, Option.map_some] at hf'
      rw [Activity.heard, Option.some.inj hf']
    · intro k file hk
      have hlen : y.sight.world.descriptors.files.length = x.sight.world.descriptors.files.length := ha.length
      rw [hlen]
      exact hbound k file hk
    · rw [Moment.sight, hp]
      exact hlog

theorem finish_clears {bytes : Bytes} {original : Nat} (ho : t₀.target? diagnostics = some original)
    (hx : Sight.Redirected t₀ (fun f _ => f.content = bytes) c x.sight) :
    c.finish.Sure (Step.wary m) (fun r y => Sight.Clear t₀ y.sight ∧
      ∀ text, r = .ok text → text = Text.decodeLossy bytes) x := by
  have hfollows : Sight.Follows () (fun f log => (∀ t ∈ log, t.1 ≠ none) → f.content = bytes)
      fun read log => (∀ t ∈ log, t.1 ≠ none) → read = bytes :=
    { print := fun _ h => absurd rfl (h _ List.mem_cons_self)
      back := fun h hlog => h fun t ht => hlog t (List.mem_cons_of_mem _ ht)
      cons := fun h hlog => h fun t ht => hlog t (List.mem_cons_of_mem _ ht) }
  have hsafe := Sight.finish_reads (m := m) ho hfollows (hx.mono fun f hf _ => hf)
  refine (hsafe.sure (finish_only fun s hs => hs)).weaken fun r y hy => ⟨hy.1, ?_⟩
  intro text htext
  obtain ⟨read, hbytes, rfl⟩ := hy.2 text htext
  rw [hbytes y.sight_some]

/-- Whether what is written to the diagnostics is recorded, and what then becomes of the text. -/
inductive Caught (debug : Bool) (bytes : Bytes) (during : List Taken) : String → Prop
  | debugged (h : debug = true) : Caught debug bytes during ""
  | refused (h : debug = false) (hd : during.any (·.redirects) = false) : Caught debug bytes during ""
  | unread {e : FileError} (h : debug = false) (hd : during.any (·.redirects) = true)
      (he : ⟨.emit (.captureUnread e), ()⟩ ∈ during) : Caught debug bytes during ""
  | read (h : debug = false) (hd : during.any (·.redirects) = true) :
      Caught debug bytes during (Text.decodeLossy bytes)

structure Heard (m : Machine) (i : Invocation) (debug : Bool) (x : Moment)
    (r : Except FileError (Bytes × ExitStatus)) (text : String) (y : Moment) : Prop where
  during : ∃ during bytes, y.past = during ++ x.past ∧ (∃ reply, ⟨.start i, reply⟩ ∈ during) ∧
    Said m i x.world x.files r bytes ∧ Caught debug bytes during text
  table : y.world.descriptors.target? = x.world.descriptors.target?
  free : y.world.redirecting = false

theorem recorded_heard (hi : i.out = .piped) (hi' : i.err = .inherited)
    (hm : ∀ a, m.start x.world.environment x.files i = .ok a → a.Orderly ∧ a.exit.isSome)
    (hw : x.world.Counted) (hx : x.world.Open) (debug : Bool) :
    (recorded (!debug) (runToEnd i)).Sure (Step.wary m) (fun r y => Heard m i debug x r.1 r.2 y) x := by
  have hrun {y : Moment} (hy : x.world.Handled y.world) :
      (runToEnd i).Sure (Step.wary m) (fun r z => Ran m i y r z ∧
        ∀ bytes, Said m i y.world y.files r bytes → Said m i x.world x.files r bytes) y := by
    obtain ⟨descriptors, redirecting, hy⟩ := hy
    refine (runToEnd_ran (Step.wary_fair m) hi hi' ?_ ?_).weaken fun r z hz => ⟨hz, fun bytes h => ?_⟩
    · rw [Moment.files, hy]
      exact hm
    · rw [hy]
      exact hw
    · rw [Moment.files, hy] at h
      exact h.world rfl id
  cases debug with
  | true =>
    refine (hrun (.refl _)).next fun r y hy => .pure ?_
    obtain ⟨⟨taken, hp, hstart, -⟩, ⟨bytes, hsaid⟩, halike, hr⟩ := hy.1.undisturbed
    exact ⟨⟨taken, bytes, hp, hstart, hsaid, .debugged rfl⟩, halike.table, hr.trans hx.free⟩
  | false =>
    refine (begin_redirects hx).next fun capture y hy => ?_
    obtain ⟨⟨⟨hfailed, hbegun⟩, hhandled⟩, begun, hp, hredirects⟩ := hy
    refine (hrun hhandled).next fun r z hrz => ?_
    obtain ⟨hz, hsame⟩ := hrz
    obtain ⟨⟨taken, hp', ⟨reply, hstart⟩, hnone⟩, ⟨bytes, hsaid⟩, halike, hr⟩ := hz.undisturbed
    have hpast : z.past = taken ++ begun ++ x.past := by rw [hp', hp, List.append_assoc]
    cases capture with
    | error e =>
      have hclear := hfailed e rfl
      have hany : (taken ++ begun).any (·.redirects) = false := by
        rw [List.any_append, hnone, hredirects]
        rfl
      refine .pure ⟨⟨taken ++ begun, bytes, hpast, ⟨reply, List.mem_append_left _ hstart⟩, hsame _ hsaid,
        .refused rfl hany⟩, halike.table.trans hclear.table, hr.trans hclear.free⟩
    | ok c =>
      obtain ⟨original, ho⟩ := hx.diagnostics
      obtain ⟨bytes, hsaid, hredirected⟩ := hz.redirected (hbegun c rfl)
      refine ((finish_clears ho hredirected).past.next fun read u hru => ?_).next
        (Q := fun text v => Heard m i false x r text v) fun text v hv => .pure hv
      obtain ⟨⟨hclear, hread⟩, ending, hu⟩ := hru
      obtain ⟨s, hs, hs'⟩ := List.any_eq_true.1 (hredirects.trans rfl : begun.any (·.redirects) = true)
      have hany (after : List Taken) : (after ++ ending ++ (taken ++ begun)).any (·.redirects) = true :=
        List.any_eq_true.2 ⟨s, List.mem_append_right _ (List.mem_append_right _ hs), hs'⟩
      have hmem (after : List Taken) : ⟨.start i, reply⟩ ∈ after ++ ending ++ (taken ++ begun) :=
        List.mem_append_right _ (List.mem_append_left _ hstart)
      have hpast' : u.past = ending ++ (taken ++ begun) ++ x.past := by
        rw [← hu, hpast]
        simp only [List.append_assoc]
      cases read with
      | ok text =>
        rw [hread text rfl]
        exact .pure ⟨⟨_, bytes, hpast', ⟨reply, hmem []⟩, hsame _ hsaid, .read rfl (hany [])⟩, hclear.table,
          hclear.free⟩
      | error e =>
        refine Program.Sure.next (Q := fun _ v => v = u.after (.emit (.captureUnread e)) () { u.world with
          events := u.world.events ++ [.captureUnread e] }) (.steady (Step.wary_fair m) rfl rfl rfl) ?_
        rintro - v rfl
        refine .pure ⟨⟨[⟨.emit (.captureUnread e), ()⟩] ++ ending ++ (taken ++ begun), bytes, ?_,
          ⟨reply, hmem _⟩, hsame _ hsaid, .unread rfl (hany _) List.mem_cons_self⟩, hclear.table, hclear.free⟩
        rw [Moment.after_past, hpast']
        simp only [List.append_assoc, List.cons_append, List.nil_append]

end Builder

end CompiledModels
