import CompiledModels.Proofs.Reading
import CompiledModels.Proofs.Sure

/-!
How long a translation takes. The translator is looked at from time to time, until it is seen to
have ended or a deadline has passed; but the ends of its streams are waited for without one.
-/

namespace CompiledModels

open Program

variable {m : Machine} {w w' : World} {t : Translator} {a : Activity} {n start k : Nat}
  {c c' : Child} {d timeout : Duration}

theorem Program.Only.runs {α : Type} {p : Program α} {post : α → Prop}
    (h : p.Only (fun _ _ => True) (·.isBrief = true) post) (w : World) :
    ∃ a w', p.run m w = some (a, w') ∧ w.Aside w' ∧ post a := by
  induction p generalizing w with
  | done a => exact ⟨a, w, rfl, .refl w, h⟩
  | step s next ih =>
    obtain ⟨r, w₁, hr⟩ := Step.exec_isBrief (m := m) (w := w) h.1
    obtain ⟨a, w₂, hrun, haside, hpost⟩ := ih r (h.2 r trivial) w₁
    refine ⟨a, w₂, ?_, (Step.aside_of_faulty h.1 (.inl hr)).trans haside, hpost⟩
    simp only [Program.run, hr, hrun]

namespace Translator

def look (start k : Nat) : Nat := start + 1 + k * (pollInterval.nanos + 1)

def looksBefore (d : Duration) : Nat := (d.nanos - 1 + pollInterval.nanos) / (pollInterval.nanos + 1)

theorem le_look : start + d.nanos ≤ look start k ↔ looksBefore d ≤ k := by
  have hp : pollInterval.nanos = 5000000 := rfl
  rw [look, looksBefore, hp]
  omega

theorem look_succ : look start (k + 1) = look start k + 1 + pollInterval.nanos := by
  rw [look, look, Nat.succ_mul]
  omega

theorem looksBefore_lt_maxLooks : looksBefore timeout < maxLooks timeout := by
  have hp : pollInterval.nanos = 5000000 := rfl
  rw [maxLooks, looksBefore, hp]
  omega

end Translator

def World.Has (w : World) (n : Nat) (c : Child) : Prop :=
  ∃ c' done, w.child? n = some c' ∧ c.Later done c'

namespace World.Has

theorem passes {now : Nat} (h : w.Has n c) (hp : w.Passes now w') : w'.Has n c := by
  obtain ⟨c', done, hc, hl⟩ := h
  obtain ⟨c'', hc'', ⟨done', hl'⟩, -⟩ := hp.child n c' hc
  exact ⟨c'', _, hc'', hl.trans hl'⟩

theorem poll (h : w.Has n c) :
    (Program.perform (.poll n)).run m w = some (.ok (c.status? w.clock), w) := by
  obtain ⟨c', done, hc, hl⟩ := h
  simp only [Program.perform, Program.run, Step.exec, hc, Option.bind_some, hl.status]

end World.Has

/-- What a program writes to a stream arrives in its order, and before the stream ends; both streams
end at some time once the program has ended. -/
structure Activity.Orderly (a : Activity) : Prop where
  sorted : a.effects.Pairwise fun e e' => e.1.nanos ≤ e'.1.nanos
  out : ∀ d, a.outEnd = some d → ∀ e ∈ a.effects, e.2.outBytes ≠ [] → e.1.nanos ≤ d.nanos
  err : ∀ d, a.errEnd = some d → ∀ e ∈ a.effects, e.2.errBytes ≠ [] → e.1.nanos ≤ d.nanos
  ends : a.exit.isSome → a.outEnd.isSome ∧ a.errEnd.isSome

theorem Child.Later.flatMap_eq {done : List (Duration × Effect)} {now : Nat} {f : Effect → Bytes}
    (h : c.Later done c') (hk : c.killed = none) (hd : c'.UpToDate now)
    (hs : c.activity.effects.Pairwise fun e e' => e.1.nanos ≤ e'.1.nanos)
    (hf : ∀ e ∈ c.activity.effects, f e.2 ≠ [] → c.started + e.1.nanos ≤ now) :
    c.activity.effects.flatMap (f ·.2) = done.flatMap (f ·.2) := by
  have hrest : c'.activity.effects.flatMap (f ·.2) = [] := by
    rw [List.flatMap_eq_nil_iff]
    intro e he
    by_contra hne
    have hnow := hf e (h.effects ▸ List.mem_append_right _ he) hne
    cases hrest : c'.activity.effects with
    | nil => simp [hrest] at he
    | cons first rest =>
      have hfirst := hd first (by rw [hrest]; rfl)
      rw [Child.reached, h.killed, hk, h.started, Option.elim_none, decide_eq_false_iff_not] at hfirst
      rw [h.effects, hrest] at hs
      have hsorted := (List.pairwise_append.1 hs).2.1
      rw [hrest, List.mem_cons] at he
      rcases he with rfl | he
      · exact hfirst hnow
      · have hle := List.rel_of_pairwise_cons hsorted he
        omega
  rw [h.effects, List.flatMap_append, hrest, List.append_nil]

theorem World.born_out {done : List (Duration × Effect)} {i : Invocation} (hi : i.out = .piped)
    (h : (w.born i a).Later done c') : c'.outBytes = done.flatMap (·.2.outBytes) := by
  have hout := h.out hi
  rwa [World.born, List.nil_append] at hout

theorem World.born_err {done : List (Duration × Effect)} {i : Invocation} (hi : i.err = .piped)
    (h : (w.born i a).Later done c') : c'.errBytes = done.flatMap (·.2.errBytes) := by
  have herr := h.err hi
  rwa [World.born, List.nil_append] at herr

theorem World.Has.collect {f : Activity → Option Duration} {bytes : Child → Bytes}
    {g : Effect → Bytes} {d : Duration} (hw : w.Has n c) (hk : c.killed = none)
    (hf : ∀ c' done, c.Later done c' → f c'.activity = f c.activity ∧
      bytes c' = done.flatMap (g ·.2)) (hd : f c.activity = some d)
    (hs : c.activity.effects.Pairwise fun e e' => e.1.nanos ≤ e'.1.nanos)
    (hg : ∀ e ∈ c.activity.effects, g e.2 ≠ [] → e.1.nanos ≤ d.nanos) :
    Step.collect w n f bytes =
        some (c.activity.effects.flatMap (g ·.2), w.advanceTo (c.started + d.nanos)) ∧
      (w.advanceTo (c.started + d.nanos)).Has n c := by
  obtain ⟨c', done, hc, hl⟩ := hw
  have hpass := w.advanceTo_passes (c.started + d.nanos)
  obtain ⟨c'', hc'', ⟨done', hl'⟩, hdate⟩ := hpass.child n c' hc
  have hlater := hl.trans hl'
  have hall := hlater.flatMap_eq (f := g) hk hdate hs fun e he hne => by
    have := hg e he hne
    omega
  refine ⟨?_, c'', _, hc'', hlater⟩
  simp only [Step.collect, hc, (hf c' done hl).1, hd, hl.started, Option.map_some, hc'',
    Option.getD_some, (hf c'' _ hlater).2, hall]

theorem World.Has.await {s : ExitStatus} (hw : w.Has n c) (hk : c.killed = none)
    (he : c.activity.exit = some (d, s)) :
    (Step.await n).exec m w = some (.ok s, w.advanceTo (c.started + d.nanos)) ∧
      (w.advanceTo (c.started + d.nanos)).Has n c := by
  have hpass := w.advanceTo_passes (c.started + d.nanos)
  refine ⟨?_, hw.passes hpass⟩
  obtain ⟨c', done, hc, hl⟩ := hw
  have hend : c'.end? = some (c.started + d.nanos) := by
    rw [hl.end_eq]
    simp only [Child.end?, hk, he, Option.map_some]
  have hstatus : c'.status? (w.advanceTo (c.started + d.nanos)).clock = some s := by
    rw [hpass.clock, hl.status]
    simp only [Child.status?, hk, he, Nat.le_max_right, if_true]
  simp only [Step.exec, hc, hend, Option.bind_some, hstatus, Option.map_some]

theorem run_now : ∃ w', (Program.perform .now).run m w = some (w.clock, w') ∧
    w.Passes (w.clock + 1) w' := by
  refine ⟨_, rfl, ?_⟩
  have h := w.advanceTo_passes (w.clock + 1)
  rwa [Nat.max_eq_right (Nat.le_succ _)] at h

theorem run_sleep : ∃ w', (Program.perform (.sleep d)).run m w = some ((), w') ∧
    w.Passes (w.clock + d.nanos) w' := by
  refine ⟨_, rfl, ?_⟩
  have h := w.advanceTo_passes (w.clock + d.nanos)
  rwa [Nat.max_eq_right (Nat.le_add_right _ _)] at h

namespace Translator

def seen? (timeout : Duration) (a : Activity) : Option (Duration × ExitStatus) :=
  a.exit.filter fun e => looksBefore e.1 ≤ looksBefore timeout

def waited (timeout : Duration) (a : Activity) (start : Nat) : Nat :=
  match seen? timeout a with
  | some e => look start (looksBefore e.1)
  | none => look start (looksBefore timeout) + 1

theorem waitFor_run (timeout : Duration) (hk : c.killed = none) (looks : Nat) (w : World) (k : Nat) (hw : w.Has n c)
    (hclock : w.clock = look c.started k) (hlooks : looksBefore timeout < k + looks)
    (hlate : k ≤ looksBefore timeout)
    (hexit : ∀ e, c.activity.exit = some e → k ≤ looksBefore e.1) :
    ∃ w', (waitFor n (c.started + timeout.nanos) looks).run m w =
        some (.ok ((seen? timeout c.activity).map (·.2)), w') ∧
      w'.Has n c ∧ w'.clock = waited timeout c.activity c.started := by
  -- The induction is on the looks that are left; no look so far has been late enough.
  induction looks generalizing w k with
  | zero => omega
  | succ looks ih =>
    have hstatus : c.status? w.clock =
        (c.activity.exit.filter fun e => looksBefore e.1 ≤ k).map (·.2) := by
      rw [Child.status?, hk]
      cases c.activity.exit with
      | none => rfl
      | some e =>
        simp only [hclock, le_look, Option.filter_some]
        by_cases hd : looksBefore e.1 ≤ k <;> simp [hd]
    rw [waitFor, run_bind, hw.poll, Option.bind_some, hstatus]
    cases hseen : c.activity.exit.filter fun e => looksBefore e.1 ≤ k with
    | some e =>
      obtain ⟨he, hek⟩ := Option.filter_eq_some_iff.1 hseen
      have hk' : looksBefore e.1 = k := Nat.le_antisymm (of_decide_eq_true hek) (hexit e he)
      have hs : seen? timeout c.activity = some e :=
        Option.filter_eq_some_iff.2 ⟨he, decide_eq_true (hk' ▸ hlate)⟩
      refine ⟨w, by rw [hs]; rfl, hw, ?_⟩
      rw [waited, hs, hclock, ← hk']
    | none =>
      obtain ⟨w₁, hnow, hpass⟩ := run_now (m := m) (w := w)
      simp only [Option.map_none]
      rw [run_bind, hnow, Option.bind_some, hclock]
      have hlater : ∀ e, c.activity.exit = some e → k < looksBefore e.1 := by
        intro e he
        rw [he, Option.filter_some] at hseen
        by_contra hlt
        simp [Nat.le_of_not_lt hlt] at hseen
      by_cases hover : looksBefore timeout ≤ k
      · have hk' : looksBefore timeout = k := Nat.le_antisymm hover hlate
        have hs : seen? timeout c.activity = none := by
          rw [seen?, hk']
          exact hseen
        refine ⟨w₁, ?_, hw.passes hpass, ?_⟩
        · rw [if_pos (le_look.2 hover), hs]
          rfl
        · rw [waited, hs, hpass.clock, hclock, hk']
      · obtain ⟨w₂, hsleep, hpass'⟩ := run_sleep (m := m) (w := w₁) (d := pollInterval)
        rw [if_neg fun h => hover (le_look.1 h), run_bind, hsleep, Option.bind_some]
        refine ih w₂ (k + 1) ((hw.passes hpass).passes hpass') ?_ (by omega) (by omega)
          fun e he => hlater e he
        rw [hpass'.clock, hpass.clock, hclock, look_succ]

theorem reap_run (hk : c.killed = none) (hw : w.Has n c) :
    ∃ w', (reap n).run m w = some ((), w') ∧ w'.clock = w.clock := by
  obtain ⟨c', done, hc, hl⟩ := hw
  obtain ⟨hstatus, t, ht, hend⟩ := c'.dead_ended w.clock (hl.killed.trans hk)
  obtain ⟨s, hs⟩ := Option.isSome_iff_exists.1 hstatus
  have hpass := (w.killing n).advanceTo_passes t
  have hclock : max (w.killing n).clock t = w.clock := Nat.max_eq_left ht
  rw [hclock] at hpass
  have hawait : (Step.await n).exec m (w.killing n) = some (.ok s, (w.killing n).advanceTo t) := by
    simp only [Step.exec, World.child?_killing hc, hend, Option.bind_some, hpass.clock, hs,
      Option.map_some]
  refine ⟨_, ?_, hpass.clock⟩
  have hkill : (Program.perform (.kill n)).run m w = some ((), w.killing n) := rfl
  rw [reap, run_bind, hkill, Option.bind_some, run_bind]
  simp only [Program.perform, Program.run, hawait, Option.bind_some]
  rfl

theorem await_run (id : ModelIdentity) (hk : c.killed = none) (hw : w.Has n c)
    (hclock : w.clock = c.started) (ht : w.clock + t.timeout.nanos ≤ Instant.last.nanos) :
    ∃ w', w'.clock = waited t.timeout c.activity c.started ∧
      ((∃ e, seen? t.timeout c.activity = some e ∧ w'.Has n c ∧
          (t.await id n).run.run m w = some (.ok e.2, w')) ∨
        seen? t.timeout c.activity = none ∧
          (t.await id n).run.run m w = some (.error (.timedOut t.timeout), w')) := by
  obtain ⟨w₁, hnow, hpass⟩ := run_now (m := m) (w := w)
  have hdeadline : Instant.after? ⟨w.clock⟩ t.timeout = some ⟨w.clock + t.timeout.nanos⟩ := if_pos ht
  have hlook : w₁.clock = look c.started 0 := by rw [hpass.clock, hclock, look, Nat.zero_mul, Nat.add_zero]
  obtain ⟨w₂, hwait, hw₂, hclock₂⟩ := waitFor_run (m := m) t.timeout hk
    (maxLooks t.timeout) w₁ 0 (hw.passes hpass) hlook (by simpa using looksBefore_lt_maxLooks)
    (Nat.zero_le _) fun _ _ => Nat.zero_le _
  have hrun : (t.await id n).run.run m w = (seen? t.timeout c.activity).elim
      (((do
          liftM (reap n)
          liftM (Program.perform (.emit (.translatorTimedOut id.key t.timeout)))
          throw (.timedOut t.timeout) : Attempt TranslationError ExitStatus)).run.run m w₂)
      (fun e => some (.ok e.2, w₂)) := by
    rw [await, Attempt.run_liftThen, hnow, Option.bind_some]
    simp only [hdeadline]
    rw [Attempt.run_liftThen, hclock, hwait, Option.bind_some]
    simp only
    cases seen? t.timeout c.activity <;> rfl
  cases hs : seen? t.timeout c.activity with
  | some e =>
    rw [hs] at hrun
    exact ⟨w₂, hclock₂, .inl ⟨e, rfl, hw₂, hrun⟩⟩
  | none =>
    rw [hs] at hrun
    obtain ⟨w₃, hreap, hclock₃⟩ := reap_run (m := m) hk hw₂
    refine ⟨{ w₃ with events := w₃.events ++ [.translatorTimedOut id.key t.timeout] },
      hclock₃.trans hclock₂, .inr ⟨rfl, hrun.trans ?_⟩⟩
    rw [Option.elim, Attempt.run_liftThen, hreap, Option.bind_some]
    rfl

theorem collect_run (f : Activity → Option Duration) (bytes : Child → Bytes)
    (hf : ∀ c' done, c.Later done c' → f c'.activity = f c.activity) (hw : w.Has n c) :
    match f c.activity with
    | none => Step.collect w n f bytes = none
    | some d => ∃ r w', Step.collect w n f bytes = some (r, w') ∧
        w.Passes (max w.clock (c.started + d.nanos)) w' := by
  obtain ⟨c', done, hc, hl⟩ := hw
  have hcollect : Step.collect w n f bytes = (f c.activity).map fun d =>
      ((((w.advanceTo (c.started + d.nanos)).child? n).map bytes).getD [],
        w.advanceTo (c.started + d.nanos)) := by
    simp only [Step.collect, hc, hf c' done hl, hl.started]
  rw [hcollect]
  cases f c.activity with
  | none => rfl
  | some d => exact ⟨_, _, rfl, w.advanceTo_passes _⟩

end Translator

/-- What becomes of a source that a translator was started for. -/
inductive Verdict
  | translated
  | rejected
  | timedOut
  deriving DecidableEq

def Verdict.of? : Except TranslationError Translation → Option Verdict
  | .ok _ => some .translated
  | .error (.rejected _) => some .rejected
  | .error (.timedOut _) => some .timedOut
  | .error _ => none

namespace Translator

/-- What comes of a translator with this timeline, and when: it is timed out if its exit is not seen
in time, and else its streams are read, however long that takes; it may take for ever. -/
def finish? (timeout : Duration) (a : Activity) (start : Nat) : Option (Verdict × Nat) :=
  match seen? timeout a with
  | none => some (.timedOut, waited timeout a start)
  | some e =>
    match a.outEnd, a.errEnd with
    | some out, some err =>
      some (if e.2.success then .translated else .rejected,
        max (max (waited timeout a start) (start + out.nanos)) (start + err.nanos))
    | _, _ => none

def told (r : Option (Except TranslationError Translation × World)) : Option (Option Verdict × Nat) :=
  r.map fun o => (Verdict.of? o.1, o.2.clock)

def conclude (status : ExitStatus) (child : Nat) : Attempt TranslationError Translation := do
  let out := Text.decodeLossy (← Program.perform (.collectOut child))
  let err := Text.decodeLossy (← Program.perform (.collectErr child))
  if status.success then return ⟨Text.trim out, Text.trim err⟩
  else throw (.rejected (Text.trim err))

theorem conclude_run (status : ExitStatus) (hw : w.Has n c) :
    told ((conclude status n).run.run m w) =
      match c.activity.outEnd, c.activity.errEnd with
      | some out, some err => some (some (if status.success then .translated else .rejected),
          max (max w.clock (c.started + out.nanos)) (c.started + err.nanos))
      | _, _ => none := by
  have hout := collect_run (·.outEnd) (·.outBytes) (fun _ _ h => h.outEnd) hw
  rw [conclude, Attempt.run_liftThen]
  cases ho : c.activity.outEnd with
  | none =>
    rw [ho] at hout
    simp only [Program.perform, Program.run, Step.exec, hout]
    rfl
  | some out =>
    rw [ho] at hout
    obtain ⟨bytes, w₁, hrun, hpass⟩ := hout
    have herr := collect_run (·.errEnd) (·.errBytes) (fun _ _ h => h.errEnd)
      (hw.passes hpass)
    have hperform : (Program.perform (.collectOut n)).run m w = some (bytes, w₁) := by
      simp only [Program.perform, Program.run, Step.exec, hrun]
    rw [hperform, Option.bind_some, Attempt.run_liftThen]
    cases he : c.activity.errEnd with
    | none =>
      rw [he] at herr
      simp only [Program.perform, Program.run, Step.exec, herr]
      rfl
    | some err =>
      rw [he] at herr
      obtain ⟨bytes', w₂, hrun', hpass'⟩ := herr
      have hperform' : (Program.perform (.collectErr n)).run m w₁ = some (bytes', w₂) := by
        simp only [Program.perform, Program.run, Step.exec, hrun']
      have hclock : w₂.clock = max (max w.clock (c.started + out.nanos)) (c.started + err.nanos) := by
        rw [hpass'.clock, hpass.clock]
      rw [hperform', Option.bind_some]
      simp only [← hclock]
      cases status.success <;> rfl

theorem transcribe_run {id : ModelIdentity} {file : Path} (hw : w.Counted)
    (ht : w.clock + t.timeout.nanos ≤ Instant.last.nanos)
    (hstart : m.start w.environment w.files ⟨t.program, arguments id file, .piped, .piped⟩ = .ok a) :
    told ((t.transcribe id file).run.run m w) =
      (finish? t.timeout a w.clock).map fun o => (some o.1, o.2) := by
  obtain ⟨hnumber, hclock, -, c, hc, ⟨done, hl⟩, -⟩ := World.adopt_child hw
    ⟨t.program, arguments id file, .piped, .piped⟩ a
  have hhas : (Step.adopt w ⟨t.program, arguments id file, .piped, .piped⟩ a).2.Has w.nextNumber
      (w.born ⟨t.program, arguments id file, .piped, .piped⟩ a) := ⟨c, done, hc, hl⟩
  have hperform : (Program.perform (.start ⟨t.program, arguments id file, .piped, .piped⟩)).run m w =
      some (.ok w.nextNumber,
        (Step.adopt w ⟨t.program, arguments id file, .piped, .piped⟩ a).2) := by
    simp only [Program.perform, Program.run, Step.exec, hstart, hnumber]
  have htranscribe : (t.transcribe id file).run.run m w = ((t.await id w.nextNumber >>= fun status =>
      conclude status w.nextNumber).run.run m
        (Step.adopt w ⟨t.program, arguments id file, .piped, .piped⟩ a).2) := by
    rw [transcribe, Attempt.run_ofThen, hperform, Option.bind_some]
    rfl
  obtain ⟨w', hclock', h⟩ := await_run (m := m) (t := t) id rfl hhas hclock (hclock ▸ ht)
  rw [htranscribe, Attempt.run_bind]
  rcases h with ⟨e, hseen, hw', hrun⟩ | ⟨hseen, hrun⟩
  · have hconclude := conclude_run (m := m) e.2 hw'
    rw [hrun, Option.bind_some]
    refine hconclude.trans ?_
    rw [finish?, hclock']
    simp only [World.born] at hseen ⊢
    rw [hseen]
    cases a.outEnd <;> cases a.errEnd <;> rfl
  · rw [hrun, Option.bind_some, finish?]
    simp only [World.born] at hseen hclock'
    rw [hseen, ← hclock']
    rfl

theorem told_andThen {p : Attempt TranslationError Translation} {q : Path} :
    told ((p.andThen (do let _ ← removeAll q)).run.run m w) = told (p.run.run m w) := by
  rw [Attempt.run_andThen]
  cases p.run.run m w with
  | none => rfl
  | some r =>
    obtain ⟨_, y, hends, ⟨files, seed, events, hy⟩, -⟩ :=
      (removeAll_tidies (q := q) (Step.answers_fair m) ⟨r.2, []⟩).finishes
    simp only [Option.bind_some, hends.run, hy]
    rfl

def place (t : Translator) (w : World) : Path :=
  Path.inDirectory w.environment.directory (t.scratchRoot.getD w.environment.temporaryDirectory)

inductive Thwarted (t : Translator) (w : World) (source : String) (id : ModelIdentity) :
    TranslationError → List Taken → Prop
  | unmade {e : FileError} {past : List Taken} (h : Unmade "stanbind_" (t.place w) w.asked e past) :
      Thwarted t w source id (.io e) past
  | unwritten {e : FileError} {p : Path} {past : List Taken}
      (hp : Drawn "stanbind_" (t.place w) w.asked p past) :
      Thwarted t w source id (.io e)
        (⟨.write (p.join (id.name ++ ".stan")) (Text.encode source), .error e⟩ :: past)
  | unstarted {e : FileError} {p : Path} {past : List Taken}
      (hp : Drawn "stanbind_" (t.place w) w.asked p past) :
      Thwarted t w source id (.notStarted t.program e)
        (⟨.start ⟨t.program, arguments id (p.join (id.name ++ ".stan")), .piped, .piped⟩, .error e⟩ ::
          ⟨.write (p.join (id.name ++ ".stan")) (Text.encode source), .ok ()⟩ :: past)

def Stillborn (t : Translator) (m : Machine) (w : World) (source : String) (id : ModelIdentity)
    (p : Attempt TranslationError Translation) (x : Moment) : Prop :=
  ∃ e y tidying past, p.run.Ends (Step.answers m) x (.error e) y ∧ y.world.clock = x.world.clock ∧
    y.past = tidying ++ past ∧ t.Thwarted w source id e past

variable {x : Moment} {source : String} {id : ModelIdentity}

theorem Stillborn.andThen {p : Attempt TranslationError Translation} {q : Path}
    (h : t.Stillborn m w source id p x) :
    t.Stillborn m w source id (p.andThen (do let _ ← removeAll q)) x := by
  obtain ⟨e, y, before, past, hends, hclock, hpast, hthwarted⟩ := h
  obtain ⟨_, z, hsweep, ⟨files, seed, events, hz⟩, tidying, -, hpast'⟩ :=
    (removeAll_tidies (q := q) (Step.answers_fair m) y).finishes
  refine ⟨e, z, tidying ++ before, past, Ends.andThen_iff.2 ⟨y, hends, hsweep⟩, ?_, ?_, hthwarted⟩
  · rw [hz]
    exact hclock
  · rw [hpast', hpast, List.append_assoc]

theorem write_run {p : Path} (hw : w.Counted) (ht : w.clock + t.timeout.nanos ≤ Instant.last.nanos)
    (haside : w.Aside x.world) (hp : Drawn "stanbind_" (t.place w) w.asked p x.past) :
    let work := Attempt.of (writeText (p.join (id.name ++ ".stan")) source) .io >>= fun _ =>
      t.transcribe id (p.join (id.name ++ ".stan"))
    t.Stillborn m w source id work x ∨ ∃ files a, m.start w.environment files
        ⟨t.program, arguments id (p.join (id.name ++ ".stan")), .piped, .piped⟩ = .ok a ∧
      told (work.run.run m x.world) = (finish? t.timeout a w.clock).map fun o => (some o.1, o.2) := by
  intro work
  obtain ⟨r, y, hwrite, hy, hpast, -⟩ :=
    (writeText_writes (Step.answers_fair m) (p.join (id.name ++ ".stan")) source x).finishes
  obtain ⟨files, seed, events, hworld⟩ := haside.trans hy
  have hclock : y.world.clock = x.world.clock := by
    obtain ⟨_, _, _, hy⟩ := hy
    rw [hy]
  cases r with
  | error e =>
    refine .inl ⟨_, y, [], y.past, Ends.ofThen_iff.2 (.inl ⟨e, hwrite, rfl⟩), hclock, rfl, ?_⟩
    rw [hpast]
    exact .unwritten hp
  | ok u =>
    have hwork : work.run.run m x.world = _ := Attempt.run_ofThen_ok hwrite.run
    have henv : y.world.environment = w.environment := by rw [hworld]
    cases hstart : m.start w.environment y.files
        ⟨t.program, arguments id (p.join (id.name ++ ".stan")), .piped, .piped⟩ with
    | error e =>
      have hexec : (Step.start ⟨t.program, arguments id (p.join (id.name ++ ".stan")), .piped, .piped⟩).exec
          m y.world = some (.error e, y.world) := by simp only [Step.exec, henv, hstart]
      have htranscribe : (t.transcribe id (p.join (id.name ++ ".stan"))).run.Ends (Step.answers m) y
          (.error (.notStarted t.program e)) (y.after _ _ y.world) :=
        Ends.ofThen_iff.2 (.inl ⟨e, Ends.perform_iff.2 ⟨_, hexec, rfl⟩, rfl⟩)
      refine .inl ⟨_, _, [], _, Ends.ofThen_iff.2 (.inr ⟨u, y, hwrite, htranscribe⟩), hclock, rfl, ?_⟩
      rw [hpast]
      exact .unstarted hp
    | ok a =>
      have hcounted : y.world.Counted := by
        rw [hworld]
        exact hw
      have hnow : y.world.clock = w.clock := by rw [hworld]
      refine .inr ⟨y.files, a, hstart, ?_⟩
      rw [hwork, ← hnow]
      exact transcribe_run hcounted (hnow ▸ ht) (henv ▸ hstart)

/-- A translation either cannot begin, or takes the course of the program that is started. -/
theorem translate_course (source : String) (id : ModelIdentity) (hw : w.Counted)
    (ht : w.clock + t.timeout.nanos ≤ Instant.last.nanos) :
    t.Stillborn m w source id (t.translate source id) ⟨w, []⟩ ∨
      ∃ files file a, m.start w.environment files
          ⟨t.program, arguments id file, .piped, .piped⟩ = .ok a ∧
        told ((t.translate source id).run.run m w) =
          (finish? t.timeout a w.clock).map fun o => (some o.1, o.2) := by
  have hasked : (Program.perform .environment).Ends (Step.answers m) ⟨w, []⟩ w.environment
      ⟨w, [⟨.environment, w.environment⟩]⟩ := Ends.perform_iff.2 ⟨w, rfl, rfl⟩
  have hsure : (makeTemporary "stanbind_" (t.scratchRoot.getD w.environment.temporaryDirectory)).Sure
      (Step.answers m).always (fun r y => w.Aside y.world ∧
        Searched "stanbind_" (t.place w) w.asked w y r) ⟨w, [⟨.environment, w.environment⟩]⟩ :=
    makeTemporary_searched (Step.answers_fair m) rfl rfl rfl
  obtain ⟨r, y, hmake, haside, hsearched⟩ := hsure.finishes
  obtain ⟨files, seed, events, hy⟩ := haside
  have hclock : y.world.clock = w.clock := by rw [hy]
  rw [translate_eq]
  cases hsearched with
  | unmade h hf =>
    refine .inl ⟨_, y, [], _, Ends.liftThen_iff.2 ⟨_, _, hasked, ?_⟩, hclock, rfl, .unmade h⟩
    exact Ends.ofThen_iff.2 (.inl ⟨_, hmake, rfl⟩)
  | @found p made h hmade hf =>
    have hwritten : t.Stillborn m w source id _ _ ∨ _ := write_run hw ht ⟨files, seed, events, hy⟩ h
    rcases hwritten with h | ⟨files', a, hstart, htold⟩
    · obtain ⟨e, z, tidying, past, hends, hz⟩ := h.andThen (q := p)
      refine .inl ⟨e, z, tidying, past, Ends.liftThen_iff.2 ⟨_, _, hasked, ?_⟩, hz.1.trans hclock, hz.2⟩
      exact Ends.ofThen_iff.2 (.inr ⟨p, y, hmake, hends⟩)
    · refine .inr ⟨files', _, a, hstart, ?_⟩
      rw [Attempt.run_liftThen, hasked.run, Option.bind_some, Attempt.inTemporary,
        Attempt.run_ofThen_ok hmake.run, ← htold]
      exact told_andThen

end Translator

def World.empty : World := .initial ⟨[], 0⟩ ⟨[("TMPDIR", "/")], Path.ofText "/", none, 1⟩ 0

/-- Programs that end at once, and leave another behind that holds their output for two seconds. -/
def Machine.lingering : Machine where
  start _ _ _ := .ok ⟨[(⟨0⟩, .out (Text.encode "t"))], some (⟨0⟩, .code 0), some (.ofMillis 2000), some ⟨0⟩⟩
  load _ _ _ := .error (.libraryLoad "")

def Translator.hasty : Translator := ⟨Path.ofText "stanc", .ofMillis 300, none⟩

namespace Translator

theorem translate_course_lingering : World.empty.Counted ∧
    World.empty.clock + hasty.timeout.nanos ≤ Instant.last.nanos ∧
    told ((hasty.translate "x" .small).run.run .lingering .empty) =
      some (some .translated, World.empty.clock + 2000000000) := by
  have hcounted : World.empty.Counted := by simp [World.Counted, World.empty, World.initial]
  have hlast : World.empty.clock + hasty.timeout.nanos ≤ Instant.last.nanos := by decide
  refine ⟨hcounted, hlast, ?_⟩
  rcases translate_course (m := .lingering) "x" .small hcounted hlast with ⟨e, y, _, _, hends, -⟩ | ⟨files, file, a, hstart, htold⟩
  · have hok : ((hasty.translate "x" .small).run.run .lingering .empty).any (·.1.isOk) = true := by
      decide +kernel
    rw [hends.run] at hok
    cases hok
  · obtain rfl := Except.ok.inj hstart
    rw [htold]
    decide +kernel

/-- Long after the deadline a translation may still succeed. -/
theorem translate_outlasts_deadline : ∃ n,
    told ((hasty.translate "x" .small).run.run .lingering .empty) = some (some .translated, n) ∧
      World.empty.clock + hasty.timeout.nanos + pollInterval.nanos < n :=
  ⟨2000000000, by decide +kernel, by decide⟩

end Translator

end CompiledModels
