import CompiledModels.Proofs.Deadline
import CompiledModels.Proofs.Lodging

/-!
What comes of a translation, on a machine on which steps on the files and looks at the translator
may fail, and what it leaves behind.
-/

namespace CompiledModels

open Files Program

variable {m : Machine} {w w' : World} {t : Translator} {a : Activity} {n deadline : Nat}
  {c c' : Child} {x y : Moment} {source : String} {id : ModelIdentity} {past : List Taken}

def Step.Falters (w : World) : (s : Step) → s.Reply → World → Prop
  | .poll _, r, w' => r.isOk = false ∧ w' = w
  | _, _, _ => False

/-- The answers of a machine on which any step on the files may fail, and any look at a started
program. -/
def Step.unsteady (m : Machine) : Answers := fun w s r w' => faulty m w s r w' ∨ Falters w s r w'

theorem Step.loose_of_unsteady {s : Step} {r : s.Reply} (h : s.unsteady m w r w') :
    s.loose m w r w' := by
  rcases h with h | h
  · exact .inl h
  · cases s <;> first | exact h.elim | exact .inr ⟨rfl, rfl, h.2⟩

theorem Step.unsteady_fair (m : Machine) : Replies.Fair (Step.unsteady m).always m where
  exec h := .inl (.inl h)
  brief {x s r w} hs h := by
    rcases h with h | h
    · exact h
    · cases s <;> first | exact h.elim | simp [isBrief, isPrompt] at hs
  steady {x s r w} hs h := by
    rcases h with (h | h) | h
    · exact h
    all_goals
      cases s <;> first | exact h.elim | simp [isSteady] at hs

namespace Translator

inductive Watched (n deadline : Nat) : List Taken → Prop
  | nil : Watched n deadline []
  | look {past : List Taken} {now : Nat} (h : Watched n deadline past) (hn : now < deadline) :
      Watched n deadline
        (past ++ [⟨.sleep pollInterval, ()⟩, ⟨.now, now⟩, ⟨.poll n, .ok none⟩])

inductive Seen (n deadline : Nat) (c : Child) (past : List Taken) :
    Except FileError (Option ExitStatus) → List Taken → Prop
  | failed (e : FileError) : Seen n deadline c past (.error e) (⟨.poll n, .error e⟩ :: past)
  | ended {d : Duration} {s : ExitStatus} (he : c.activity.exit = some (d, s)) :
      Seen n deadline c past (.ok (some s)) (⟨.poll n, .ok (some s)⟩ :: past)
  | overdue {now : Nat} (hn : deadline ≤ now)
      (he : ∀ e, c.activity.exit = some e → now < c.started + e.1.nanos) :
      Seen n deadline c past (.ok none) (⟨.now, now⟩ :: ⟨.poll n, .ok none⟩ :: past)

theorem status?_eq (hk : c.killed = none) (now : Nat) : c.status? now =
    (c.activity.exit.filter fun e => c.started + e.1.nanos ≤ now).map (·.2) := by
  rw [Child.status?, hk]
  cases c.activity.exit with
  | none => rfl
  | some e =>
    rw [Option.filter_some]
    by_cases h : c.started + e.1.nanos ≤ now <;> simp [h]

theorem poll_shows_status (hx : x.world.Has n c) : (Program.perform (.poll n)).Sure (Step.unsteady m).always
    (fun r y => y.world = x.world ∧ y.past = ⟨.poll n, r⟩ :: x.past ∧
      ∀ status, r = .ok status → status = c.status? x.world.clock) x := by
  have hexec : (Step.poll n).exec m x.world = some (.ok (c.status? x.world.clock), x.world) := by
    obtain ⟨c', done, hc, hl⟩ := hx
    simp only [Step.exec, hc, Option.bind_some, hl.status]
  apply Program.Sure.perform ⟨_, _, .inl (.inl hexec)⟩
  rintro r w ((h | h) | ⟨hr, rfl⟩)
  · have heq := h.symm.trans hexec
    simp only [Option.some.injEq, Prod.mk.injEq] at heq
    obtain ⟨rfl, rfl⟩ := heq
    exact ⟨rfl, rfl, fun _ hs => (Except.ok.inj hs).symm⟩
  · exact h.elim
  · obtain ⟨e, rfl⟩ := Step.error_of_isOk hr
    exact ⟨rfl, rfl, fun _ hs => by simp at hs⟩

theorem now_reads_clock : (Program.perform .now).Sure (Step.unsteady m).always (fun now y => now = x.world.clock ∧
    x.world.Passes (x.world.clock + 1) y.world ∧ y.past = ⟨.now, now⟩ :: x.past) x := by
  refine .steady (Step.unsteady_fair m) rfl rfl ⟨rfl, ?_, rfl⟩
  have hpass := x.world.advanceTo_passes (x.world.clock + 1)
  rwa [Nat.max_eq_right (Nat.le_succ _)] at hpass

theorem sleep_passes {d : Duration} : (Program.perform (.sleep d)).Sure (Step.unsteady m).always
    (fun r y => x.world.Passes (x.world.clock + d.nanos) y.world ∧
      y.past = ⟨.sleep d, r⟩ :: x.past) x := by
  refine .steady (Step.unsteady_fair m) rfl rfl ⟨?_, rfl⟩
  have hpass := x.world.advanceTo_passes (x.world.clock + d.nanos)
  rwa [Nat.max_eq_right (Nat.le_add_right _ _)] at hpass

def Watching (n deadline : Nat) (c : Child) (x : Moment) (r : Except FileError (Option ExitStatus))
    (y : Moment) : Prop :=
  y.world.Has n c ∧ ∃ looked, Watched n deadline looked ∧ Seen n deadline c (looked ++ x.past) r y.past

theorem waitFor_succ_watching (hk : c.killed = none) {looks : Nat} (hx : x.world.Has n c)
    (hmore : ∀ y, y.world.Has n c → y.world.clock = x.world.clock + 1 + pollInterval.nanos →
      x.world.clock < deadline →
      y.past = [⟨.sleep pollInterval, ()⟩, ⟨.now, x.world.clock⟩, ⟨.poll n, .ok none⟩] ++ x.past →
      (waitFor n deadline looks).Sure (Step.unsteady m).always (Watching n deadline c x) y) :
    (waitFor n deadline (looks + 1)).Sure (Step.unsteady m).always (Watching n deadline c x) x := by
  apply (poll_shows_status hx).next
  rintro r y ⟨hw, hp, hr⟩
  have hy : y.world.Has n c := hw ▸ hx
  cases r with
  | error e => exact .pure ⟨hy, [], .nil, hp ▸ .failed e⟩
  | ok status =>
    have hs := hr status rfl
    rw [status?_eq hk] at hs
    cases status with
    | some s =>
      obtain ⟨e, he, rfl⟩ := Option.map_eq_some_iff.1 hs.symm
      obtain ⟨hexit, -⟩ := Option.filter_eq_some_iff.1 he
      exact .pure ⟨hy, [], .nil, hp ▸ .ended (d := e.1) hexit⟩
    | none =>
      have hlate : ∀ e, c.activity.exit = some e → x.world.clock < c.started + e.1.nanos := by
        intro e he
        rw [he, Option.filter_some] at hs
        by_contra hlt
        simp [Nat.le_of_not_lt hlt] at hs
      apply now_reads_clock.next
      rintro now z ⟨rfl, hpass, hp'⟩
      rw [hw] at hpass hp'
      rw [hp] at hp'
      split
      case isTrue hover => exact .pure ⟨hy.passes (hw ▸ hpass), [], .nil, hp' ▸ .overdue (hw ▸ hover) hlate⟩
      case isFalse hearly =>
        apply sleep_passes.next
        rintro r u ⟨hpass', hp''⟩
        refine hmore u ((hy.passes (hw ▸ hpass)).passes hpass') ?_ (Nat.lt_of_not_le (hw ▸ hearly)) ?_
        · rw [hpass'.clock, hpass.clock]
        · rw [hp'', hp']
          rfl

theorem waitFor_watching (hk : c.killed = none) (looks : Nat) (hx : x.world.Has n c)
    (hl : deadline ≤ x.world.clock + looks * pollInterval.nanos) :
    (waitFor n deadline (looks + 1)).Sure (Step.unsteady m).always (Watching n deadline c x) x := by
  -- The induction is on the looks that are left; each of them takes time, so that the deadline
  -- has passed when there are none.
  induction looks generalizing x with
  | zero =>
    apply waitFor_succ_watching hk hx
    intro y hy hclock hlt
    omega
  | succ looks ih =>
    apply waitFor_succ_watching hk hx
    intro y hy hclock hlt hp
    have hleft : deadline ≤ y.world.clock + looks * pollInterval.nanos := by
      rw [Nat.succ_mul] at hl
      omega
    apply (ih hy hleft).weaken
    rintro r z ⟨hz, looked, hsome, hseen⟩
    refine ⟨hz, _, hsome.look hlt, ?_⟩
    rwa [List.append_assoc, ← hp]

theorem reap_kills (hk : c.killed = none) (hx : x.world.Has n c) :
    (reap n).Sure (Step.unsteady m).always (fun _ y => ∃ status,
      y.past = ⟨.await n, .ok status⟩ :: ⟨.kill n, ()⟩ :: x.past) x := by
  obtain ⟨c', done, hc, hl⟩ := hx
  obtain ⟨hstatus, t, ht, hend⟩ := c'.dead_ended x.world.clock (hl.killed.trans hk)
  obtain ⟨s, hs⟩ := Option.isSome_iff_exists.1 hstatus
  have hclock : ((x.world.killing n).advanceTo t).clock = x.world.clock :=
    ((x.world.killing n).advanceTo_passes t).clock.trans (Nat.max_eq_left ht)
  have hawait : (Step.await n).exec m (x.world.killing n) =
      some (.ok s, (x.world.killing n).advanceTo t) := by
    simp only [Step.exec, World.child?_killing hc, hend, Option.bind_some, hclock, hs, Option.map_some]
  apply Program.Sure.next (Q := fun _ y => y = x.after (.kill n) () (x.world.killing n))
  · exact .steady (Step.unsteady_fair m) rfl rfl rfl
  · rintro - y rfl
    exact (Program.Sure.steady (Step.unsteady_fair m) rfl hawait rfl).next fun r z (hz : z = _) => ⟨s, by rw [hz]; rfl⟩

def invocation (t : Translator) (id : ModelIdentity) (p : Path) : Invocation :=
  ⟨t.program, arguments id (p.join (id.name ++ ".stan")), .piped, .piped⟩

section Outcome

variable (t m w source id)

/-- The steps that end with the source in a file of its own, in a directory of its own. -/
inductive Prepared : Path → Tree → List Taken → Prop
  | intro {past : List Taken} {p : Path} {made files : Tree}
      (hp : Drawn "stanbind_" (t.place w) w.asked p past)
      (hmade : w.files.makeDirectory w.directory p = .ok made)
      (hfiles : made.write w.directory (p.join (id.name ++ ".stan")) ⟨Text.encode source, 0⟩ = .ok files) :
      Prepared p files (⟨.write (p.join (id.name ++ ".stan")) (Text.encode source), .ok ()⟩ :: past)

/-- The steps that end with the translator started, and the time noted. -/
inductive Begun : Activity → List Taken → Prop
  | intro {p : Path} {files : Tree} {a : Activity} {past : List Taken}
      (hp : t.Prepared w source id p files past)
      (ha : m.start w.environment files (t.invocation id p) = .ok a) :
      Begun a (⟨.now, w.clock⟩ :: ⟨.start (t.invocation id p), .ok w.nextNumber⟩ :: past)

inductive Awaited : Activity → List Taken → Prop
  | intro {a : Activity} {past looks : List Taken} (hb : t.Begun m w source id a past)
      (hl : Watched w.nextNumber (w.clock + t.timeout.nanos) looks) : Awaited a (looks ++ past)

/-- How the steps of a translation and its result belong together, but for the removal of its
directory. -/
inductive Outcome : Except TranslationError Translation → List Taken → Prop
  | unmade {past : List Taken} {e : FileError} (h : Unmade "stanbind_" (t.place w) w.asked e past) :
      Outcome (.error (.io e)) past
  | unwritten {past : List Taken} {p : Path} {e : FileError}
      (hp : Drawn "stanbind_" (t.place w) w.asked p past) :
      Outcome (.error (.io e))
        (⟨.write (p.join (id.name ++ ".stan")) (Text.encode source), .error e⟩ :: past)
  | unstarted {p : Path} {files : Tree} {past : List Taken} {e : FileError}
      (hp : t.Prepared w source id p files past)
      (he : m.start w.environment files (t.invocation id p) = .error e) :
      Outcome (.error (.notStarted t.program e)) (⟨.start (t.invocation id p), .error e⟩ :: past)
  | undated {a : Activity} {past : List Taken} (hb : t.Begun m w source id a past)
      (hd : Instant.last.nanos < w.clock + t.timeout.nanos) : Outcome (.error .noDeadline) past
  | unwatched {a : Activity} {past : List Taken} {e : FileError} {status : ExitStatus}
      (ha : t.Awaited m w source id a past) :
      Outcome (.error (.io e)) (⟨.await w.nextNumber, .ok status⟩ :: ⟨.kill w.nextNumber, ()⟩ ::
        ⟨.poll w.nextNumber, .error e⟩ :: past)
  | overdue {a : Activity} {past : List Taken} {status : ExitStatus} {now : Nat}
      (ha : t.Awaited m w source id a past) (hn : w.clock + t.timeout.nanos ≤ now)
      (he : ∀ e, a.exit = some e → now < w.clock + e.1.nanos) :
      Outcome (.error (.timedOut t.timeout)) (⟨.emit (.translatorTimedOut id.key t.timeout), ()⟩ ::
        ⟨.await w.nextNumber, .ok status⟩ :: ⟨.kill w.nextNumber, ()⟩ :: ⟨.now, now⟩ ::
        ⟨.poll w.nextNumber, .ok none⟩ :: past)
  | rejected {a : Activity} {past : List Taken} {d : Duration} {status : ExitStatus}
      (ha : t.Awaited m w source id a past) (he : a.exit = some (d, status))
      (hs : status.success = false) :
      Outcome (.error (.rejected (Text.trim (Text.decodeLossy (errOf a.effects)))))
        (⟨.collectErr w.nextNumber, errOf a.effects⟩ :: ⟨.collectOut w.nextNumber, outOf a.effects⟩ ::
          ⟨.poll w.nextNumber, .ok (some status)⟩ :: past)
  | accepted {a : Activity} {past : List Taken} {d : Duration} {status : ExitStatus}
      (ha : t.Awaited m w source id a past) (he : a.exit = some (d, status))
      (hs : status.success = true) :
      Outcome (.ok ⟨Text.trim (Text.decodeLossy (outOf a.effects)),
          Text.trim (Text.decodeLossy (errOf a.effects))⟩)
        (⟨.collectErr w.nextNumber, errOf a.effects⟩ :: ⟨.collectOut w.nextNumber, outOf a.effects⟩ ::
          ⟨.poll w.nextNumber, .ok (some status)⟩ :: past)

end Outcome

theorem Awaited.begun (h : t.Awaited m w source id a past) :
    ∃ before, t.Begun m w source id a before ∧ before <:+ past := by
  obtain ⟨hb, -⟩ := h
  exact ⟨_, hb, List.suffix_append _ _⟩

theorem Outcome.decided {r : Except TranslationError Translation} (h : t.Outcome m w source id r past)
    (hp : Furnished past) (hlook : ∀ n e, ⟨.poll n, .error e⟩ ∉ past)
    (hlast : w.clock + t.timeout.nanos ≤ Instant.last.nanos) :
    (∃ i e, ⟨.start i, .error e⟩ ∈ past ∧ r = .error (.notStarted t.program e)) ∨
      ∃ a before, t.Begun m w source id a before ∧ before <:+ past ∧
        (a.exit = none → r = .error (.timedOut t.timeout)) ∧
        ∀ d status, a.exit = some (d, status) → d.nanos ≤ t.timeout.nanos →
          r = if status.success then .ok ⟨Text.trim (Text.decodeLossy (outOf a.effects)),
              Text.trim (Text.decodeLossy (errOf a.effects))⟩
            else .error (.rejected (Text.trim (Text.decodeLossy (errOf a.effects)))) := by
  cases h with
  | unmade h =>
    obtain ⟨p, hmade⟩ := hp.made
    exact absurd hmade h.not_made
  | unwritten => exact absurd List.mem_cons_self (hp.filled _ _ _)
  | unstarted hp he => exact .inl ⟨_, _, List.mem_cons_self, rfl⟩
  | undated hb hd => omega
  | @unwatched a past' e status ha =>
    have hfailed : ⟨.poll w.nextNumber, .error e⟩ ∈ (⟨.poll w.nextNumber, .error e⟩ :: past' : List Taken) :=
      List.mem_cons_self
    exact absurd (List.mem_cons_of_mem _ (List.mem_cons_of_mem _ hfailed)) (hlook _ _)
  | @overdue a past' status now ha hn he =>
    obtain ⟨before, hb, hbefore⟩ := ha.begun
    refine .inr ⟨a, before, hb, hbefore.trans ⟨[_, _, _, _, _], rfl⟩, fun _ => rfl, fun d s hexit hd => ?_⟩
    have hearly : now < w.clock + d.nanos := he _ hexit
    omega
  | @rejected a past' d status ha he hs =>
    obtain ⟨before, hb, hbefore⟩ := ha.begun
    refine .inr ⟨a, before, hb, hbefore.trans ⟨[_, _, _], rfl⟩, fun hnone => ?_, fun d' s hexit _ => ?_⟩
    · cases he.symm.trans hnone
    · obtain ⟨-, rfl⟩ := Prod.mk.inj (Option.some.inj (he.symm.trans hexit))
      simp [hs]
  | @accepted a past' d status ha he hs =>
    obtain ⟨before, hb, hbefore⟩ := ha.begun
    refine .inr ⟨a, before, hb, hbefore.trans ⟨[_, _, _], rfl⟩, fun hnone => ?_, fun d' s hexit _ => ?_⟩
    · cases he.symm.trans hnone
    · obtain ⟨-, rfl⟩ := Prod.mk.inj (Option.some.inj (he.symm.trans hexit))
      simp [hs]

theorem conclude_reads {i : Invocation} {d : Duration} {status : ExitStatus} (hi : i.out = .piped)
    (hi' : i.err = .piped) (ha : a.Orderly) (he : a.exit = some (d, status))
    (hx : x.world.Has n (w.born i a)) :
    (conclude status n).run.Sure (Step.unsteady m).always (fun r y =>
      r = (if status.success then .ok ⟨Text.trim (Text.decodeLossy (outOf a.effects)),
          Text.trim (Text.decodeLossy (errOf a.effects))⟩
        else .error (.rejected (Text.trim (Text.decodeLossy (errOf a.effects))))) ∧
      y.past = ⟨.collectErr n, errOf a.effects⟩ :: ⟨.collectOut n, outOf a.effects⟩ :: x.past) x := by
  have hends := ha.ends (by rw [he]; rfl)
  obtain ⟨out, hout⟩ := Option.isSome_iff_exists.1 hends.1
  obtain ⟨err, herr⟩ := Option.isSome_iff_exists.1 hends.2
  obtain ⟨hcollect, hw₁⟩ := hx.collect (f := (·.outEnd)) (g := Effect.outBytes) rfl
    (fun c' done h => ⟨h.outEnd, World.born_out hi h⟩) hout ha.sorted (ha.out out hout)
  generalize x.world.advanceTo _ = w₁ at hcollect hw₁
  obtain ⟨hcollect', hw₂⟩ := hw₁.collect (f := (·.errEnd)) (g := Effect.errBytes) rfl
    (fun c' done h => ⟨h.errEnd, World.born_err hi' h⟩) herr ha.sorted (ha.err err herr)
  generalize w₁.advanceTo _ = w₂ at hcollect' hw₂
  have hexec : (Step.collectOut n).exec m x.world = some (outOf a.effects, w₁) := hcollect
  have hexec' : (Step.collectErr n).exec m w₁ = some (errOf a.effects, w₂) := hcollect'
  apply Program.Sure.liftThen (Q := fun r y => r = outOf a.effects ∧
    y = x.after (.collectOut n) (outOf a.effects) w₁) (.steady (Step.unsteady_fair m) rfl hexec ⟨rfl, rfl⟩)
  rintro - y ⟨rfl, rfl⟩
  apply Program.Sure.liftThen (Q := fun r z => r = errOf a.effects ∧
    z.past = ⟨.collectErr n, errOf a.effects⟩ :: ⟨.collectOut n, outOf a.effects⟩ :: x.past)
    (.steady (Step.unsteady_fair m) rfl hexec' ⟨rfl, rfl⟩)
  rintro - z ⟨rfl, hz⟩
  cases status.success <;> exact .pure ⟨rfl, hz⟩

inductive Waited (t : Translator) (m : Machine) (w : World) (source : String) (id : ModelIdentity)
    (i : Invocation) (a : Activity) (y : Moment) : Except TranslationError ExitStatus → Prop
  | failed {e : TranslationError} (h : t.Outcome m w source id (.error e) y.past) :
      Waited t m w source id i a y (.error e)
  | ended {past : List Taken} {d : Duration} {status : ExitStatus}
      (ha : t.Awaited m w source id a past) (he : a.exit = some (d, status))
      (hy : y.world.Has w.nextNumber (w.born i a))
      (hp : y.past = ⟨.poll w.nextNumber, .ok (some status)⟩ :: past) :
      Waited t m w source id i a y (.ok status)

theorem await_waited {i : Invocation} (hb : t.Begun m w source id a (⟨.now, w.clock⟩ :: x.past))
    (hx : x.world.Has w.nextNumber (w.born i a)) (hclock : x.world.clock = w.clock) :
    (t.await id w.nextNumber).run.Sure (Step.unsteady m).always
      (fun r y => t.Waited m w source id i a y r) x := by
  apply Program.Sure.liftThen now_reads_clock
  rintro now y ⟨rfl, hpass, hp⟩
  rw [hclock] at hpass hp ⊢
  rw [← hp] at hb
  have hy := hx.passes hpass
  by_cases hlast : w.clock + t.timeout.nanos ≤ Instant.last.nanos
  case neg =>
    have hnone : Instant.after? ⟨w.clock⟩ t.timeout = none := if_neg hlast
    rw [hnone]
    exact .pure (.failed (.undated hb (Nat.lt_of_not_le hlast)))
  have hdeadline : Instant.after? ⟨w.clock⟩ t.timeout = some ⟨w.clock + t.timeout.nanos⟩ := if_pos hlast
  have hfit : w.clock + t.timeout.nanos ≤
      y.world.clock + (t.timeout.nanos / pollInterval.nanos + 1) * pollInterval.nanos := by
    have hp : pollInterval.nanos = 5000000 := rfl
    rw [hpass.clock, hp]
    omega
  rw [hdeadline]
  apply Program.Sure.liftThen (waitFor_watching rfl _ hy hfit)
  rintro r z ⟨hz, looks, hlooks, hseen⟩
  have ha : t.Awaited m w source id a (looks ++ y.past) := .intro hb hlooks
  generalize hpast : z.past = past at hseen
  cases hseen with
  | failed e =>
    apply Program.Sure.liftThen (reap_kills rfl hz)
    rintro - u ⟨status, hu⟩
    refine .pure (.failed ?_)
    rw [hu, hpast]
    exact .unwatched ha
  | ended he => exact .pure (.ended ha he hz hpast)
  | overdue hn he =>
    apply Program.Sure.liftThen (reap_kills rfl hz)
    rintro - u ⟨status, hu⟩
    apply Program.Sure.liftThen (Q := fun _ v =>
      v.past = ⟨.emit (.translatorTimedOut id.key t.timeout), ()⟩ :: u.past) (.steady (Step.unsteady_fair m) rfl rfl rfl)
    rintro - v hv
    refine .pure (.failed ?_)
    rw [hv, hu, hpast]
    exact .overdue ha hn he

theorem transcribe_outcome {p : Path} (hm : ∀ env files i a, m.start env files i = .ok a → a.Orderly)
    (hw : w.Counted) (haside : w.Aside x.world) (hp : t.Prepared w source id p x.files x.past) :
    (t.transcribe id (p.join (id.name ++ ".stan"))).run.Sure (Step.unsteady m).always
      (fun r y => t.Outcome m w source id r y.past) x := by
  obtain ⟨files, seed, events, hx⟩ := haside
  have henv : x.world.environment = w.environment := by rw [hx]
  cases hs : m.start w.environment x.files (t.invocation id p) with
  | error e =>
    have hexec : (Step.start (t.invocation id p)).exec m x.world = some (.error e, x.world) := by
      simp only [Step.exec, henv, hs]
    apply Program.Sure.ofThen (Q := fun r y => r = .error e ∧
      y.past = ⟨.start (t.invocation id p), .error e⟩ :: x.past) (.steady (Step.unsteady_fair m) rfl hexec ⟨rfl, rfl⟩)
    · rintro n y ⟨hn, -⟩
      simp at hn
    · rintro e' y ⟨he, hy⟩
      rw [hy, Except.error.inj he]
      exact .unstarted hp hs
  | ok a =>
    have hcounted : x.world.Counted := by
      rw [hx]
      exact hw
    obtain ⟨hnumber, hclock, -, c, hc, ⟨done, hl⟩, -⟩ := World.adopt_child hcounted (t.invocation id p) a
    have hborn : x.world.born (t.invocation id p) a = w.born (t.invocation id p) a := by rw [hx]; rfl
    have hnext : x.world.nextNumber = w.nextNumber := by rw [hx]
    have hexec : (Step.start (t.invocation id p)).exec m x.world =
        some (.ok w.nextNumber, (Step.adopt x.world (t.invocation id p) a).2) := by
      simp only [Step.exec, henv, hs, hnumber, hnext]
    rw [hborn] at hl
    rw [hnext] at hc
    apply Program.Sure.ofThen (Q := fun r y => r = .ok w.nextNumber ∧
      y = x.after (.start (t.invocation id p)) (.ok w.nextNumber) (Step.adopt x.world (t.invocation id p) a).2)
      (.steady (Step.unsteady_fair m) rfl hexec ⟨rfl, rfl⟩)
    · rintro n y ⟨hn, rfl⟩
      obtain rfl := Except.ok.inj hn
      have hb : t.Begun m w source id a (⟨.now, w.clock⟩ ::
          (x.after (.start (t.invocation id p)) (.ok w.nextNumber)
            (Step.adopt x.world (t.invocation id p) a).2).past) := .intro hp hs
      have hclock' : (Step.adopt x.world (t.invocation id p) a).2.clock = w.clock := by
        rw [hclock, hx]
      apply (await_waited hb ⟨c, done, hc, hl⟩ hclock').attempt
      · intro status y hy
        cases hy with
        | ended ha he hy hp =>
          apply (conclude_reads rfl rfl (hm _ _ _ _ hs) he hy).weaken
          rintro r z ⟨rfl, hz⟩
          rw [hz, hp]
          cases hsuccess : status.success
          · exact .rejected ha he hsuccess
          · exact .accepted ha he hsuccess
      · intro e y hy
        cases hy with
        | failed h => exact h
    · rintro e y ⟨he, -⟩
      simp at he

/-- What comes of a translation, whatever becomes of its steps and of the program that is started:
in the end its directory is removed, or there has never been any. -/
def Told (t : Translator) (m : Machine) (w : World) (source : String) (id : ModelIdentity)
    (r : Except TranslationError Translation) (y : Moment) : Prop :=
  ∃ tidying past, y.past = tidying ++ past ∧ (∀ s ∈ tidying, s.step.isBrief = true) ∧
    t.Outcome m w source id r past ∧
      ((∀ p, ⟨.makeDirectory p, .ok ()⟩ ∉ past) → tidying = [] ∧ y.files = w.files)

theorem write_outcome {p : Path} {made : Tree}
    (hm : ∀ env files i a, m.start env files i = .ok a → a.Orderly)
    (hw : w.Counted) (haside : w.Aside x.world) (hp : Drawn "stanbind_" (t.place w) w.asked p x.past)
    (hmade : w.files.makeDirectory w.directory p = .ok made) (hf : x.files = made) :
    (Attempt.of (Program.writeText (p.join (id.name ++ ".stan")) source) TranslationError.io >>= fun _ =>
      t.transcribe id (p.join (id.name ++ ".stan"))).run.Sure (Step.unsteady m).always
      (fun r y => t.Outcome m w source id r y.past) x := by
  apply Program.Sure.ofThen (writeText_writes (Step.unsteady_fair m) _ source x)
  · rintro ⟨⟩ y ⟨haside', hp', hfiles⟩
    apply transcribe_outcome hm hw (haside.trans haside')
    rw [hp']
    refine .intro hp hmade ?_
    rw [← hf, ← haside.directory]
    exact hfiles rfl
  · rintro e y ⟨-, hp', -⟩
    rw [hp']
    exact .unwritten hp

theorem translate_told (hm : ∀ env files i a, m.start env files i = .ok a → a.Orderly)
    (hw : w.Counted) :
    (t.translate source id).run.Sure (Step.unsteady m).always (t.Told m w source id) ⟨w, []⟩ := by
  rw [translate_eq]
  apply Program.Sure.liftThen (Q := fun e y => e = w.environment ∧ y.world = w ∧
    y.past = [⟨.environment, w.environment⟩])
  · refine .brief (Step.unsteady_fair m) rfl fun e w' hr => ?_
    obtain ⟨rfl, rfl⟩ := Step.faulty.environment hr
    exact ⟨rfl, rfl, rfl⟩
  rintro env y ⟨rfl, hy, hpast⟩
  apply Program.Sure.ofThen (makeTemporary_searched (Step.unsteady_fair m) hy (congrArg _ hpast) rfl)
  · rintro p z ⟨haside, hz⟩
    cases hz with
    | found hp hmade hf =>
      apply (write_outcome hm hw haside hp hmade hf).past.andThen
      rintro r u ⟨hu, hlater⟩
      apply (removeAll_tidies (Step.unsteady_fair m) u).weaken
      rintro _ v ⟨_, tidying, htidying, hv⟩
      refine ⟨tidying, u.past, hv, htidying, hu, fun hnone => ?_⟩
      exact absurd (hlater.subset hp.made_mem) (hnone p)
  · rintro e z ⟨-, hz⟩
    cases hz with
    | unmade h hf => exact ⟨[], z.past, rfl, List.forall_mem_nil _, .unmade h, fun _ => ⟨rfl, hf⟩⟩

section Place

variable {S : Site} {Z : Location → Prop} {env : Environment} {s : String} {p : Path}

/-- Any translator that is started finds the source, and nothing else, in a directory that was made
for it. -/
def Given (t : Translator) (S : Site) (q : Path) (source : String) (id : ModelIdentity)
    (x y : Moment) : Prop :=
  ∀ i r, y.past = ⟨.start i, r⟩ :: x.past → ∃ s, i = t.invocation id (q.join ("stanbind_" ++ s)) ∧
    x.files.Folder (S.root ++ ["stanbind_" ++ s]) [(id.name ++ ".stan", ⟨Text.encode source, 0⟩, false)]

theorem given_of_ne {q : Path} {s : Step} {r : s.Reply} (hs : ∀ i, s ≠ .start i) :
    t.Given S q source id x (x.after s r w) := by
  intro i r' h
  rw [Moment.after_past, List.cons.injEq, Taken.mk.injEq] at h
  exact absurd h.1.1 (hs i)

theorem given_of_quiet {q : Path} {s : Step} {r : s.Reply} (hs : s.isQuiet = true) :
    t.Given S q source id x (x.after s r w) :=
  given_of_ne fun i h => by simp [h, Step.isQuiet] at hs

theorem given_of_brief {q : Path} {s : Step} {r : s.Reply} (hs : s.isBrief = true) :
    t.Given S q source id x (x.after s r w) :=
  given_of_ne fun i h => by simp [h, Step.isBrief, Step.isPrompt] at hs

theorem conclude_only {status : ExitStatus} : (conclude status n).run.Only (Step.Credible env)
    (·.isQuiet = true) fun _ => True := by
  refine .liftThen (quiet_only (fun _ h => h) rfl) fun _ _ =>
    .liftThen (quiet_only (fun _ h => h) rfl) fun _ _ => ?_
  split <;> trivial

variable (hm : ∀ env files i a, m.start env files i = .ok a → (S.custom Z).Tame a)
include hm

theorem transcribe_lodged {q : Path} {tree : Tree} (hx : Lodged S Z env tree ("stanbind_" ++ s) x)
    (hf : x.files.Folder (S.root ++ ["stanbind_" ++ s])
      [(id.name ++ ".stan", ⟨Text.encode source, 0⟩, false)]) :
    (Rules.alone (Step.unsteady m) (t.Given S q source id)).Safe
      (fun _ y => Lodged S Z env tree ("stanbind_" ++ s) y)
      (t.transcribe id ((q.join ("stanbind_" ++ s)).join (id.name ++ ".stan"))).run x := by
  apply Rules.Safe.ofThen (Q := fun _ y => Lodged S Z env tree ("stanbind_" ++ s) y)
  · refine Rules.Safe.perform (s := .start _) ?_
    rintro y rfl r w hr
    have hd := (Step.loose_of_unsteady hr).drifts rfl hx.calm fun i a _ ha => hm _ _ i a ha
    refine ⟨?_, by rintro z rfl; exact hx.drifts hd⟩
    intro i r' h
    rw [Moment.after_past, List.cons.injEq, Taken.mk.injEq] at h
    obtain rfl := Step.start.inj h.1.1
    exact ⟨s, rfl, hf⟩
  · intro child y hy
    have honly : (t.await id child >>= fun status => conclude status child).run.Only
        (Step.Credible env) (·.isQuiet = true) fun _ => True :=
      .attempt (await_only fun _ h => h) (fun _ _ => conclude_only) fun _ _ => trivial
    refine Lodged.only honly hy fun z s r w hz he hs hr => ?_
    have hr := Step.loose_of_unsteady hr
    have hd := hr.drifts (Step.isIdle_of_isQuiet hs) hz fun i a _ ha => hm _ _ i a ha
    exact ⟨he ▸ hr.credible hz.sound.1.wellFormed, given_of_quiet hs, hd⟩
  · exact fun _ _ h => h

theorem write_lodged {q : Path} {tree : Tree} (hq : S.Leads env.location q)
    (hx : Lodged S Z env tree ("stanbind_" ++ s) x)
    (hf : x.files.Folder (S.root ++ ["stanbind_" ++ s]) []) :
    (Rules.alone (Step.unsteady m) (t.Given S q source id)).Safe
      (fun _ y => Lodged S Z env tree ("stanbind_" ++ s) y)
      (Attempt.of (Program.writeText ((q.join ("stanbind_" ++ s)).join (id.name ++ ".stan")) source)
        TranslationError.io >>= fun _ =>
        t.transcribe id ((q.join ("stanbind_" ++ s)).join (id.name ++ ".stan"))).run x := by
  apply Rules.Safe.ofThen (Q := fun r y => Lodged S Z env tree ("stanbind_" ++ s) y ∧ (r = .ok () →
    y.files.Folder (S.root ++ ["stanbind_" ++ s]) [(id.name ++ ".stan", ⟨Text.encode source, 0⟩, false)]))
  · refine Rules.Safe.perform (s := .write _ _) ?_
    rintro y rfl r w hr
    refine ⟨given_of_brief rfl, ?_⟩
    rintro z rfl
    obtain ⟨hy, hfolder⟩ := hx.write hq (plain_of_start rfl s) (id.plain_append ".stan") hf
      (Site.owns_nothing hf) ((Step.unsteady_fair m).brief (x := x) rfl hr)
    exact ⟨hy, fun hok => (hfolder hok (List.forall_mem_nil _)).1⟩
  · rintro ⟨⟩ y ⟨hy, hf⟩
    exact transcribe_lodged hm hy (hf rfl)
  · exact fun _ _ h => h.1

theorem translate_vacated {q : Path} (hZ : ∀ s, S.Hosts Z ("stanbind_" ++ s))
    (hx : (S.custom Z).Calm x.world)
    (hq : q = Path.inDirectory x.world.environment.directory
      (t.scratchRoot.getD x.world.environment.temporaryDirectory))
    (hlead : S.Leads x.world.environment.location q) :
    (Rules.alone (Step.unsteady m) (t.Given S q source id)).Safe (fun _ y => Vacated S Z x.files y)
      (t.translate source id).run x := by
  rw [translate_eq]
  apply Rules.Safe.liftThen (Q := fun e y => e = x.world.environment ∧ y.world = x.world)
  · refine Rules.Safe.perform (s := .environment) ?_
    rintro y rfl r w hr
    refine ⟨given_of_brief rfl, ?_⟩
    rintro z rfl
    exact Step.faulty.environment ((Step.unsteady_fair m).brief (x := x) rfl hr)
  rintro e y ⟨rfl, hy⟩
  subst hq
  have hfiles : y.files = x.files := by rw [Moment.files, hy]
  rw [← hfiles]
  exact lodging_vacated (fun _ _ _ _ hs => (Step.unsteady_fair m).brief (x := ⟨_, []⟩) hs)
    (fun _ _ _ _ hs => given_of_brief hs) hlead (plain_of_start rfl) hZ
    (fun s z hz hf => write_lodged hm hlead hz hf) (hy ▸ hx) (by rw [hy])

end Place

/-- A translation comes to an end with a result that tells what became of the program, and all is as
it was then where its directory was made, if this could be removed. -/
theorem translate_ends (t : Translator) (source : String) (id : ModelIdentity)
    (hm : ∀ env files i a, m.start env files i = .ok a → a.Orderly)
    (hw : w.Counted) :
    (t.translate source id).run.Sure (Step.unsteady m).always (t.Told m w source id) ⟨w, []⟩ ∧
      (∀ r past, t.Outcome m w source id r past → Furnished past →
        (∀ n e, ⟨.poll n, .error e⟩ ∉ past) → w.clock + t.timeout.nanos ≤ Instant.last.nanos →
        (∃ i e, ⟨.start i, .error e⟩ ∈ past ∧ r = .error (.notStarted t.program e)) ∨
          ∃ a before, t.Begun m w source id a before ∧ before <:+ past ∧
            (a.exit = none → r = .error (.timedOut t.timeout)) ∧
            ∀ d status, a.exit = some (d, status) → d.nanos ≤ t.timeout.nanos →
              r = if status.success then .ok ⟨Text.trim (Text.decodeLossy (outOf a.effects)),
                  Text.trim (Text.decodeLossy (errOf a.effects))⟩
                else .error (.rejected (Text.trim (Text.decodeLossy (errOf a.effects))))) ∧
      ∀ (S : Site) (Z : Location → Prop) (q : Path), (∀ s, S.Hosts Z ("stanbind_" ++ s)) → q = Path.inDirectory w.environment.directory
          (t.scratchRoot.getD w.environment.temporaryDirectory) →
        S.Leads w.environment.location q → (S.custom Z).Calm w →
        (∀ env files i a, m.start env files i = .ok a → (S.custom Z).Tame a) →
        (Rules.alone (Step.unsteady m) (t.Given S q source id)).Safe (fun _ y => Vacated S Z w.files y)
          (t.translate source id).run ⟨w, []⟩ := by
  refine ⟨translate_told hm hw, fun _ _ h => h.decided, ?_⟩
  intro S Z q hZ hq hlead hcalm htame
  exact translate_vacated (t := t) (x := ⟨w, []⟩) htame hZ hcalm hq hlead

theorem lingering_orderly (env : Environment) (files : Tree) (i : Invocation) (a : Activity)
    (ha : Machine.lingering.start env files i = .ok a) : a.Orderly := by
  obtain rfl := Except.ok.inj ha
  refine ⟨List.pairwise_singleton _ _, fun d hd e he _ => ?_, fun d hd e he hne => ?_, fun _ => ⟨rfl, rfl⟩⟩
  · obtain rfl := List.mem_singleton.1 he
    exact Nat.zero_le _
  · obtain rfl := List.mem_singleton.1 he
    exact absurd rfl hne

theorem lingering_tame (K : Custom) (env : Environment) (files : Tree) (i : Invocation) (a : Activity)
    (ha : Machine.lingering.start env files i = .ok a) : K.Tame a := by
  obtain rfl := Except.ok.inj ha
  intro e he change hc
  obtain rfl := List.mem_singleton.1 he
  cases hc

def texts? : Except TranslationError Translation → Option (String × String)
  | .ok o => some (o.code, o.warnings)
  | .error _ => none

theorem texts?_eq_some {r : Except TranslationError Translation} {code warnings : String}
    (h : texts? r = some (code, warnings)) : r = .ok ⟨code, warnings⟩ := by
  cases r with
  | ok o =>
    obtain ⟨rfl, rfl⟩ := Prod.mk.inj (Option.some.inj h)
    rfl
  | error e => cases h

theorem translate_ends_lingering : World.empty.Counted ∧ (Site.whole.custom Site.whole.entries).Calm .empty ∧
    ∃ y, (hasty.translate "x" .small).run.Ends (Step.answers .lingering) ⟨.empty, []⟩ (.ok ⟨"t", ""⟩) y ∧
      hasty.Told .lingering .empty "x" .small (.ok ⟨"t", ""⟩) y ∧
      (∀ s ∈ y.past, ∀ p, ¬s.Stumbles p) ∧ Vacated .whole Site.whole.entries World.empty.files y := by
  have hcounted : World.empty.Counted := by simp [World.Counted, World.empty, World.initial]
  have hcalm := Site.whole_calm (w := .empty) rfl rfl Site.whole.entries
  have hpath : Path.inDirectory World.empty.environment.directory
      (hasty.scratchRoot.getD World.empty.environment.temporaryDirectory) = Site.path [] := by
    decide +kernel
  obtain ⟨hsure, -, hsafe⟩ := translate_ends hasty "x" .small
    (fun env files i a => lingering_orderly env files i a) hcounted
  obtain ⟨⟨r, y⟩, htrack, h⟩ := (Option.any_eq_true _ _).mp
    (show ((hasty.translate "x" .small).run.track .lingering ⟨.empty, []⟩).any (fun o =>
      texts? o.1 = some ("t", "") ∧ o.2.past.all (·.stumble?.isNone)) = true by decide +kernel)
  obtain ⟨hr, hpast⟩ := of_decide_eq_true h
  obtain rfl := texts?_eq_some hr
  have hends := Ends.of_track htrack
  refine ⟨hcounted, hcalm, y, hends, hsure.ends (Step.unsteady_fair _) hends, fun s hs p hp => ?_, ?_⟩
  · obtain ⟨names, hnames⟩ := Taken.stumble?_of_stumbles hp
    have hnone := List.all_eq_true.1 hpast s hs
    rw [hnames] at hnone
    cases hnone
  · have hvacated := hsafe .whole _ _ (fun s => Site.whole.hosts_entries _) rfl (hpath ▸ (Site.serves_path .whole _).leads) hcalm
      (fun env files i a => lingering_tame _ env files i a)
    exact hvacated.steps_done (hends.mono fun _ _ _ _ h => .inl (.inl h))

end Translator

end CompiledModels
