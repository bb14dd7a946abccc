import CompiledModels.Machine.Directories

/-!
Programs step by step: what holds after every step of a program, whatever the system answers and
whatever others do between two of its steps.
-/

namespace CompiledModels

variable {α β ε ε' : Type}

/-- A step that was taken, with its reply. -/
structure Taken where
  step : Step
  reply : step.Reply

/-- Where a program is: the world, and the steps it has taken, the last one first. -/
structure Moment where
  world : World
  past : List Taken

def Moment.after (x : Moment) (s : Step) (r : s.Reply) (w : World) : Moment :=
  ⟨w, ⟨s, r⟩ :: x.past⟩

@[simp] theorem Moment.after_world (x : Moment) (s : Step) (r : s.Reply) (w : World) :
    (x.after s r w).world = w := rfl

@[simp] theorem Moment.after_past (x : Moment) (s : Step) (r : s.Reply) (w : World) :
    (x.after s r w).past = ⟨s, r⟩ :: x.past := rfl

inductive Program.Ran {α : Type} (p : Program α) : List Taken → Program α → Prop
  | refl : Ran p [] p
  | step {past : List Taken} {s : Step} {next : s.Reply → Program α} (h : Ran p past (.step s next))
      (r : s.Reply) : Ran p (⟨s, r⟩ :: past) (next r)

theorem Program.Ran.first {s : Step} {next : s.Reply → Program α} {past : List Taken} {a : α}
    (h : (Program.step s next).Ran past (.done a)) : ∃ t ∈ past, t.step = s := by
  suffices hq : ∀ q, (Program.step s next).Ran past q →
      q = .step s next ∨ ∃ t ∈ past, t.step = s by
    exact (hq _ h).resolve_left nofun
  clear h
  intro q hq
  induction hq with
  | refl => exact .inl rfl
  | @step past s' next' h r ih =>
    refine .inr ?_
    rcases ih with heq | ⟨t, ht, hs⟩
    · obtain ⟨rfl, -⟩ := Program.step.inj heq
      exact ⟨_, List.mem_cons_self, rfl⟩
    · exact ⟨t, List.mem_cons_of_mem _ ht, hs⟩

abbrev Answers := World → (s : Step) → s.Reply → World → Prop

def Step.answers (m : Machine) : Answers := fun w s r w' => s.exec m w = some (r, w')

/-- Some steps of a program, from one moment to another, and what of the program is left. -/
inductive Program.Steps (act : Answers) : Program α → Moment → Program α → Moment → Prop
  | refl (p : Program α) (x : Moment) : Steps act p x p x
  | step {s : Step} {next : s.Reply → Program α} {x : Moment} {r : s.Reply} {w : World}
      {q : Program α} {y : Moment} (h : act x.world s r w)
      (hs : Steps act (next r) (x.after s r w) q y) : Steps act (.step s next) x q y

namespace Program.Steps

variable {act : Answers} {p q : Program α} {x y z : Moment}

theorem of_run {m : Machine} {w w' : World} {a : α} (h : p.run m w = some (a, w'))
    (past : List Taken) :
    ∃ taken, Steps (Step.answers m) p ⟨w, past⟩ (.done a) ⟨w', taken ++ past⟩ := by
  induction p generalizing w past with
  | done b =>
    simp only [Program.run, Option.some.injEq, Prod.mk.injEq] at h
    obtain ⟨rfl, rfl⟩ := h
    exact ⟨[], .refl _ _⟩
  | step s next ih =>
    simp only [Program.run] at h
    split at h
    case h_1 => simp at h
    case h_2 r w₁ hr =>
      obtain ⟨taken, ht⟩ := ih r h (⟨s, r⟩ :: past)
      refine ⟨taken ++ [⟨s, r⟩], .step (r := r) (w := w₁) hr ?_⟩
      simpa [Moment.after] using ht

theorem of_run_isOk {m : Machine} {w : World} {p : Program (Except ε α)}
    (h : (p.run m w).any (·.1.isOk) = true) :
    ∃ a y, Steps (Step.answers m) p ⟨w, []⟩ (.done (.ok a)) y := by
  cases hr : p.run m w with
  | none => simp [hr] at h
  | some result =>
    obtain ⟨r, w'⟩ := result
    obtain ⟨taken, hs⟩ := of_run hr []
    cases r with
    | ok a => exact ⟨a, _, hs⟩
    | error e => simp [hr, Except.isOk, Except.toBool] at h

theorem mono {act' : Answers} (hact : ∀ w s r w', act w s r w' → act' w s r w')
    (h : Steps act p x q y) : Steps act' p x q y := by
  induction h with
  | refl p x => exact .refl p x
  | step h _ ih => exact .step (hact _ _ _ _ h) ih

theorem past (h : Steps act p x q y) : x.past <:+ y.past := by
  induction h with
  | refl p x => exact List.suffix_refl _
  | step h _ ih => exact (List.suffix_cons _ _).trans ih

theorem run_of {m : Machine} {a : α} (h : Steps (Step.answers m) p x (.done a) y) :
    p.run m x.world = some (a, y.world) := by
  generalize hq : (Program.done a : Program α) = q at h
  induction h with
  | refl p x => subst hq; rfl
  | step h hs ih =>
    simp only [Step.answers] at h
    simp only [Program.run, h]
    exact ih hq

end Program.Steps

/-- What a program has to reckon with and to keep to: how its steps are answered, what others may
do between two of them, and what each of them may do. -/
structure Rules where
  act : Answers
  rely : Moment → Moment → Prop
  keep : Moment → Moment → Prop
  refl : ∀ x, rely x x
  trans : ∀ {x y z}, rely x y → rely y z → rely x z

namespace Rules

variable (R : Rules)

def Stable (P : Moment → Prop) : Prop := ∀ x y, R.rely x y → P x → P y

def Allows (K : Moment → Moment → Prop) : Prop := ∀ x y, K x y → R.keep x y

def keeping (K : Moment → Moment → Prop) : Rules := { R with keep := K }

def Safe (post : α → Moment → Prop) : Program α → Moment → Prop
  | .done a, x => ∀ y, R.rely x y → post a y
  | .step s next, x => ∀ y, R.rely x y → ∀ r w, R.act y.world s r w →
      R.keep y (y.after s r w) ∧ Safe post (next r) (y.after s r w)

end Rules

namespace Rules.Safe

variable {R : Rules} {p : Program α} {post post' : α → Moment → Prop} {x y : Moment}

theorem done_iff {a : α} : R.Safe post (.done a) x ↔ ∀ y, R.rely x y → post a y := Iff.rfl

theorem step_iff {s : Step} {next : s.Reply → Program α} : R.Safe post (.step s next) x ↔
    ∀ y, R.rely x y → ∀ r w, R.act y.world s r w →
      R.keep y (y.after s r w) ∧ R.Safe post (next r) (y.after s r w) := Iff.rfl

theorem weaken (h : R.Safe post p x) (hp : ∀ a y, post a y → post' a y) : R.Safe post' p x := by
  induction p generalizing x with
  | done a => exact fun y hy => hp a y (h y hy)
  | step s next ih =>
    intro y hy r w hr
    exact ⟨(h y hy r w hr).1, ih r (h y hy r w hr).2⟩

theorem later (h : R.Safe post p x) (hy : R.rely x y) : R.Safe post p y := by
  cases p with
  | done a => exact fun z hz => h z (R.trans hy hz)
  | step s next => exact fun z hz r w hr => h z (R.trans hy hz) r w hr

theorem settled (h : R.Safe post p x) :
    R.Safe (fun a y => ∀ z, R.rely y z → post a z) p x := by
  induction p generalizing x with
  | done a => exact fun y hy z hz => h z (R.trans hy hz)
  | step s next ih =>
    intro y hy r w hr
    exact ⟨(h y hy r w hr).1, ih r (h y hy r w hr).2⟩

theorem pure {a : α} (h : ∀ y, R.rely x y → post a y) :
    R.Safe post (Pure.pure a : Program α) x := h

theorem done {a : α} (h : post a x) (hs : R.Stable (post a)) :
    R.Safe post (Pure.pure a : Program α) x := fun y hy => hs x y hy h

theorem bind {f : α → Program β} {post : β → Moment → Prop}
    (h : R.Safe (fun a y => R.Safe post (f a) y) p x) : R.Safe post (p >>= f) x := by
  induction p generalizing x with
  | done a => exact h x (R.refl x)
  | step s next ih =>
    intro y hy r w hr
    exact ⟨(h y hy r w hr).1, ih r (h y hy r w hr).2⟩

theorem next {f : α → Program β} {Q : α → Moment → Prop} {post : β → Moment → Prop}
    (h : R.Safe Q p x) (hf : ∀ a y, Q a y → R.Safe post (f a) y) :
    R.Safe post (p >>= f) x := bind (h.weaken hf)

theorem perform {s : Step} {post : s.Reply → Moment → Prop}
    (h : ∀ y, R.rely x y → ∀ r w, R.act y.world s r w → R.keep y (y.after s r w) ∧
      ∀ z, R.rely (y.after s r w) z → post r z) : R.Safe post (Program.perform s) x :=
  fun y hy r w hr => h y hy r w hr

theorem and (h : R.Safe post p x) (h' : R.Safe post' p x) :
    R.Safe (fun a y => post a y ∧ post' a y) p x := by
  induction p generalizing x with
  | done a => exact fun y hy => ⟨h y hy, h' y hy⟩
  | step s next ih =>
    intro y hy r w hr
    exact ⟨(h y hy r w hr).1, ih r (h y hy r w hr).2 (h' y hy r w hr).2⟩

theorem transfer {R' : Rules} (h : R.Safe post p x) (hact : ∀ w s r w', R'.act w s r w' →
    R.act w s r w') (hrely : ∀ x y, R'.rely x y → R.rely x y)
    (hkeep : ∀ x y, R.keep x y → R'.keep x y) : R'.Safe post p x := by
  induction p generalizing x with
  | done a => exact fun y hy => h y (hrely x y hy)
  | step s next ih =>
    intro y hy r w hr
    obtain ⟨hk, hn⟩ := h y (hrely x y hy) r w (hact _ _ _ _ hr)
    exact ⟨hkeep _ _ hk, ih r hn⟩

theorem keepInvariant {K : Moment → Moment → Prop} {J : Moment → Prop}
    (h : (R.keeping K).Safe post p x) (hk : R.Allows K) (hx : J x) (hs : R.Stable J)
    (hj : ∀ y z, K y z → J y → J z) : R.Safe (fun a y => post a y ∧ J y) p x := by
  induction p generalizing x with
  | done a => exact fun y hy => ⟨h y hy, hs x y hy hx⟩
  | step s next ih =>
    intro y hy r w hr
    obtain ⟨hkeep, hn⟩ := h y hy r w hr
    exact ⟨hk _ _ hkeep, ih r hn (hj _ _ hkeep (hs x y hy hx))⟩

theorem widen {K L : Moment → Moment → Prop} {J : Moment → Prop}
    (h : (R.keeping K).Safe post p x) (hk : ∀ y z, K y z → L y z) (hx : J x) (hs : R.Stable J)
    (hj : ∀ y z, K y z → J y → J z) : (R.keeping L).Safe (fun a y => post a y ∧ J y) p x :=
  keepInvariant (R := R.keeping L) h hk hx hs hj

theorem withInvariant {J : Moment → Prop} (h : R.Safe post p x) (hx : J x) (hs : R.Stable J)
    (hk : ∀ y z, R.keep y z → J y → J z) : R.Safe (fun a y => post a y ∧ J y) p x := by
  induction p generalizing x with
  | done a => exact fun y hy => ⟨h y hy, hs x y hy hx⟩
  | step s next ih =>
    intro y hy r w hr
    obtain ⟨hkeep, hn⟩ := h y hy r w hr
    exact ⟨hkeep, ih r hn (hk _ _ hkeep (hs x y hy hx))⟩

theorem steps {q : Program α} (h : R.Safe post p x) (hs : Program.Steps R.act p x q y) :
    R.Safe post q y := by
  induction hs with
  | refl p x => exact h
  | step hr _ ih => exact ih (h _ (R.refl _) _ _ hr).2

theorem steps_done {a : α} (h : R.Safe post p x) (hs : Program.Steps R.act p x (.done a) y) :
    post a y := done_iff.1 (h.steps hs) y (R.refl y)

theorem keeps {J : Moment → Prop} {q : Program α} (h : R.Safe post p x)
    (hs : Program.Steps R.act p x q y) (hx : J x) (hk : ∀ y z, R.keep y z → J y → J z) : J y := by
  induction hs with
  | refl p x => exact hx
  | step hr _ ih =>
    obtain ⟨hkeep, hn⟩ := h _ (R.refl _) _ _ hr
    exact ih hn (hk _ _ hkeep hx)

theorem run {m : Machine} {w w' : World} {a : α} {past : List Taken} (hact : R.act = Step.answers m)
    (h : R.Safe post p ⟨w, past⟩) (hr : p.run m w = some (a, w')) :
    ∃ taken, post a ⟨w', taken ++ past⟩ := by
  obtain ⟨taken, hs⟩ := Program.Steps.of_run hr past
  rw [← hact] at hs
  exact ⟨taken, h.steps_done hs⟩

theorem attempt {p : Attempt ε α} {f : α → Attempt ε β} {Q : Except ε α → Moment → Prop}
    {post : Except ε β → Moment → Prop} (h : R.Safe Q p.run x)
    (hok : ∀ a y, Q (.ok a) y → R.Safe post (f a).run y)
    (herr : ∀ e y, Q (.error e) y → post (.error e) y) : R.Safe post (p >>= f).run x := by
  refine next h.settled fun r y hr => ?_
  cases r with
  | ok a => exact hok a y (hr y (R.refl y))
  | error e => exact pure fun z hz => herr e z (hr z hz)

theorem of {p : Program (Except ε' α)} {wrap : ε' → ε} {Q : Except ε' α → Moment → Prop}
    {post : Except ε α → Moment → Prop} (h : R.Safe Q p x)
    (hok : ∀ a y, Q (.ok a) y → post (.ok a) y)
    (herr : ∀ e y, Q (.error e) y → post (.error (wrap e)) y) :
    R.Safe post (Attempt.of p wrap).run x := by
  refine next h.settled fun r y hr => ?_
  cases r with
  | ok a => exact pure fun z hz => hok a z (hr z hz)
  | error e => exact pure fun z hz => herr e z (hr z hz)

theorem ofThen {p : Program (Except ε' α)} {wrap : ε' → ε} {f : α → Attempt ε β}
    {Q : Except ε' α → Moment → Prop} {post : Except ε β → Moment → Prop} (h : R.Safe Q p x)
    (hok : ∀ a y, Q (.ok a) y → R.Safe post (f a).run y)
    (herr : ∀ e y, Q (.error e) y → post (.error (wrap e)) y) :
    R.Safe post (Attempt.of p wrap >>= f).run x := by
  have hp : R.Safe (fun r y => match r with
      | .ok a => Q (.ok a) y
      | .error e => post (.error e) y) (Attempt.of p wrap).run x := of h (fun _ _ h => h) herr
  exact attempt hp hok fun _ _ h => h

theorem lift {p : Program α} {post : Except ε α → Moment → Prop}
    (h : R.Safe (fun a y => post (.ok a) y) p x) : R.Safe post (liftM p : Attempt ε α).run x :=
  next h.settled fun _ _ ha => pure ha

theorem liftThen {p : Program α} {f : α → Attempt ε β} {Q : α → Moment → Prop}
    {post : Except ε β → Moment → Prop} (h : R.Safe Q p x)
    (hf : ∀ a y, Q a y → R.Safe post (f a).run y) :
    R.Safe post ((liftM p : Attempt ε α) >>= f).run x := by
  have hp : R.Safe (fun r y => ∃ a, r = .ok a ∧ Q a y) (liftM p : Attempt ε α).run x :=
    lift (h.weaken fun a y ha => ⟨a, rfl, ha⟩)
  refine attempt hp ?_ ?_
  · rintro a y ⟨b, hb, hy⟩
    rw [Except.ok.injEq] at hb
    exact hf a y (hb ▸ hy)
  · rintro e y ⟨a, ha, _⟩
    simp at ha

theorem andThen {p : Attempt ε α} {after : Program Unit} {Q post : Except ε α → Moment → Prop}
    (h : R.Safe Q p.run x)
    (ha : ∀ r y, Q r y → R.Safe (fun _ z => post r z) after y) :
    R.Safe post (Attempt.andThen p after).run x := by
  exact next h fun r y hr => next (ha r y hr).settled fun _ z hz => pure hz

end Rules.Safe

attribute [irreducible] Rules.Safe

end CompiledModels
