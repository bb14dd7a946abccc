import CompiledModels.Proofs.Children
import CompiledModels.Proofs.Working

/-!
Programs that are alone and come to an end, however the system answers their steps.
-/

namespace CompiledModels

open Program

abbrev Replies := Moment → (s : Step) → s.Reply → World → Prop

abbrev Answers.always (act : Answers) : Replies := fun x => act x.world

variable {α β ε ε' : Type} {act : Replies} {m : Machine} {p : Program α} {x : Moment} {w : World}
  {post post' : α → Moment → Prop}

def Program.Sure (act : Replies) (post : α → Moment → Prop) : Program α → Moment → Prop
  | .done a, x => post a x
  | .step s next, x => (∃ r w, act x s r w) ∧
      ∀ r w, act x s r w → (next r).Sure act post (x.after s r w)

namespace Program.Sure

theorem weaken (h : p.Sure act post x) (hp : ∀ a y, post a y → post' a y) :
    p.Sure act post' x := by
  induction p generalizing x with
  | done a => exact hp a x h
  | step s next ih => exact ⟨h.1, fun r w hr => ih r (h.2 r w hr)⟩

theorem pure {a : α} (h : post a x) : (Pure.pure a : Program α).Sure act post x := h

theorem next {f : α → Program β} {Q : α → Moment → Prop} {post : β → Moment → Prop}
    (h : p.Sure act Q x) (hf : ∀ a y, Q a y → (f a).Sure act post y) :
    (p >>= f).Sure act post x := by
  induction p generalizing x with
  | done a => exact hf a x h
  | step s next ih => exact ⟨h.1, fun r w hr => ih r (h.2 r w hr)⟩

theorem perform {s : Step} {post : s.Reply → Moment → Prop} (hs : ∃ r w, act x s r w)
    (h : ∀ r w, act x s r w → post r (x.after s r w)) :
    (Program.perform s).Sure act post x := ⟨hs, h⟩

theorem attempt {p : Attempt ε α} {f : α → Attempt ε β} {Q : Except ε α → Moment → Prop}
    {post : Except ε β → Moment → Prop} (h : p.run.Sure act Q x)
    (hok : ∀ a y, Q (.ok a) y → (f a).run.Sure act post y)
    (herr : ∀ e y, Q (.error e) y → post (.error e) y) : (p >>= f).run.Sure act post x := by
  apply next h
  intro r y hr
  cases r with
  | ok a => exact hok a y hr
  | error e => exact herr e y hr

theorem ofThen {p : Program (Except ε' α)} {wrap : ε' → ε} {f : α → Attempt ε β}
    {Q : Except ε' α → Moment → Prop} {post : Except ε β → Moment → Prop} (h : p.Sure act Q x)
    (hok : ∀ a y, Q (.ok a) y → (f a).run.Sure act post y)
    (herr : ∀ e y, Q (.error e) y → post (.error (wrap e)) y) :
    (Attempt.of p wrap >>= f).run.Sure act post x := by
  have hp : (Attempt.of p wrap).run.Sure act
      (fun r y => (∃ a, r = .ok a ∧ Q (.ok a) y) ∨ ∃ e, r = .error (wrap e) ∧ Q (.error e) y) x := by
    apply next h
    intro r y hr
    cases r with
    | ok a => exact .inl ⟨a, rfl, hr⟩
    | error e => exact .inr ⟨e, rfl, hr⟩
  apply attempt hp
  · rintro a y (⟨b, hb, hy⟩ | ⟨e, he, -⟩)
    · obtain rfl := Except.ok.inj hb
      exact hok _ y hy
    · simp at he
  · rintro e y (⟨a, ha, -⟩ | ⟨e', he, hy⟩)
    · simp at ha
    · obtain rfl := Except.error.inj he
      exact herr _ y hy

theorem liftThen {p : Program α} {f : α → Attempt ε β} {Q : α → Moment → Prop}
    {post : Except ε β → Moment → Prop} (h : p.Sure act Q x)
    (hf : ∀ a y, Q a y → (f a).run.Sure act post y) :
    ((liftM p : Attempt ε α) >>= f).run.Sure act post x := by
  have hp : (liftM p : Attempt ε α).run.Sure act (fun r y => ∃ a, r = .ok a ∧ Q a y) x :=
    next h fun a y hy => ⟨a, rfl, hy⟩
  apply attempt hp
  · rintro a y ⟨b, hb, hy⟩
    obtain rfl := Except.ok.inj hb
    exact hf _ y hy
  · rintro e y ⟨a, ha, -⟩
    simp at ha

theorem andThen {p : Attempt ε α} {after : Program Unit} {Q post : Except ε α → Moment → Prop}
    (h : p.run.Sure act Q x) (ha : ∀ r y, Q r y → after.Sure act (fun _ z => post r z) y) :
    (Attempt.andThen p after).run.Sure act post x :=
  next h fun r y hr => next (ha r y hr) fun _ _ hz => hz

theorem past (h : p.Sure act post x) : p.Sure act (fun a y => post a y ∧ x.past <:+ y.past) x := by
  induction p generalizing x with
  | done a => exact ⟨h, List.suffix_refl _⟩
  | step s next ih =>
    refine ⟨h.1, fun r w hr => (ih r (h.2 r w hr)).weaken fun a y hy => ⟨hy.1, ?_⟩⟩
    exact (List.suffix_cons _ _).trans hy.2

end Program.Sure

theorem Program.Only.sure {ok : ∀ s : Step, s.Reply → Prop} {P : Step → Prop} {Q : α → Prop}
    {J : Moment → Prop} (h : p.Only ok P Q) (hx : J x)
    (hs : ∀ y s, J y → P s → (∃ r w, act y s r w) ∧
      ∀ r w, act y s r w → ok s r ∧ J (y.after s r w)) :
    p.Sure act (fun a y => Q a ∧ J y) x := by
  induction p generalizing x with
  | done a => exact ⟨h, hx⟩
  | step s next ih =>
    obtain ⟨hans, hall⟩ := hs x s hx h.1
    refine ⟨hans, fun r w hr => ?_⟩
    obtain ⟨hok, hj⟩ := hall r w hr
    exact ih r (h.2 r hok) hj

def Step.isSteady : Step → Bool
  | .start _ | .kill _ | .await _ | .collectOut _ | .collectErr _ | .now | .sleep _ | .emit _ => true
  | _ => false

structure Replies.Fair (act : Replies) (m : Machine) : Prop where
  exec : ∀ {x : Moment} {s : Step} {r : s.Reply} {w : World},
    s.exec m x.world = some (r, w) → act x s r w
  brief : ∀ {x : Moment} {s : Step} {r : s.Reply} {w : World},
    s.isBrief = true → act x s r w → Step.faulty m x.world s r w
  steady : ∀ {x : Moment} {s : Step} {r : s.Reply} {w : World},
    s.isSteady = true → act x s r w → s.exec m x.world = some (r, w)

theorem Step.answers_fair (m : Machine) : Replies.Fair (Step.answers m).always m where
  exec h := h
  brief _ h := .inl h
  steady _ h := h

namespace Program.Sure

theorem finishes {act : Answers} (h : p.Sure act.always post x) : ∃ a y, p.Ends act x a y ∧ post a y := by
  induction p generalizing x with
  | done a => exact ⟨a, x, .refl _ _, h⟩
  | step s next ih =>
    obtain ⟨⟨r, w, hr⟩, hall⟩ := h
    obtain ⟨a, y, hends, hy⟩ := ih r (hall r w hr)
    exact ⟨a, y, .step hr hends, hy⟩

theorem brief (hact : act.Fair m) {s : Step} {post : s.Reply → Moment → Prop} (hs : s.isBrief = true)
    (hp : ∀ r w, Step.faulty m x.world s r w → post r (x.after s r w)) :
    (Program.perform s).Sure act post x := by
  obtain ⟨r, w, h⟩ := Step.exec_isBrief (m := m) (w := x.world) hs
  exact perform ⟨r, w, hact.exec h⟩ fun r w hr => hp r w (hact.brief hs hr)

theorem ends (hact : act.Fair m) {a : α} {y : Moment} (h : p.Sure act post x)
    (hs : p.Ends (Step.answers m) x a y) : post a y := by
  induction p generalizing x with
  | done b =>
    obtain ⟨rfl, rfl⟩ := Ends.pure_iff.1 hs
    exact h
  | step s next ih =>
    cases hs with
    | step hr hs => exact ih _ (h.2 _ _ (hact.exec hr)) hs

theorem steady (hact : act.Fair m) {s : Step} {r : s.Reply} {w : World}
    {post : s.Reply → Moment → Prop} (hs : s.isSteady = true) (h : s.exec m x.world = some (r, w))
    (hp : post r (x.after s r w)) : (Program.perform s).Sure act post x := by
  apply perform ⟨r, w, hact.exec h⟩
  intro r' w' h'
  have heq := (hact.steady hs h').symm.trans h
  simp only [Option.some.injEq, Prod.mk.injEq] at heq
  obtain ⟨rfl, rfl⟩ := heq
  exact hp

end Program.Sure

theorem isFile_looks (hact : act.Fair m) (p : Path) (x : Moment) :
    (isFile p).Sure act (fun b y => x.world.Aside y.world ∧ ∃ r, y.past = ⟨.stat p true, r⟩ :: x.past ∧
      (b = true → ∃ n, r = .ok n ∧ n.isFile = true) ∧
      (b = false → ∀ n, r = .ok n → n.isFile = false)) x := by
  apply Program.Sure.next (Q := fun r y => x.world.Aside y.world ∧ y.past = ⟨.stat p true, r⟩ :: x.past)
    (.brief hact rfl fun r w hr => ⟨Step.aside_of_faulty rfl hr, rfl⟩)
  rintro r y ⟨haside, hp⟩
  cases r with
  | error e => exact .pure ⟨haside, _, hp, fun h => (by cases h), fun _ _ h => by cases h⟩
  | ok n =>
    refine .pure ⟨haside, _, hp, fun hn => ⟨n, rfl, hn⟩, ?_⟩
    rintro hn n' hn'
    rwa [← Except.ok.inj hn']

theorem writeText_writes (hact : act.Fair m) (p : Path) (text : String) (x : Moment) :
    (writeText p text).Sure act (fun r y => x.world.Aside y.world ∧
      y.past = ⟨.write p (Text.encode text), r⟩ :: x.past ∧
      (r = .ok () → x.files.write x.world.directory p ⟨Text.encode text, 0⟩ = .ok y.files)) x := by
  refine .brief hact rfl fun r w hr => ⟨Step.aside_of_faulty rfl hr, rfl, ?_⟩
  rintro rfl
  rcases Step.faulty.write hr with (⟨e, he, -⟩ | ⟨-, files, hfiles, rfl⟩) | ⟨e, he, -⟩
  · simp at he
  · exact hfiles
  · simp at he

section Scratch

def World.asked (w : World) : List Taken := [⟨.environment, w.environment⟩, ⟨.environment, w.environment⟩]

variable {start : String} {q : Path}

inductive Tried (start : String) (q : Path) (earlier : List Taken) : Nat → List Taken → Prop
  | none : Tried start q earlier 0 earlier
  | next {tries : Nat} {past : List Taken} (h : Tried start q earlier tries past) (s : String) :
      Tried start q earlier (tries + 1)
        (⟨.makeDirectory (q.join (start ++ s)), .error (.os .alreadyExists)⟩ :: ⟨.drawSuffix, s⟩ :: past)

inductive Drawn (start : String) (q : Path) (earlier : List Taken) : Path → List Taken → Prop
  | intro {tries : Nat} {past : List Taken} (h : Tried start q earlier tries past)
      (ht : tries < maxTries) (s : String) :
      Drawn start q earlier (q.join (start ++ s))
        (⟨.makeDirectory (q.join (start ++ s)), .ok ()⟩ :: ⟨.drawSuffix, s⟩ :: past)

/-- The steps that end without a directory: the last one could not be made, or was the last of as many
as are tried. -/
inductive Unmade (start : String) (q : Path) (earlier : List Taken) : FileError → List Taken → Prop
  | refused {tries : Nat} {past : List Taken} {e : FileError} (h : Tried start q earlier tries past)
      (ht : tries < maxTries) (s : String) (he : e ≠ .os .alreadyExists) :
      Unmade start q earlier (.atPath e (q.join (start ++ s)).text)
        (⟨.makeDirectory (q.join (start ++ s)), .error e⟩ :: ⟨.drawSuffix, s⟩ :: past)
  | taken {past : List Taken} (h : Tried start q earlier maxTries past) :
      Unmade start q earlier (.atPath (.os .alreadyExists) q.text) past

theorem Drawn.made_mem {earlier past : List Taken} {p : Path} (h : Drawn start q earlier p past) :
    ⟨.makeDirectory p, .ok ()⟩ ∈ past := by
  cases h with
  | intro => exact List.mem_cons_self

theorem Unmade.not_made {past : List Taken} {e : FileError} {p : Path}
    (h : Unmade start q w.asked e past) : ⟨.makeDirectory p, .ok ()⟩ ∉ past := by
  have htried {tries : Nat} {past : List Taken} (h : Tried start q w.asked tries past) :
      ⟨.makeDirectory p, .ok ()⟩ ∉ past := by
    induction h with
    | none => simp [World.asked]
    | next h s ih => simp [ih]
  cases h with
  | refused h ht s he => simp [htried h]
  | taken h => exact htried h

/-- A directory was made, and what was to be written was written. -/
structure Furnished (past : List Taken) : Prop where
  made : ∃ p, ⟨.makeDirectory p, .ok ()⟩ ∈ past
  filled : ∀ p bytes e, ⟨.write p bytes, .error e⟩ ∉ past

inductive Searched (start : String) (q : Path) (earlier : List Taken) (w : World) (y : Moment) :
    Except FileError Path → Prop
  | unmade {e : FileError} (h : Unmade start q earlier e y.past) (hf : y.files = w.files) :
      Searched start q earlier w y (.error e)
  | found {p : Path} {t : Files.Tree} (h : Drawn start q earlier p y.past)
      (ht : w.files.makeDirectory w.directory p = .ok t) (hf : y.files = t) :
      Searched start q earlier w y (.ok p)

theorem drawSuffix_keeps_files (hact : act.Fair m) (x : Moment) : (Program.perform .drawSuffix).Sure act
    (fun s y => x.world.Aside y.world ∧ y.files = x.files ∧ y.past = ⟨.drawSuffix, s⟩ :: x.past) x := by
  refine .brief hact rfl fun s w hr => ?_
  obtain ⟨-, seed, rfl⟩ := Step.faulty.drawSuffix hr
  exact ⟨⟨x.files, seed, x.world.events, rfl⟩, rfl, rfl⟩

theorem makeDirectory_makes (hact : act.Fair m) (p : Path) (x : Moment) :
    (Program.perform (.makeDirectory p)).Sure act (fun r y => x.world.Aside y.world ∧
      y.past = ⟨.makeDirectory p, r⟩ :: x.past ∧ ((∃ e, r = .error e ∧ y.files = x.files) ∨
        r = .ok () ∧ ∃ t, x.files.makeDirectory x.world.directory p = .ok t ∧ y.files = t)) x := by
  refine .brief hact rfl fun r w hr => ?_
  have hset := Step.faulty.makeDirectory hr
  refine ⟨hset.aside, rfl, ?_⟩
  rcases hset with ⟨e, rfl, rfl⟩ | ⟨rfl, t, ht, rfl⟩
  · exact .inl ⟨e, rfl, rfl⟩
  · exact .inr ⟨rfl, t, ht, rfl⟩

theorem makeFresh_searched (hact : act.Fair m) {earlier : List Taken} {done : Nat} (tries : Nat)
    (hx : Tried start q earlier done x.past) (ht : done + tries = maxTries) (haside : w.Aside x.world)
    (hf : x.files = w.files) : (makeFresh start q tries).Sure act
      (fun r y => w.Aside y.world ∧ Searched start q earlier w y r) x := by
  -- The induction is on the tries that are left; those before it have changed nothing.
  induction tries generalizing x done with
  | zero =>
    obtain rfl : done = maxTries := ht
    exact ⟨haside, .unmade (.taken hx) hf⟩
  | succ tries ih =>
    have hdone : done < maxTries := by omega
    apply Program.Sure.next (drawSuffix_keeps_files hact x)
    rintro s y ⟨hy, hfy, hpy⟩
    have hy := haside.trans hy
    apply Program.Sure.next (makeDirectory_makes hact _ y)
    rintro r z ⟨hz, hpz, ⟨e, rfl, hfz⟩ | ⟨rfl, t, hmade, hfz⟩⟩
    · have hz := hy.trans hz
      have hfz := hfz.trans (hfy.trans hf)
      rw [hpy] at hpz
      simp only
      split
      case isTrue he =>
        subst he
        exact ih (hpz ▸ hx.next s) (by omega) hz hfz
      case isFalse he => exact .pure ⟨hz, .unmade (hpz ▸ .refused hx hdone s he) hfz⟩
    · rw [hpy] at hpz
      rw [hfy, hf, hy.directory] at hmade
      exact .pure ⟨hy.trans hz, .found (hpz ▸ .intro hx hdone s) hmade hfz⟩

theorem makeTemporary_searched (hact : act.Fair m) {p : Path} {earlier : List Taken} (hw : x.world = w)
    (he : ⟨.environment, w.environment⟩ :: x.past = earlier)
    (hq : q = Path.inDirectory w.environment.directory p) : (makeTemporary start p).Sure act
      (fun r y => w.Aside y.world ∧ Searched start q earlier w y r) x := by
  subst hw he hq
  apply Program.Sure.next (Q := fun e y => e = x.world.environment ∧ y.world = x.world ∧
    y.past = ⟨.environment, e⟩ :: x.past)
  · refine .brief hact rfl fun e w hr => ?_
    obtain ⟨rfl, rfl⟩ := Step.faulty.environment hr
    exact ⟨rfl, rfl, rfl⟩
  rintro e y ⟨rfl, hw, hp⟩
  exact makeFresh_searched hact maxTries (hp ▸ .none) (Nat.zero_add _) (hw ▸ .refl _) (by rw [Moment.files, hw])

theorem removeAll_tidies (hact : act.Fair m) (x : Moment) : (do let _ ← removeAll q : Program Unit).Sure act
    (fun _ y => x.world.Aside y.world ∧
      ∃ tidying, (∀ s ∈ tidying, s.step.isBrief = true) ∧ y.past = tidying ++ x.past) x := by
  have honly : (do let _ ← removeAll q : Program Unit).Only (fun _ _ => True) (·.isBrief = true)
      fun _ => True :=
    (removeAll_only (N := fun _ => True) brief_prompt (fun _ _ _ _ _ _ _ => trivial)
      fun _ _ => ⟨rfl, rfl⟩).next fun _ _ => trivial
  refine (honly.sure (J := fun y => x.world.Aside y.world ∧ ∃ tidying,
    (∀ s ∈ tidying, s.step.isBrief = true) ∧ y.past = tidying ++ x.past) ⟨.refl _, [], by simp, rfl⟩
      fun y s h hs => ?_).weaken fun _ _ h => h.2
  obtain ⟨haside, tidying, ht, hp⟩ := h
  obtain ⟨r, w, h⟩ := Step.exec_isBrief (m := m) (w := y.world) hs
  refine ⟨⟨r, w, hact.exec h⟩, fun r w hr => ⟨trivial,
    haside.trans (Step.aside_of_faulty hs (hact.brief hs hr)), ⟨s, r⟩ :: tidying, ?_, ?_⟩⟩
  · exact List.forall_mem_cons.2 ⟨hs, ht⟩
  · rw [Moment.after_past, hp, List.cons_append]

end Scratch

end CompiledModels
