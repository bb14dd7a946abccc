import CompiledModels.Proofs.Steps

/-!
What it takes for a program that is alone to come to its end: each part of it comes to its end, one
after the other.
-/

namespace CompiledModels

variable {α β ε ε' : Type} {act : Answers} {x y : Moment}

abbrev Program.Ends (act : Answers) (p : Program α) (x : Moment) (a : α) (y : Moment) : Prop :=
  p.Steps act x (.done a) y

def Program.track (m : Machine) : Program α → Moment → Option (α × Moment)
  | .done a, x => some (a, x)
  | .step s next, x =>
    match s.exec m x.world with
    | none => none
    | some (r, w) => (next r).track m (x.after s r w)

theorem Program.Steps.concat {p : Program α} {s : Step} {next : s.Reply → Program α} {r : s.Reply} {w : World}
    (h : p.Steps act x (.step s next) y) (hr : act y.world s r w) : p.Steps act x (next r) (y.after s r w) := by
  generalize hq : Program.step s next = q at h
  induction h with
  | refl p x =>
    subst hq
    exact .step hr (.refl _ _)
  | step h _ ih => exact .step h (ih hr hq)

theorem Program.Ran.steps {p q : Program α} {past : List Taken} (h : p.Ran past q) (w : World) :
    p.Steps (fun _ _ _ _ => True) ⟨w, []⟩ q ⟨w, past⟩ := by
  induction h with
  | refl => exact .refl _ _
  | step _ r ih => exact ih.concat trivial

namespace Program.Ends

variable {p : Program α}

theorem of_track {m : Machine} {a : α} (h : p.track m x = some (a, y)) :
    p.Ends (Step.answers m) x a y := by
  induction p generalizing x with
  | done b =>
    obtain ⟨rfl, rfl⟩ := Prod.mk.inj (Option.some.inj h)
    exact .refl _ _
  | step s next ih =>
    rw [track] at h
    split at h
    case h_1 => simp at h
    case h_2 r w hr => exact .step hr (ih r h)

theorem run {m : Machine} {a : α} (h : p.Ends (Step.answers m) x a y) :
    p.run m x.world = some (a, y.world) := by
  induction p generalizing x with
  | done b =>
    cases h
    rfl
  | step s next ih =>
    cases h with
    | @step _ _ _ r w _ _ hr hs =>
      have hexec : s.exec m x.world = some (r, w) := hr
      rw [Program.run, hexec]
      exact ih r hs

theorem pure_iff {a b : α} : (Pure.pure a : Program α).Ends act x b y ↔ b = a ∧ y = x := by
  constructor
  · intro h
    cases h
    exact ⟨rfl, rfl⟩
  · rintro ⟨rfl, rfl⟩
    exact .refl _ _

theorem perform_iff {s : Step} {r : s.Reply} :
    (perform s).Ends act x r y ↔ ∃ w, act x.world s r w ∧ y = x.after s r w := by
  constructor
  · intro h
    cases h with
    | step h hs =>
      cases hs
      exact ⟨_, h, rfl⟩
  · rintro ⟨w, h, rfl⟩
    exact .step h (.refl _ _)

theorem bind_iff {f : α → Program β} {b : β} :
    (p >>= f).Ends act x b y ↔ ∃ a z, p.Ends act x a z ∧ (f a).Ends act z b y := by
  induction p generalizing x with
  | done a =>
    constructor
    · exact fun h => ⟨a, x, .refl _ _, h⟩
    · rintro ⟨_, _, ha, h⟩
      obtain ⟨rfl, rfl⟩ := pure_iff.mp ha
      exact h
  | step s next ih =>
    constructor
    · intro h
      cases h with
      | step h hs =>
        obtain ⟨a, z, hz, hf⟩ := (ih _).mp hs
        exact ⟨a, z, .step h hz, hf⟩
    · rintro ⟨a, z, hz, hf⟩
      cases hz with
      | step h hs => exact .step h ((ih _).mpr ⟨a, z, hs, hf⟩)

theorem of_iff {p : Program (Except ε' α)} {wrap : ε' → ε} {r : Except ε α} :
    (Attempt.of p wrap).run.Ends act x r y ↔ ∃ r', p.Ends act x r' y ∧ r = r'.mapError wrap := by
  refine bind_iff.trans ⟨?_, ?_⟩
  · rintro ⟨r', z, h, hr⟩
    cases r' <;> (obtain ⟨rfl, rfl⟩ := pure_iff.mp hr; exact ⟨_, h, rfl⟩)
  · rintro ⟨r', h, rfl⟩
    refine ⟨r', y, h, ?_⟩
    cases r' <;> exact pure_iff.mpr ⟨rfl, rfl⟩

theorem lift_iff {r : Except ε α} :
    (liftM p : Attempt ε α).run.Ends act x r y ↔ ∃ a, p.Ends act x a y ∧ r = .ok a := by
  refine bind_iff.trans ⟨?_, ?_⟩
  · rintro ⟨a, z, h, hr⟩
    obtain ⟨rfl, rfl⟩ := pure_iff.mp hr
    exact ⟨a, h, rfl⟩
  · rintro ⟨a, h, rfl⟩
    exact ⟨a, y, h, pure_iff.mpr ⟨rfl, rfl⟩⟩

theorem attempt_iff {p : Attempt ε α} {f : α → Attempt ε β} {r : Except ε β} :
    (p >>= f).run.Ends act x r y ↔ (∃ e, p.run.Ends act x (.error e) y ∧ r = .error e) ∨
      ∃ a z, p.run.Ends act x (.ok a) z ∧ (f a).run.Ends act z r y := by
  refine bind_iff.trans ⟨?_, ?_⟩
  · rintro ⟨a, z, h, hr⟩
    cases a with
    | ok a => exact .inr ⟨a, z, h, hr⟩
    | error e =>
      obtain ⟨rfl, rfl⟩ := pure_iff.mp hr
      exact .inl ⟨e, h, rfl⟩
  · rintro (⟨e, h, rfl⟩ | ⟨a, z, h, hr⟩)
    · exact ⟨.error e, y, h, pure_iff.mpr ⟨rfl, rfl⟩⟩
    · exact ⟨.ok a, z, h, hr⟩

theorem liftThen_iff {f : α → Attempt ε β} {r : Except ε β} :
    ((liftM p : Attempt ε α) >>= f).run.Ends act x r y ↔
      ∃ a z, p.Ends act x a z ∧ (f a).run.Ends act z r y := by
  refine attempt_iff.trans ⟨?_, ?_⟩
  · rintro (⟨e, h, -⟩ | ⟨a, z, h, hf⟩)
    · obtain ⟨a, -, ha⟩ := lift_iff.mp h
      simp at ha
    · obtain ⟨a', h, ha⟩ := lift_iff.mp h
      obtain rfl : a = a' := by simpa using ha
      exact ⟨a, z, h, hf⟩
  · rintro ⟨a, z, h, hf⟩
    exact .inr ⟨a, z, lift_iff.mpr ⟨a, h, rfl⟩, hf⟩

theorem ofThen_iff {p : Program (Except ε' α)} {wrap : ε' → ε} {f : α → Attempt ε β}
    {r : Except ε β} : (Attempt.of p wrap >>= f).run.Ends act x r y ↔
      (∃ e, p.Ends act x (.error e) y ∧ r = .error (wrap e)) ∨
        ∃ a z, p.Ends act x (.ok a) z ∧ (f a).run.Ends act z r y := by
  rw [attempt_iff]
  refine or_congr ⟨?_, ?_⟩ ⟨?_, ?_⟩
  · rintro ⟨e, h, rfl⟩
    obtain ⟨r', h', hr⟩ := of_iff.mp h
    cases r' with
    | ok a => exact nomatch hr
    | error e' =>
      obtain rfl : e = wrap e' := Except.error.inj hr
      exact ⟨e', h', rfl⟩
  · rintro ⟨e, h, rfl⟩
    exact ⟨_, of_iff.mpr ⟨_, h, rfl⟩, rfl⟩
  · rintro ⟨a, z, h, hf⟩
    obtain ⟨r', h, hr⟩ := of_iff.mp h
    cases r' with
    | ok a' =>
      obtain rfl : a = a' := Except.ok.inj hr
      exact ⟨a, z, h, hf⟩
    | error e => exact nomatch hr
  · rintro ⟨a, z, h, hf⟩
    exact ⟨a, z, of_iff.mpr ⟨_, h, rfl⟩, hf⟩

theorem throw_iff {e : ε} {r : Except ε α} :
    (throw e : Attempt ε α).run.Ends act x r y ↔ r = .error e ∧ y = x := pure_iff

theorem return_iff {a : α} {r : Except ε α} :
    (Pure.pure a : Attempt ε α).run.Ends act x r y ↔ r = .ok a ∧ y = x := pure_iff (α := Except ε α)

theorem andThen_iff {p : Attempt ε α} {after : Program Unit} {r : Except ε α} :
    (Attempt.andThen p after).run.Ends act x r y ↔
      ∃ z, p.run.Ends act x r z ∧ after.Ends act z () y := by
  refine bind_iff.trans ⟨?_, ?_⟩
  · rintro ⟨r', z, h, hr⟩
    obtain ⟨_, _, ha, hr⟩ := bind_iff.mp hr
    obtain ⟨rfl, rfl⟩ := pure_iff.mp hr
    exact ⟨z, h, ha⟩
  · rintro ⟨z, h, ha⟩
    exact ⟨r, z, h, bind_iff.mpr ⟨(), y, ha, pure_iff.mpr ⟨rfl, rfl⟩⟩⟩

end Program.Ends

end CompiledModels
