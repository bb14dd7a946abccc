import CompiledModels.Proofs.Alone
import CompiledModels.Proofs.Ends
import CompiledModels.Proofs.Lull
import CompiledModels.Proofs.Visits

/-!
What a program does that works in the directories while nothing else runs, on a machine on which
steps may fail.
-/

namespace CompiledModels

open Files Program

variable {α β : Type} {act : Answers} {m : Machine} {E : Estate} {env : Environment}
  {tools : Invocation → Prop} {x y : Moment} {p : Program α} {post : α → Prop} {w w' : World}
  {s : Step}

namespace Program

theorem Only.ends {ok : ∀ s : Step, s.Reply → Prop} {P : Step → Prop} {J : World → Prop} {a : α}
    (h : p.Only ok P post) (hs : p.Ends act x a y) (hx : J x.world)
    (hJ : ∀ w s r w', J w → P s → act w s r w' → ok s r ∧ J w') :
    (post a ∧ J y.world) ∧ p.Ends (fun w s r w' => act w s r w' ∧ J w ∧ P s) x a y := by
  induction p generalizing x with
  | done b =>
    obtain ⟨rfl, rfl⟩ := Ends.pure_iff.mp hs
    exact ⟨⟨h, hx⟩, .refl _ _⟩
  | step s next ih =>
    cases hs with
    | step hr hs =>
      obtain ⟨hok, hj⟩ := hJ _ _ _ _ hx h.1 hr
      obtain ⟨hpost, hrest⟩ := ih _ (h.2 _ hok) hs hj
      exact ⟨hpost, .step ⟨hr, hx, h.1⟩ hrest⟩

theorem Steps.related {K : Moment → Moment → Prop} {q : Program α} (hrefl : ∀ x, K x x)
    (htrans : ∀ {x y z}, K x y → K y z → K x z)
    (hact : ∀ x s r w, act x.world s r w → K x (x.after s r w)) (h : p.Steps act x q y) : K x y := by
  induction h with
  | refl => exact hrefl _
  | step h _ ih => exact htrans (hact _ _ _ _ h) ih

end Program

/-- All is the same but for the files, for what has been reported, and for where fresh names are
drawn from. -/
def World.Aside (w w' : World) : Prop := ∃ files seed events, w' = { w with files, seed, events }

theorem World.Aside.refl (w : World) : w.Aside w := ⟨w.files, w.seed, w.events, rfl⟩

theorem World.Aside.directory (h : w.Aside w') : w'.directory = w.directory := by
  obtain ⟨_, _, _, rfl⟩ := h
  rfl

theorem World.Aside.trans {w'' : World} (h : w.Aside w') (h' : w'.Aside w'') : w.Aside w'' := by
  obtain ⟨_, _, _, rfl⟩ := h
  obtain ⟨files, seed, events, rfl⟩ := h'
  exact ⟨files, seed, events, rfl⟩

theorem Step.Settles.aside {op : Except FileError Tree} {r : Except FileError Unit}
    (h : Step.Settles w op r w') : w.Aside w' := by
  rcases h with ⟨_, _, rfl⟩ | ⟨_, t, _, rfl⟩
  · exact .refl _
  · exact ⟨t, w.seed, w.events, rfl⟩

theorem Step.aside_of_faulty {r : s.Reply} (hs : s.isBrief = true) (h : s.faulty m w r w') :
    w.Aside w' := by
  cases s with
  | stat p follow => exact (faulty.stat h).1 ▸ .refl _
  | list p => exact (faulty.list h).1 ▸ .refl _
  | read p => exact (reads_of_faulty h).1 ▸ .refl _
  | write p bytes =>
    rcases faulty.write h with h | ⟨_, _, _, t, _, rfl⟩
    · exact h.aside
    · exact ⟨t, w.seed, w.events, rfl⟩
  | copy p q =>
    rcases faulty.copy h with h | ⟨_, _, _, t, _, rfl⟩
    · exact h.aside
    · exact ⟨t, w.seed, w.events, rfl⟩
  | makeDirectory p => exact (faulty.makeDirectory h).aside
  | removeFile p => exact (faulty.removeFile h).aside
  | removeDirectory p => exact (faulty.removeDirectory h).aside
  | rename p q => exact (faulty.rename h).aside
  | drawSuffix =>
    obtain ⟨-, seed, rfl⟩ := faulty.drawSuffix h
    exact ⟨w.files, seed, w.events, rfl⟩
  | environment => exact (faulty.environment h).2 ▸ .refl _
  | emit e =>
    obtain rfl := faulty.emit h
    exact ⟨w.files, w.seed, _, rfl⟩
  | _ => simp [Step.isBrief, Step.isPrompt] at hs

namespace Estate

theorem Upholds.refl (hw : E.Calm w) : E.Upholds w w := .drifts hw (.of_eq hw rfl rfl rfl rfl)

theorem faulty_upholds {r : s.Reply} (hm : E.Orderly m tools) (hw : E.Calm w)
    (he : w.environment = env) (hs : s.Obeys E env tools) (h : s.faulty m w r w') :
    E.Upholds w w' := by
  rcases h with h | h
  · exact obeys_upholds hm hw he hs h
  · subst he
    cases s with
    | write p bytes =>
      obtain ⟨l, hl, -⟩ := hs
      obtain ⟨-, rfl | ⟨part, -, t, ht, rfl⟩⟩ := h
      · exact .refl hw
      · exact .shifts hw (write_shifts hw.sound hl ht)
    | copy p q =>
      obtain ⟨l, hl, -⟩ := hs
      obtain ⟨-, rfl | ⟨c, t, ht, rfl⟩⟩ := h
      · exact .refl hw
      · exact .shifts hw (write_shifts hw.sound hl ht)
    | stat | list | read | makeDirectory | removeFile | removeDirectory | rename =>
      obtain ⟨-, rfl⟩ := h
      exact .refl hw
    | _ => exact h.elim

end Estate

theorem Step.Obeys.faulty {r : s.Reply} (hs : s.Obeys E env tools) (h : s.flawed m w r w') :
    s.faulty m w r w' := by
  refine faulty_of_flawed h ?_ ?_
  · rintro p rfl
    exact hs
  · rintro n rfl
    exact hs

theorem Step.Obeys.isOutside (hs : s.Obeys E env tools) : s.isOutside = true := by
  cases s <;> first | rfl | exact hs.elim

def Rules.working (act : Answers) (E : Estate) (env : Environment) (tools : Invocation → Prop)
    (K : Moment → Moment → Prop) : Rules :=
  .alone (fun w s r w' => act w s r w' ∧ (E.Calm w ∧ w.environment = env) ∧ s.Obeys E env tools) K

section Working

variable (hact : ∀ w s r w', act w s r w' → Step.flawed m w s r w') (hm : E.Orderly m tools)
include hact

theorem Workplace.working {K : Moment → Moment → Prop} (hm : E.Orderly m tools) :
    Workplace (.working act E env tools K) E m env tools := by
  refine ⟨fun h => h.2.2.faulty (hact _ _ _ _ h.1), fun h => ⟨h.2.1.1, h.2.1.2, h.2.2⟩, hm, ?_, ?_⟩
  · rintro x y rfl
    exact ⟨.refl _, rfl, [], rfl, by simp⟩
  · rintro x y rfl
    rfl

include hm

theorem Behaves.ends {a : α} (h : Behaves E env tools post p) (hs : p.Ends act x a y)
    (hx : E.Calm x.world) (he : x.world.environment = env) :
    (post a ∧ E.Upholds x.world y.world) ∧
      ∀ K, p.Ends (Rules.working act E env tools K).act x a y := by
  obtain ⟨⟨hpost, hy⟩, hs'⟩ := Program.Only.ends (J := fun w => E.Calm w ∧ w.environment = env) h hs
    ⟨hx, he⟩ fun w s r w' hw hobeys hr => by
      have hu := Estate.faulty_upholds hm hw.1 hw.2 hobeys (hobeys.faulty (hact _ _ _ _ hr))
      have hR : Workplace (.working act E env tools fun _ _ => True) E m env tools :=
        Workplace.working hact hm
      exact ⟨hR.credible ⟨hr, hw, hobeys⟩, hu.calm, hu.environment.trans hw.2⟩
  refine ⟨⟨hpost, ?_⟩, fun K => hs'⟩
  refine Program.Steps.related (K := fun x y => E.Calm x.world → E.Upholds x.world y.world)
    (fun _ => .refl) (fun h h' hw => (h hw).trans (h' (h hw).calm)) (fun x s r w' h hw => ?_) hs' hx
  exact Estate.faulty_upholds hm hw h.2.1.2 h.2.2 (h.2.2.faulty (hact _ _ _ _ h.1))

theorem Behaves.spares {a : α} (h : Behaves E env tools post p) (hs : p.Ends act x a y)
    (hx : E.Calm x.world) (he : x.world.environment = env) : x.world.Spares y.world := by
  refine Program.Steps.related (K := fun x y => x.world.Spares y.world) (fun _ => .rfl) .trans
    (fun x s r w' h => ?_) ((Behaves.ends hact hm h hs hx he).2 fun _ _ => True)
  have hout := h.2.2.isOutside
  rcases h.2.2.faulty (hact _ _ _ _ h.1) with h | h
  · exact World.exec_spares hout h
  · cases s with
    | write p bytes =>
      obtain ⟨-, rfl | ⟨part, -, t, -, rfl⟩⟩ := h
      · exact .rfl
      · exact ⟨by rfl, by rfl⟩
    | copy p q =>
      obtain ⟨-, rfl | ⟨c, t, -, rfl⟩⟩ := h
      · exact .rfl
      · exact ⟨by rfl, by rfl⟩
    | stat | list | read | makeDirectory | removeFile | removeDirectory | rename =>
      obtain ⟨-, rfl⟩ := h
      exact .rfl
    | _ => exact h.elim

theorem Behaves.aside {a : α} (h : Behaves E env tools post p) (hb : p.Brief env)
    (hs : p.Ends act x a y) (hx : E.Calm x.world) (he : x.world.environment = env) :
    x.world.Aside y.world := by
  have hR : Workplace (.working act E env tools fun _ _ => True) E m env tools :=
    Workplace.working hact hm
  obtain ⟨-, hbrief⟩ := Program.Only.ends (J := fun _ => True) hb
    ((Behaves.ends hact hm h hs hx he).2 fun _ _ => True) trivial
    fun w s r w' _ _ hr => ⟨hR.credible hr, trivial⟩
  exact Program.Steps.related (K := fun x y => x.world.Aside y.world) (fun _ => .refl _) .trans
    (fun x s r w h => Step.aside_of_faulty h.2.2 (hR.act h.1)) hbrief

end Working

end CompiledModels
