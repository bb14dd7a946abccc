import CompiledModels.Proofs.Hit
import CompiledModels.Proofs.Table
import CompiledModels.Proofs.Publication

/-!
A look at an entry while others are at work: what is found is one entry as long as nothing changes
that can be seen of it, and may be put together from the states of the entry otherwise.
-/

namespace CompiledModels

open Files Program

variable {m : Machine} {w w' : World} {c : Cache} {e : Engine} {id : ModelIdentity}
  {source : String} {α : Type}

structure World.SameEntry (c : Cache) (id : ModelIdentity) (w w' : World) : Prop where
  list : w'.files.list w'.directory (c.entryDirectory id) =
    w.files.list w.directory (c.entryDirectory id)
  directory : w'.files.stat w'.directory true (c.entryDirectory id) =
    w.files.stat w.directory true (c.entryDirectory id)
  stat : ∀ name, w'.files.stat w'.directory true ((c.entryDirectory id).join name) =
    w.files.stat w.directory true ((c.entryDirectory id).join name)
  read : ∀ name, w'.files.read w'.directory ((c.entryDirectory id).join name) =
    w.files.read w.directory ((c.entryDirectory id).join name)

theorem World.SameEntry.refl : w.SameEntry c id w := ⟨rfl, rfl, fun _ => rfl, fun _ => rfl⟩

theorem World.SameEntry.trans {w'' : World} (h : w.SameEntry c id w') (h' : w'.SameEntry c id w'') :
    w.SameEntry c id w'' :=
  ⟨h'.list.trans h.list, h'.directory.trans h.directory, fun s => (h'.stat s).trans (h.stat s),
    fun s => (h'.read s).trans (h.read s)⟩

theorem Step.LooksAt.exec {s : Step} (h : s.LooksAt c id) (hw : w.SameEntry c id w') :
    ∃ r events, s.exec m w = some (r, w.noting events) ∧ s.exec m w' = some (r, w'.noting events) := by
  have hsame {s : Step} {f : World → s.Reply} (hs : ∀ w, s.exec m w = some (f w, w))
      (hf : f w' = f w) :
      ∃ r events, s.exec m w = some (r, w.noting events) ∧ s.exec m w' = some (r, w'.noting events) :=
    ⟨f w, [], by rw [hs, World.noting_nil], by rw [hs, hf, World.noting_nil]⟩
  cases s with
  | list p =>
    obtain rfl : p = _ := h
    exact hsame (fun _ => rfl) hw.list
  | stat p follow =>
    obtain ⟨rfl, rfl | ⟨name, rfl⟩⟩ := h
    · exact hsame (fun _ => rfl) hw.directory
    · exact hsame (fun _ => rfl) (hw.stat name)
  | read p =>
    obtain ⟨name, rfl⟩ := h
    exact hsame (fun _ => rfl) (hw.read name)
  | emit event => exact ⟨(), [event], rfl, rfl⟩
  | _ => exact h.elim

/-- The rules for a program that looks at the entry of `id`, where others leave alone what can be
seen of that. -/
def Rules.undisturbed (m : Machine) (c : Cache) (id : ModelIdentity) : Rules where
  act := Step.answers m
  rely x y := x.world.SameEntry c id y.world
  keep _ _ := True
  refl _ := .refl
  trans := .trans

theorem undisturbed_answers {p : Program α} {a : α} {x : Moment}
    (h : p.Only (fun _ _ => True) (Step.LooksAt c id) fun _ => True)
    (hr : p.run m w = some (a, w')) (hx : w.SameEntry c id x.world) :
    (Rules.undisturbed m c id).Safe (fun b _ => b = a) p x := by
  induction p generalizing w x with
  | done b => exact Rules.Safe.done_iff.2 fun y _ => (Prod.mk.inj (Option.some.inj hr)).1
  | step s next ih =>
    rw [Rules.Safe.step_iff]
    intro y hy r w₁ hact
    have hsame := hx.trans hy
    obtain ⟨r', events, hw, hyw⟩ := h.1.exec (m := m) hsame
    obtain ⟨rfl, rfl⟩ := Prod.mk.inj (Option.some.inj (hyw.symm.trans hact))
    rw [Program.run, hw] at hr
    exact ⟨trivial, ih _ (h.2 _ trivial) hr ⟨hsame.list, hsame.directory, hsame.stat, hsame.read⟩⟩

/-- As long as others leave alone what can be seen of an entry, a look finds that it can be used
just if it can, and the texts are those of this one entry. -/
theorem Engine.cached_undisturbed (x : Moment) : (Rules.undisturbed m e.cache id).Safe
    (fun o _ => ∀ c, o = some c ↔ x.world.Hit e.cache id c.diagnostics c.warnings ∧ c.cached = true)
    (e.cached id source) x := by
  obtain ⟨o, ⟨events, hrun⟩, ho⟩ := e.cached_notes (m := m) id source x.world
  exact (undisturbed_answers (cached_only fun _ h => h) hrun .refl).weaken fun b _ hb => hb ▸ ho

def World.published : World :=
  { World.initial ⟨[(["c"], .directory), (["c", ModelIdentity.modelNamespace], .directory),
      (["c", ModelIdentity.modelNamespace, "m"], .directory),
      (["c", ModelIdentity.modelNamespace, "m", "stanbind_model_m_1.so"], .file 0 ⟨[1], 0⟩ true),
      (["c", ModelIdentity.modelNamespace, "m", Cache.buildOutputFile],
        .file 1 ⟨Text.encode "built", 0⟩ false),
      (["c", ModelIdentity.modelNamespace, "m", Cache.warningsFile],
        .file 2 ⟨Text.encode "warned", 0⟩ false),
      (["c", ModelIdentity.modelNamespace, "m", Cache.manifestFile],
        .file 3 ⟨Text.encode { Manifest.small with abi := 1 }.text, 0⟩ false)], 4⟩
      ⟨[], Site.path [], none, 1⟩ 0 with registries := [.empty] }

def Call.compileAndDelete : Bool → Call
  | false => .compile .small .small ""
  | true => .delete .small .small

def Scene.called : Scene Bool Call.Result :=
  ⟨World.published.files, [], fun _ => .published, fun i => if i then 1 else 0,
    fun i => (Call.compileAndDelete i).program, [], []⟩

/-- That an entry can be used does not mean that the texts are those which were stored together: the
caller that compiles has read the build output when the other removes the entry. -/
theorem Scene.texts_of_no_entry : ¬∀ S : Scene Bool Call.Result, called.Reaches .idle S →
    ∀ c, S.program false = .done (.compiled (.ok c)) → c.cached = true →
      c.diagnostics = "built" ∧ c.warnings = "warned" := by
  intro hall
  obtain ⟨S, hS, h⟩ := exists_of_play (m := .idle) (S := called)
    (List.replicate 4 false ++ List.replicate 8 true ++ List.replicate 3 false)
    (fun S => ((S.program false).ended?.bind Call.Result.compiled?).any fun c =>
      c.cached && c.warnings == "") (by decide +kernel)
  obtain ⟨c, hc, hcached⟩ := (Option.any_eq_true _ _).mp h
  obtain ⟨r, hr, hrc⟩ := Option.bind_eq_some_iff.mp hc
  rw [Program.ended?_eq_some] at hr
  rw [Call.Result.compiled?_eq_some] at hrc
  simp only [Bool.and_eq_true, beq_iff_eq] at hcached
  exact absurd (hcached.2.symm.trans (hall S hS c (hrc ▸ hr) hcached.1).2) (by decide)

end CompiledModels
