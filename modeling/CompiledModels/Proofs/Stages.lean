import CompiledModels.Proofs.Hit
import CompiledModels.Proofs.Rebuilding
import CompiledModels.Proofs.Working

/-!
The stages of a compile while nothing else runs: what each does to the world, whether or not it
fails.
-/

namespace CompiledModels

open Files Program

variable {α : Type} {act : Answers} {m : Machine} {E : Estate} {env : Environment} {e : Engine}
  {c : Cache} {tools : Invocation → Prop} {id : ModelIdentity} {source : String} {x y z : Moment}
  {w w' : World} {d : String}

def Unmoving (x y : Moment) : Prop := ∃ taken, y.past = taken ++ x.past ∧ ∀ t ∈ taken, ¬t.Moves

theorem Unmoving.refl (x : Moment) : Unmoving x x := ⟨[], rfl, by simp⟩

theorem Unmoving.trans (h : Unmoving x y) (h' : Unmoving y z) : Unmoving x z := by
  obtain ⟨ts, ht, hn⟩ := h
  obtain ⟨ts', ht', hn'⟩ := h'
  refine ⟨ts' ++ ts, by rw [ht', ht, List.append_assoc], fun t h => ?_⟩
  exact (List.mem_append.mp h).elim (hn' t) (hn t)

theorem Unmoving.step {t : Taken} (h : y.past = t :: x.past) (ht : ¬t.Moves) : Unmoving x y :=
  ⟨[t], h, by simpa using ht⟩

theorem Unmoving.arrived {p : Path} (h : Unmoving x y) (hx : ¬Arrived p x.past) :
    ¬Arrived p y.past := by
  rintro ⟨a, ha⟩
  obtain ⟨taken, ht, hm⟩ := h
  rcases List.mem_append.mp (ht ▸ ha) with ha | ha
  · exact hm _ ha ⟨a, p, rfl⟩
  · exact hx ⟨a, ha⟩

structure Looks (x y : Moment) : Prop where
  world : ∃ events, y.world = x.world.noting events
  past : Unmoving x y

theorem Looks.trans (h : Looks x y) (h' : Looks y z) : Looks x z := by
  obtain ⟨⟨events, hy⟩, hp⟩ := h
  obtain ⟨⟨events', hz⟩, hp'⟩ := h'
  exact ⟨⟨events ++ events', by rw [hz, hy, World.noting_noting]⟩, hp.trans hp'⟩

theorem Step.not_moves_of_prompt {s : Step} {r : s.Reply} (hs : s.isPrompt = true) :
    ¬(Taken.mk s r).Moves := by
  rintro ⟨a, b, he⟩
  cases congrArg Taken.step he
  simp [Step.isPrompt] at hs

theorem Step.kept_of_prompt {s : Step} {r : s.Reply} (hs : s.isPrompt = true)
    (h : s.faulty m w r w') : w'.files = w.files ∧ w'.environment = w.environment := by
  cases s with
  | stat p follow => simp [(faulty.stat h).1]
  | list p => simp [(faulty.list h).1]
  | read p => simp [(reads_of_faulty h).1]
  | drawSuffix =>
    obtain ⟨-, seed, rfl⟩ := faulty.drawSuffix h
    exact ⟨rfl, rfl⟩
  | environment => simp [(faulty.environment h).2]
  | emit event => simp [faulty.emit h]
  | _ => simp [isPrompt] at hs

theorem Step.LooksAt.looks {s : Step} {r : s.Reply} (hs : s.LooksAt c id)
    (h : s.flawed m x.world r w) : Looks x (x.after s r w) := by
  refine ⟨?_, .step rfl (not_moves_of_prompt hs.isPrompt)⟩
  cases s with
  | stat p follow => exact ⟨[], by simp [(faulty.stat (faulty_of_flawed h (by simp) (by simp))).1]⟩
  | list p => exact ⟨[], by simp [(faulty.list (faulty_of_flawed h (by simp) (by simp))).1]⟩
  | read p => exact ⟨[], by simp [(reads_of_faulty (faulty_of_flawed h (by simp) (by simp))).1]⟩
  | emit event => exact ⟨[event], faulty.emit (faulty_of_flawed h (by simp) (by simp))⟩
  | _ => exact hs.elim

section Stages

variable (hact : ∀ w s r w', act w s r w' → Step.flawed m w s r w')
include hact

theorem cached_looks {o : Option Compiled} (h : (e.cached id source).Ends act x o y) : Looks x y := by
  have honly : (e.cached id source).Only (fun _ _ => True) (Step.LooksAt e.cache id) fun _ => True :=
    cached_only fun _ hs => hs
  obtain ⟨-, h⟩ := Program.Only.ends (J := fun _ => True) honly h trivial
    fun _ _ _ _ _ _ _ => ⟨trivial, trivial⟩
  exact Program.Steps.related (K := Looks) (fun x => ⟨⟨[], by simp⟩, .refl x⟩) .trans
    (fun x s r w h => h.2.2.looks (hact _ _ _ _ h.1)) h

end Stages

inductive Sighted (act : Answers) (p : Path) (y : Moment) : Prop
  | made (z : Moment) (w : World) (h : act z.world (.makeDirectory p) (.ok ()) w)
      (hy : y = z.after (.makeDirectory p) (.ok ()) w)
  | found (z : Moment) (w : World) (h : act z.world (.stat p true) (.ok .directory) w)
      (hy : y = z.after (.stat p true) (.ok .directory) w)

section Making

variable {p : Path}

theorem kept_sighted {err : FileError} (h : (do
    if ← isDirectory p then return .ok () else return .error err :
      Program (Except FileError Unit)).Ends act x (.ok ()) y) : Sighted act p y := by
  obtain ⟨b, z, hb', hb⟩ := Ends.bind_iff.mp h
  obtain ⟨r, u, hr', hr⟩ := Ends.bind_iff.mp hb'
  obtain ⟨w, hw, rfl⟩ := Ends.perform_iff.mp hr'
  have hdir : r = .ok .directory ∧ z = x.after (.stat p true) r w ∧ y = z := by
    cases r with
    | error e =>
      obtain ⟨rfl, -⟩ := Ends.pure_iff.mp hr
      simpa using (Ends.pure_iff.mp hb).1
    | ok n =>
      obtain ⟨rfl, rfl⟩ := Ends.pure_iff.mp hr
      cases n with
      | directory => exact ⟨rfl, rfl, (Ends.pure_iff.mp hb).2⟩
      | _ => simpa using (Ends.pure_iff.mp hb).1
  obtain ⟨rfl, rfl, rfl⟩ := hdir
  exact .found x w hw rfl

theorem makeOrKeep_sighted (h : (makeOrKeep p).Ends act x (.ok ()) y) : Sighted act p y := by
  obtain ⟨r, z, hr', hr⟩ := Ends.bind_iff.mp h
  obtain ⟨w, hw, rfl⟩ := Ends.perform_iff.mp hr'
  cases r with
  | ok _ =>
    obtain ⟨-, rfl⟩ := Ends.pure_iff.mp hr
    exact .made x w hw rfl
  | error e => exact kept_sighted hr

theorem createUpTo_sighted (hp : p.tail ≠ []) (n : Nat)
    (h : (createUpTo n p).Ends act x (.ok ()) y) : Sighted act p y := by
  cases n with
  | zero => exact makeOrKeep_sighted h
  | succ n =>
    rw [createUpTo, if_neg (by simp [hp])] at h
    obtain ⟨r, z, hr', hr⟩ := Ends.bind_iff.mp h
    obtain ⟨w, hw, rfl⟩ := Ends.perform_iff.mp hr'
    cases r with
    | ok _ =>
      obtain ⟨-, rfl⟩ := Ends.pure_iff.mp hr
      exact .made x w hw rfl
    | error err =>
      simp only at hr
      split at hr
      · split at hr
        · simpa using (Ends.pure_iff.mp hr).1
        · obtain ⟨r, u, -, hr⟩ := Ends.bind_iff.mp hr
          cases r with
          | error e => simpa using (Ends.pure_iff.mp hr).1
          | ok _ => exact makeOrKeep_sighted hr
      · exact kept_sighted hr

end Making

structure Makes (l : Location) (x y : Moment) : Prop where
  changes : Changes (· = l) x y
  added : y.files.get? l = x.files.get? l ∨ x.files.get? l = none ∧ y.files.get? l = some .directory
  past : Unmoving x y

theorem Makes.refl (l : Location) (x : Moment) : Makes l x x :=
  ⟨⟨fun _ _ => rfl, id, rfl⟩, .inl rfl, .refl x⟩

theorem Makes.trans {l : Location} (h : Makes l x y) (h' : Makes l y z) : Makes l x z := by
  refine ⟨⟨fun k hk => (h'.changes.files k hk).trans (h.changes.files k hk),
    fun hw => h'.changes.wellFormed (h.changes.wellFormed hw),
    h'.changes.environment.trans h.changes.environment⟩, ?_, h.past.trans h'.past⟩
  rcases h.added with ha | ⟨hn, hd⟩
  · rw [← ha]
    exact h'.added
  · rcases h'.added with ha | ⟨hn', -⟩
    · exact .inr ⟨hn, ha.trans hd⟩
    · rw [hd] at hn'
      simp at hn'

theorem Makes.of_eq {l : Location} {s : Step} {r : s.Reply} (hn : ¬(Taken.mk s r).Moves)
    (hf : w.files = x.files) (he : w.environment = x.world.environment) :
    Makes l x (x.after s r w) :=
  ⟨⟨fun _ _ => by rw [Moment.files, Moment.after_world, hf], fun hw => by
    rwa [Moment.files, Moment.after_world, hf], he⟩, .inl (by rw [Moment.files, Moment.after_world, hf]),
    .step rfl hn⟩

section Stages

variable (hact : ∀ w s r w', act w s r w' → Step.flawed m w s r w') (hm : E.Orderly m tools)
include hact hm

theorem createAll_makes (hS : E.cache.Serves env c.root) (hd : IsPlain d)
    {r : Except FileError Unit} (h : (createAll (c.root.join d)).Ends act x r y)
    (hx : E.Calm x.world) (he : x.world.environment = env) :
    Makes (E.cache.root ++ [d]) x y ∧
      (r = .ok () → y.files.get? (E.cache.root ++ [d]) = some .directory) := by
  have hR : Workplace (.working act E env tools fun _ _ => True) E m env tools :=
    Workplace.working hact hm
  have hcreate : Behaves E env tools (fun _ => True) (createAll (c.root.join d)) :=
    createAll_behaves hS hd
  have hbehaves := hcreate.ends hact hm h hx he
  have hends := hbehaves.2 fun _ _ => True
  have hspells : E.Spells env.location (c.root.join d) (E.cache.root ++ [d]) :=
    .cache hS.leads (by simp) (by simpa using hd)
  have hunlinked (t : Tree) : t.Unlinked false E.cache.root [d] := Tree.unlinked_singleton (by simp)
  have honly : (createAll (c.root.join d)).Only (Step.Credible env) (fun s => s.isPrompt = true ∨
      ∃ q, Above (c.root.join d) q ∧ s = .makeDirectory q) fun _ => True :=
    createUpTo_only (fun s hs => .inl hs) _ fun q hq => .inr ⟨q, hq, rfl⟩
  constructor
  · obtain ⟨-, hsteps⟩ := Program.Only.ends (J := fun _ => True)
      honly hends trivial fun w s r w' _ _ hr => ⟨hR.credible hr, trivial⟩
    refine Program.Steps.related (K := Makes (E.cache.root ++ [d])) (.refl _) .trans
      (fun x s r w hr => ?_) hsteps
    obtain ⟨hr, -, hP⟩ := hr
    obtain ⟨hcalm, rfl, -⟩ := hR.calm hr
    rcases hP with hP | ⟨q, hq, rfl⟩
    · obtain ⟨hf, he⟩ := Step.kept_of_prompt hP (hR.act hr)
      exact .of_eq (Step.not_moves_of_prompt hP) hf he
    · have hn : ¬(Taken.mk (.makeDirectory q) r).Moves := by
        rintro ⟨a, b, he⟩
        cases congrArg Taken.step he
      rcases Step.faulty.makeDirectory (hR.act hr) with ⟨err, -, rfl⟩ | ⟨rfl, t, ht, rfl⟩
      · exact .of_eq hn rfl rfl
      · rcases above_join hq with rfl | hq
        · obtain ⟨hnone, hw, -, hget⟩ := Tree.makeDirectory_joins (hS.leads _ hcalm.sound.cache)
            hcalm.sound.cache.wellFormed (List.cons_ne_nil d []) (by simpa using hd) (hunlinked _) ht
          refine ⟨⟨fun k hk => (hget k).trans (if_neg hk), fun _ => hw, rfl⟩,
            .inr ⟨hnone, (hget _).trans (if_pos rfl)⟩, .step rfl hn⟩
        · obtain ⟨l, hl, hg, -⟩ := Tree.makeDirectory_eq_ok.mp ht
          exact absurd hg (hS.held q hq _ hcalm.sound.cache l hl)
  · rintro rfl
    rcases createUpTo_sighted (by simp [Path.join]) _ hends with ⟨z, w, hr, rfl⟩ | ⟨z, w, hr, rfl⟩
    · obtain ⟨hcalm, rfl, -⟩ := hR.calm hr
      rcases Step.faulty.makeDirectory (hR.act hr) with ⟨err, herr, -⟩ | ⟨-, t, ht, rfl⟩
      · simp at herr
      · obtain ⟨-, -, -, hget⟩ := Tree.makeDirectory_joins (hS.leads _ hcalm.sound.cache)
          hcalm.sound.cache.wellFormed (List.cons_ne_nil d []) (by simpa using hd) (hunlinked _) ht
        exact (hget _).trans (if_pos rfl)
    · obtain ⟨hcalm, rfl, -⟩ := hR.calm hr
      obtain ⟨rfl, hstat⟩ := Step.faulty.stat (hR.act hr)
      obtain ⟨l, hl, hg⟩ := Tree.stat_eq_ok.mp (hstat _ rfl)
      obtain ⟨rfl, -⟩ := hspells.resolve hcalm.sound hl
      exact hg

end Stages

end CompiledModels
