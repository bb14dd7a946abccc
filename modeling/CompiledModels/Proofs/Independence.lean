import CompiledModels.Proofs.Chores
import CompiledModels.Proofs.Publication
import CompiledModels.Proofs.Scene

/-!
Callers that work on different models of one cache: what each of them is told, and what becomes of
its entry, is what it would be without the others.
-/

namespace CompiledModels

open Files Program

variable {ι ρ : Type}

def Site.lock (S : Site) (id : ModelIdentity) : Location := S.root ++ [".locks", id.name ++ ".lock"]

/-- The places in a cache that belong to one model. -/
inductive Site.Place (S : Site) (id : ModelIdentity) : Location → Prop
  | entry (rest : List String) : Place S id (S.root ++ ModelIdentity.modelNamespace :: id.name :: rest)
  | lock : Place S id (S.lock id)
  | temporary {n : String} (hn : id.Temporary n) (rest : List String) : Place S id (S.root ++ ".staging" :: n :: rest)

/-- Different models have different entries, locks and temporary directories. -/
theorem Site.Place.unique {S : Site} {a b : ModelIdentity} {l : Location} (h : S.Place a l) (h' : S.Place b l) :
    a = b := by
  suffices hall : ∀ l l', S.Place a l → S.Place b l' → l = l' → a = b from hall l l h h' rfl
  intro l l' h h' he
  cases h with
  | entry rest =>
    cases h' with
    | entry rest' =>
      simp only [List.append_cancel_left_eq, List.cons.injEq, true_and] at he
      exact ModelIdentity.eq_of_name he.1
    | lock => simp [Site.lock, ModelIdentity.modelNamespace] at he
    | temporary hn rest' => simp [ModelIdentity.modelNamespace] at he
  | lock =>
    cases h' with
    | entry rest' => simp [Site.lock, ModelIdentity.modelNamespace] at he
    | lock =>
      simp only [Site.lock, List.append_cancel_left_eq, List.cons.injEq, String.append_left_inj, and_true,
        true_and] at he
      exact ModelIdentity.eq_of_name he
    | temporary hn rest' => simp [Site.lock] at he
  | temporary hn rest =>
    cases h' with
    | entry rest' => simp [ModelIdentity.modelNamespace] at he
    | lock => simp [Site.lock] at he
    | temporary hn' rest' =>
      simp only [List.append_cancel_left_eq, List.cons.injEq, true_and] at he
      exact hn.unique (he.1 ▸ hn')

theorem Site.Place.below {S : Site} {id : ModelIdentity} {l : Location} (h : S.Place id l) :
    ∃ below : List String, 1 < below.length ∧ l = S.root ++ below := by
  cases h with
  | entry rest => exact ⟨_, by simp, rfl⟩
  | lock => exact ⟨_, by simp, rfl⟩
  | temporary hn rest => exact ⟨_, by simp, rfl⟩

theorem Site.Place.append {S : Site} {id : ModelIdentity} {l : Location} (h : S.Place id l) (hne : l ≠ S.lock id)
    (more : List String) : S.Place id (l ++ more) ∧ l ++ more ≠ S.lock id := by
  cases h with
  | entry rest =>
    rw [List.append_assoc]
    exact ⟨.entry (rest ++ more), by simp [Site.lock, ModelIdentity.modelNamespace]⟩
  | lock => exact absurd rfl hne
  | temporary hn rest =>
    rw [List.append_assoc]
    exact ⟨.temporary hn (rest ++ more), by simp [Site.lock]⟩

/-- Directories outside of a cache, and the modules there that callers have, each its own. -/
structure Sources (ι : Type) (S : Site) where
  desk : Nat → Site
  own : ι → Nat → String → Prop
  apart : ∀ {i j k k' s s'}, own i k s → own j k' s' → (desk k).root ++ [s] <+: (desk k').root ++ [s'] → i = j
  away : ∀ {i k s}, own i k s → S.Apart ((desk k).root ++ [s] <+: ·) ∧
    ∀ k', (desk k').Apart ((desk k).root ++ [s] <+: ·)
  outside : ∀ {i k s}, own i k s → ¬S.root <+: (desk k).root ++ [s]
  level : ∀ k, (desk k).Apart fun l => ∃ rest, rest ≠ [] ∧ l = S.root ++ rest

namespace Sources

variable {S : Site} (H : Sources ι S) (id : ι → ModelIdentity) {i j : ι} {k : Nat} {s : String} {l : Location}

/-- The modules of caller `i`, and what lies below. -/
def Module (i : ι) (l : Location) : Prop := ∃ k s rest, H.own i k s ∧ l = (H.desk k).root ++ s :: rest

variable {H}

theorem Module.ne_below (h : H.Module i l) (below : List String) : l ≠ S.root ++ below := by
  obtain ⟨k, s, rest, hs, rfl⟩ := h
  intro he
  have hmodule : (H.desk k).root ++ [s] <+: (H.desk k).root ++ s :: rest := ⟨rest, by simp⟩
  rcases List.prefix_or_prefix_of_prefix hmodule (he ▸ List.prefix_append S.root below) with h | h
  · exact (H.away hs).1.1 h
  · exact H.outside hs h

theorem Module.unique (h : H.Module i l) (h' : H.Module j l) : i = j := by
  obtain ⟨k, s, rest, hs, rfl⟩ := h
  obtain ⟨k', s', rest', hs', he⟩ := h'
  have hmodule : (H.desk k).root ++ [s] <+: (H.desk k).root ++ s :: rest := ⟨rest, by simp⟩
  have hmodule' : (H.desk k').root ++ [s'] <+: (H.desk k).root ++ s :: rest := ⟨rest', by simp [he]⟩
  rcases List.prefix_or_prefix_of_prefix hmodule hmodule' with h | h
  · exact H.apart hs hs' h
  · exact (H.apart hs' hs h).symm

theorem apart_module {Z : Site} (hz : ∀ {i k s}, H.own i k s → Z.Apart ((H.desk k).root ++ [s] <+: ·)) :
    Z.Apart (H.Module i) := by
  have hout (l : Location) (hl : ∀ {i k s}, H.own i k s → ¬(H.desk k).root ++ [s] <+: l) : ¬H.Module i l := by
    rintro ⟨k, s, rest, hs, rfl⟩
    exact hl hs ⟨rest, by simp⟩
  exact ⟨hout _ fun hs => (hz hs).1, fun e he => hout _ fun hs => (hz hs).2 e he⟩

variable (H)

theorem module_or_place {id : ModelIdentity}
    (h : (S.Place id l ∧ l ≠ S.lock id ∨ H.Module i l) ∨ l = S.lock id) : S.Place id l ∨ H.Module i l := by
  rcases h with (⟨hl, -⟩ | hl) | rfl
  · exact .inl hl
  · exact .inr hl
  · exact .inl .lock

/-- What callers with different models work on, and their locks. -/
def plots (id : ι → ModelIdentity) (hid : Function.Injective id) : Plots ι where
  cache := S
  sources := H.desk
  shared l := ∃ d ∈ [ModelIdentity.modelNamespace, ".staging", ".locks"], l = S.root ++ [d]
  plot i l := S.Place (id i) l ∧ l ≠ S.lock (id i) ∨ H.Module i l
  lock i := S.lock (id i)
  closed := by
    rintro i l (⟨hl, hne⟩ | ⟨k, s, below, hs, rfl⟩) rest
    · exact .inl (hl.append hne rest)
    · exact .inr ⟨k, s, below ++ rest, hs, by simp⟩
  apart := by
    intro i j l hi hj
    rcases H.module_or_place hi with hi | hi <;> rcases H.module_or_place hj with hj | hj
    · exact hid (hi.unique hj)
    · obtain ⟨below, -, rfl⟩ := hi.below
      exact absurd rfl (hj.ne_below below)
    · obtain ⟨below, -, rfl⟩ := hj.below
      exact absurd rfl (hi.ne_below below)
    · exact hi.unique hj
  unlocked := by
    rintro i (⟨-, hne⟩ | hl)
    · exact hne rfl
    · exact hl.ne_below _ rfl
  common := by
    rintro i l hl ⟨d, -, rfl⟩
    rcases H.module_or_place hl with hl | hl
    · obtain ⟨below, hlen, he⟩ := hl.below
      rw [← List.append_cancel_left he] at hlen
      exact absurd hlen (by simp)
    · exact hl.ne_below _ rfl
  away := by
    intro i
    have hz (Z : Site) (hp : Z.Apart (S.Place (id i))) (hm : Z.Apart (H.Module i)) :
        Z.Apart fun l => (S.Place (id i) l ∧ l ≠ S.lock (id i) ∨ H.Module i l) ∨ l = S.lock (id i) :=
      (hp.or hm).mono fun _ => H.module_or_place
    have hplace (l : Location) (hl : S.Place (id i) l) : ∃ rest, rest ≠ [] ∧ l = S.root ++ rest := by
      obtain ⟨below, hlen, he⟩ := hl.below
      exact ⟨below, List.ne_nil_of_length_pos (Nat.lt_of_succ_lt hlen), he⟩
    exact ⟨hz S (Site.apart_below hplace) (apart_module fun hs => (H.away hs).1),
      fun k => hz (H.desk k) ((H.level k).mono hplace) (apart_module fun hs => (H.away hs).2 k)⟩
  level := by
    have hbelow (l : Location) (hl : ∃ d ∈ [ModelIdentity.modelNamespace, ".staging", ".locks"],
        l = S.root ++ [d]) : ∃ rest, rest ≠ [] ∧ l = S.root ++ rest := by
      obtain ⟨d, -, rfl⟩ := hl
      exact ⟨[d], by simp, rfl⟩
    exact ⟨Site.apart_below hbelow, fun k => (H.level k).mono hbelow⟩

section Chores

variable {H} {env : Environment} {c : Cache} {id : ι → ModelIdentity} {hid : Function.Injective id}

theorem houses (hserves : S.Serves env c.root) : (H.plots id hid).Houses i env c (id i) where
  serves := hserves
  models := ⟨_, by simp, rfl⟩
  staging := ⟨_, by simp, rfl⟩
  locks := ⟨_, by simp, rfl⟩
  entry := .inl ⟨.entry [], by simp [plots, Site.lock, ModelIdentity.modelNamespace]⟩
  temporary _ hn := .inl ⟨.temporary hn [], by simp [plots, Site.lock]⟩
  lockFile := rfl

/-- A module that is to be stored is one of the caller's own. -/
def Offers (H : Sources ι S) (i : ι) (env : Environment) : Chore → Prop
  | .store module .. => ∃ k s q, H.own i k s ∧ IsPlain s ∧ (H.desk k).Leads env.location q ∧ module = q.join s
  | _ => True

theorem Offers.holds {chore : Chore} (h : H.Offers i env chore) (hname : chore = .delete → IsProper (id i).name) :
    Plots.Houses.Holds (H.plots id hid) i env (id i) chore := by
  cases chore with
  | store module buildOutput warnings manifest =>
    obtain ⟨k, s, q, hown, hs, hq, rfl⟩ := h
    refine ⟨⟨Tree.demandsDirectory_joins (by simp), fun ns w w' hx follow => ?_⟩, fun n hn => ?_⟩
    · refine hx.files.meets_joins (hx.files.kempt.sources k) (hx.files.kempt'.sources k) hq (by simp)
        (by simpa using hs) (.inr ⟨k, s, [], hown, rfl⟩) fun pre hne hpre hnot => ?_
      rcases List.prefix_concat_iff.mp (show pre <+: [] ++ [s] from hpre) with rfl | hnil
      · exact absurd rfl hnot
      · exact absurd (List.prefix_nil.mp hnil) hne
    · obtain rfl : s = n := by simpa [Path.fileName?, Path.components, Path.join] using hn
      exact hs
  | delete => exact hname rfl
  | _ => trivial

end Chores

end Sources

def Chore.Answer.isUnremoved : Chore.Answer → Bool
  | .deleted (.error _) => true
  | _ => false

/-- A name that no file can have. -/
def ModelIdentity.endless : ModelIdentity :=
  ⟨String.ofList (List.replicate 256 'a'), by
    refine ⟨fun h => ?_, ?_⟩
    · have hnil := congrArg String.toList h
      rw [String.toList_ofList, List.replicate_succ] at hnil
      exact List.cons_ne_nil _ _ hnil
    · rw [String.toList_ofList, List.all_replicate]
      rfl⟩

namespace Scene

variable {ρ : Type} [DecidableEq ι] {m : Machine} {who : ι → Prop} {S S' T : Scene ι ρ} {i j : ι}

/-- A move of the callers in `who` only: one of them takes a step, or something comes to a process from
elsewhere. -/
inductive Goes (m : Machine) (who : ι → Prop) (S : Scene ι ρ) : Scene ι ρ → Prop
  | step {i : ι} {s : Step} {next : s.Reply → Program ρ} {r : s.Reply} {w : World} (hi : who i)
      (hp : S.program i = .step s next) (hr : s.exec m (S.world (S.process i)) = some (r, w)) :
      Goes m who S (S.after i ⟨s, r⟩ (next r) w)
  | aside (p t seed number : Nat) : Goes m who S (S.put p ((S.world p).aside t seed number))

abbrev Proceeds (m : Machine) (who : ι → Prop) (S S' : Scene ι ρ) : Prop :=
  Relation.ReflTransGen (Goes m who) S S'

theorem proceeds_of_strolls {p q : Program ρ} {w w' : World} (h : Strolls m p w q w') (hp : S.program i = p)
    (hw : S.world (S.process i) = w) : ∃ T, S.Proceeds m (· = i) T ∧ T.program i = q ∧
      T.world (S.process i) = w' ∧ T.process = S.process := by
  induction h generalizing S with
  | refl p w => exact ⟨S, .refl, hp, hw, rfl⟩
  | @step s next r w v w' q hr _ ih =>
    subst hw
    obtain ⟨T, hT, hq, hw', hprocess⟩ := ih (S := S.after i ⟨s, r⟩ (next r) v) (by simp)
      (after_world_eq S _ _ v rfl)
    exact ⟨T, .head (.step rfl hp hr) hT, hq, hw', hprocess⟩
  | @aside p q w w' t seed number _ ih =>
    subst hw
    obtain ⟨T, hT, hq, hw', hprocess⟩ :=
      ih (S := S.put (S.process i) ((S.world (S.process i)).aside t seed number)) hp (put_world_self _ _ _)
    exact ⟨T, .head (.aside _ t seed number) hT, hq, hw', hprocess⟩

section Twins

variable {P : Plots ι} {post : ι → ρ → World → World → Prop}

omit [DecidableEq ι] in
theorem leaves_put {p : Nat} {w : World} (h : P.Leaves i (S.world p) w) (q : Nat) :
    P.Leaves i (S.world q) ((S.put p w).world q) := by
  by_cases hq : q = p
  · subst hq
    rwa [put_world_self]
  · rw [put_world_ne S w hq]
    exact ⟨h.files, rfl, fun hc => hc, Nat.le_refl _, h.locked, h.fresh⟩

omit [DecidableEq ι] in
theorem children_put {p : Nat} {w : World} (h : ∀ q, (S.world q).children = []) (hw : w.children = []) (q : Nat) :
    ((S.put p w).world q).children = [] := by
  by_cases hq : q = p
  · subst hq
    rwa [put_world_self]
  · rw [put_world_ne S w hq]
    exact h q

/-- A run of one caller alone that has come as far as a run of all of them. -/
def Shadows (P : Plots ι) (m : Machine) (post : ι → ρ → World → World → Prop) (S S' : Scene ι ρ) (i : ι) :
    Prop :=
  ∃ T, S.Proceeds m (· = i) T ∧ T.process = S.process ∧
    P.Twin m i (post i) (S'.program i) (T.program i) (S'.world (S'.process i)) (T.world (T.process i))

theorem Shadows.later {w : World} {p : Nat} {S'' : Scene ι ρ} (h : Shadows P m post S S' i)
    (hp : S''.program i = S'.program i) (hprocess : S''.process = S'.process)
    (hworld : ∀ q, S''.world q = (S'.put p w).world q) (hw : P.Leaves i (S'.world p) w) :
    Shadows P m post S S'' i := by
  obtain ⟨T, hT, hsame, htwin⟩ := h
  refine ⟨T, hT, hsame, ?_⟩
  rw [hp, hprocess, hworld]
  exact htwin.later (leaves_put hw _)

/-- Whatever happens in a scene, each caller could have come as far alone. -/
theorem shadows_of_proceeds (hc : ∀ p, (S.world p).children = [])
    (h : ∀ i, P.Twin m i (post i) (S.program i) (S.program i) (S.world (S.process i)) (S.world (S.process i)))
    (hrun : S.Proceeds m who S') : S'.process = S.process ∧ (∀ p, (S'.world p).children = []) ∧
      ∀ i, Shadows P m post S S' i := by
  induction hrun with
  | refl => exact ⟨rfl, hc, fun i => ⟨S, .refl, rfl, h i⟩⟩
  | @tail S' S'' _ hmove ih =>
    obtain ⟨hprocess, hchildren, hshadows⟩ := ih
    cases hmove with
    | aside p t seed number =>
      have hbare := hchildren p
      refine ⟨hprocess, children_put hchildren (by rw [World.aside_bare hbare]; exact hbare), fun i => ?_⟩
      exact (hshadows i).later rfl rfl (fun _ => rfl) (Plots.aside_leaves _ hbare t seed number)
    | @step j s next r w _ hp hr =>
      obtain ⟨T, hT, hsame, htwin⟩ := hshadows j
      rw [hp] at htwin
      obtain ⟨hmild, q', v', hstrolls, hnext⟩ := Plots.Twin.step_iff.mp htwin _ (.refl _) r w hr
      refine ⟨hprocess, children_put hchildren (hmild.children (hchildren _)), fun i => ?_⟩
      by_cases hij : i = j
      · subst hij
        obtain ⟨T', hT', hq', hw', hsame'⟩ := proceeds_of_strolls hstrolls rfl rfl
        refine ⟨T', hT.trans hT', hsame'.trans hsame, ?_⟩
        rw [after_program_self, hq', hsame', hw']
        have hworld : (S'.after i ⟨s, r⟩ (next r) w).world ((S'.after i ⟨s, r⟩ (next r) w).process i) = w :=
          after_world_eq S' _ _ w rfl
        rwa [hworld]
      · exact (hshadows i).later (after_program_ne S' _ _ w hij) rfl (fun _ => rfl) (hmild.others i hij)

end Twins

/-- Callers that are about to work on models of a cache, in a file tree that is in order. -/
structure Starts {Z : Site} (S : Scene ι (List Chore.Answer)) (H : Sources ι Z) (c : Cache)
    (id : ι → ModelIdentity) (hid : Function.Injective id) (chores : ι → List Chore) : Prop where
  opens : S.Opens fun i => Chore.all c (id i) [] (chores i)
  kempt : (H.plots id hid).Kempt S.files
  children : ∀ p, (S.worlds p).children = []
  serves : ∀ i, Z.Serves (S.worlds (S.process i)).environment c.root
  offers : ∀ i, ∀ chore ∈ chores i, H.Offers i (S.worlds (S.process i)).environment chore

/-- Callers with different models do not interfere, if the names of those that are to be removed are
ones that files can have: each is told what it would be told alone, and leaves its entry as it would
alone. -/
theorem same_as_alone {Z : Site} {H : Sources ι Z} {c : Cache} {id : ι → ModelIdentity}
    {hid : Function.Injective id} {chores : ι → List Chore} {S S' : Scene ι (List Chore.Answer)}
    (hS : S.Starts H c id hid chores) (hproper : ∀ i, .delete ∈ chores i → IsProper (id i).name)
    (hrun : S.Proceeds m (fun _ => True) S') (i : ι) :
    (∃ T, S.Proceeds m (· = i) T ∧ ∀ answers, S'.program i = .done answers →
      T.program i = .done answers ∧ S'.files.Same T.files (Z.entry (id i))) ∧
    ∀ j ≠ i, ∀ l, Z.Place (id i) l → ¬Z.Place (id j) l := by
  refine ⟨?_, fun j hj l hi hl => hj (hid (hl.unique hi))⟩
  have hstart (i : ι) : (H.plots id hid).Twin m i
      (fun _ v v' => (H.plots id hid).At i (S.worlds (S.process i)).environment (fun _ => False) [] v v')
      (S.program i) (S.program i) (S.world (S.process i)) (S.world (S.process i)) := by
    rw [hS.opens.program i]
    refine (Sources.houses (hS.serves i)).all (fun chore hc => (hS.offers i chore hc).holds ?_) ?_
    · rintro rfl
      exact hproper i hc
    exact
      { files := .refl hS.kempt
        environment := rfl
        environment' := rfl
        children := hS.children _
        children' := hS.children _
        clock := Nat.le_refl _
        next := Nat.le_refl _
        locked := fun _ _ _ _ => Iff.rfl
        fresh := by simp [world, hS.opens.locked]
        fresh' := by simp [world, hS.opens.locked]
        known := fun _ hd => hd.elim
        held := by simp }
  obtain ⟨T, hT, -, htwin⟩ := (shadows_of_proceeds (fun p => hS.children p) hstart hrun).2.2 i
  refine ⟨T, hT, fun answers hdone => ?_⟩
  rw [hdone] at htwin
  obtain ⟨hprogram, hpost⟩ := Plots.Twin.done_iff.mp htwin
  have hat := hpost _ (.refl _)
  refine ⟨hprogram, fun rest => hat.files.get? (.inl (.inl ?_))⟩
  exact Site.Place.append (by rw [Site.entry]; exact .entry []) (by simp [Site.entry, Site.lock,
    ModelIdentity.modelNamespace]) rest

/-- An empty cache and two modules. -/
def pairFiles : Tree :=
  ⟨[(["c"], .directory), (["x"], .file 0 ⟨[1], 0⟩ true), (["y"], .file 1 ⟨[2], 0⟩ true)], 2⟩

theorem pairFiles_wellFormed : pairFiles.WellFormed := ⟨by decide, by decide, by decide, by decide⟩

theorem pairFiles_get? {l : Location} {n : Node} (h : pairFiles.get? l = some n) :
    n = .directory ∧ (l = [] ∨ l = ["c"]) ∨ n = .file 0 ⟨[1], 0⟩ true ∧ l = ["x"] ∨
      n = .file 1 ⟨[2], 0⟩ true ∧ l = ["y"] := by
  by_cases hne : l = []
  · subst hne
    exact .inl ⟨(Option.some.inj h).symm, .inl rfl⟩
  · have hmem := (pairFiles_wellFormed.get?_iff hne).mp h
    simp only [pairFiles, List.mem_cons, Prod.mk.injEq, List.not_mem_nil, or_false] at hmem
    rcases hmem with ⟨rfl, rfl⟩ | ⟨rfl, rfl⟩ | ⟨rfl, rfl⟩ <;> simp

/-- Two callers in two processes. -/
def pair (id : Bool → ModelIdentity) (chores : Bool → List Chore) : Scene Bool (List Chore.Answer) where
  files := pairFiles
  locked := []
  worlds _ := .initial .empty ⟨[], Site.path [], none, 1⟩ 0
  process b := if b then 1 else 0
  program b := Chore.all ⟨Site.path ["c"]⟩ (id b) [] (chores b)
  down := []
  history := []

theorem unpinned : ∀ e ∈ ([] : List (Location × Node)), ¬([] : Location) <+: e.1 := by simp

/-- The modules of the two callers lie beside the cache. -/
def pairSources : Sources Bool Site.top where
  desk _ := ⟨[], [], unpinned, Site.top.solid⟩
  own b _ s := s = if b then "y" else "x"
  apart := by
    rintro i j - - s s' rfl rfl h
    cases i <;> cases j <;> simp_all
  away := by
    rintro i - s rfl
    cases i <;> simp [Site.Apart, Site.top]
  outside := by
    rintro i - s rfl
    cases i <;> simp [Site.top]
  level _ := by simp [Site.Apart, Site.top]

theorem pair_starts {id : Bool → ModelIdentity} (hid : Function.Injective id) {chores : Bool → List Chore}
    (hoffers : ∀ b, ∀ chore ∈ chores b, pairSources.Offers b ⟨[], Site.path [], none, 1⟩ chore) :
    (pair id chores).Starts pairSources ⟨Site.path ["c"]⟩ id hid chores := by
  have hlink (l : Location) : pairFiles.NoLink l := fun target ht => by
    rcases pairFiles_get? ht with ⟨h, -⟩ | ⟨h, -⟩ | ⟨h, -⟩ <;> simp at h
  have hfile {l : Location} {number : Nat} {c : Content} {x : Bool}
      (h : pairFiles.get? l = some (.file number c x)) : number < 2 ∧ l = [if number = 0 then "x" else "y"] := by
    rcases pairFiles_get? h with ⟨hn, -⟩ | ⟨hn, rfl⟩ | ⟨hn, rfl⟩
    · exact nomatch hn
    · obtain ⟨rfl, -⟩ := Node.file.inj hn
      simp
    · obtain ⟨rfl, -⟩ := Node.file.inj hn
      simp
  refine ⟨⟨fun _ => rfl, rfl, rfl, rfl⟩, ?_, fun _ => rfl, fun _ => Site.serves_path Site.top _, hoffers⟩
  refine ⟨⟨pairFiles_wellFormed, rfl, by simp [Site.top, Sources.plots]⟩,
    fun _ => ⟨pairFiles_wellFormed, rfl, by simp [pairSources, Sources.plots]⟩, ?_, fun _ l _ => hlink l, ?_, ?_⟩
  · rintro l ⟨d, hd, rfl⟩
    refine .inl (Option.eq_none_iff_forall_ne_some.mpr fun n hn => ?_)
    rcases pairFiles_get? hn with ⟨-, h | h⟩ | ⟨-, h⟩ | ⟨-, h⟩ <;> simp [Site.top] at h
  · exact fun l number c x hl => (hfile hl).1
  · intro k k' number c c' x x' hk hk'
    rw [(hfile hk).2, (hfile hk').2]

theorem proceeds_of_play {order : List ι} (hw : ∀ i ∈ order, who i) (h : S.play m order = some S') :
    S.Proceeds m who S' := by
  induction order generalizing S with
  | nil =>
    obtain rfl := Option.some.inj h
    exact .refl
  | cons i order ih =>
    simp only [play] at h
    split at h
    case h_1 => simp at h
    case h_2 s next hp =>
      split at h
      case isTrue => simp at h
      case isFalse =>
        split at h
        case h_1 => simp at h
        case h_2 r w hr =>
          exact .head (.step (hw i (by simp)) hp hr) (ih (fun j hj => hw j (by simp [hj])) h)

section Missing

variable {P : Plots ι} {c : Cache} {id : ModelIdentity} {S S' : Scene ι (List Chore.Answer)}

/-- A caller that removes an entry, or has removed it, where there is no directory of models. -/
structure Vacant (P : Plots ι) (c : Cache) (id : ModelIdentity) (S : Scene ι (List Chore.Answer)) (i : ι) :
    Prop where
  kempt : P.Kempt S.files
  models : S.files.get? P.cache.models = none
  serves : P.cache.Serves (S.world (S.process i)).environment c.root
  children : ∀ p, (S.world p).children = []
  program : S.program i = Chore.all c id [] [.delete] ∨ S.program i = .done [.deleted (.ok ())]

omit [DecidableEq ι] in
theorem Vacant.stat (hshort : Tree.Short (c.entryDirectory id)) (h : S.Vacant P c id i) :
    S.files.stat (S.world (S.process i)).directory false (c.entryDirectory id) = .error (.os .noEntry) := by
  rw [Cache.entryDirectory_eq] at hshort ⊢
  exact Plots.stat_gone ((h.serves.leads _ h.kempt.cache).gone (by simp) hshort h.models fun _ =>
    Tree.resolveFrom_none ⟨by decide, by decide⟩ h.models)

theorem Vacant.goes (hshort : Tree.Short (c.entryDirectory id)) (h : S.Vacant P c id i)
    (hgo : S.Goes m (· = i) S') : S'.Vacant P c id i := by
  cases hgo with
  | aside p t seed number =>
    have hbare := h.children p
    have hmost : S.files.nextNumber ≤ max S.files.nextNumber number := Nat.le_max_left _ _
    rw [World.aside_bare hbare]
    refine ⟨h.kempt.skip hmost, h.models, ?_, children_put h.children hbare, h.program⟩
    by_cases hp : S.process i = p
    · subst hp
      rw [show (S.put (S.process i) _).process = S.process from rfl, put_world_self]
      exact h.serves
    · rw [show (S.put p _).process = S.process from rfl, put_world_ne S _ hp]
      exact h.serves
  | @step j s next r w hj hp hr =>
    subst hj
    rcases h.program with hprogram | hdone
    · obtain ⟨next', hbegins, hends⟩ : ∃ next', Chore.all c id [] [.delete] =
          .step (.stat (c.entryDirectory id) false) next' ∧
          next' (.error (.os .noEntry)) = .done [.deleted (.ok ())] := ⟨_, rfl, rfl⟩
      rw [hprogram, hbegins] at hp
      cases hp
      obtain ⟨hreply, rfl⟩ := Prod.mk.inj (Option.some.inj hr)
      obtain rfl : r = .error (.os .noEntry) := hreply.symm.trans (h.stat hshort)
      refine ⟨h.kempt, h.models, ?_, children_put h.children (h.children _), ?_⟩
      · exact (after_world_eq S _ _ (S.world (S.process j)) rfl).symm ▸ h.serves
      · rw [after_program_self]
        exact .inr hends
    · rw [hdone] at hp
      exact nomatch hp

theorem Vacant.proceeds (hshort : Tree.Short (c.entryDirectory id)) (h : S.Vacant P c id i)
    (hrun : S.Proceeds m (· = i) S') : S'.Vacant P c id i := by
  induction hrun with
  | refl => exact h
  | tail _ hgo ih => exact ih.goes hshort hgo

end Missing

/-- Two models, the name of one at both ends of that of the other. -/
def cousins (b : Bool) : ModelIdentity := if b then ⟨"m_m", by decide⟩ else .small

/-- Tools that leave a module and another file, and are content. -/
def easyTools : Toolwork where
  translation := .ok ⟨"code", "warned"⟩
  left := [("model.o", [1]), ("stanbind_model_m_m_1.so", [2])]
  result := .ok ("stanbind_model_m_m_1.so", "built", .gcc)
  plain := by decide
  named := by
    rintro _ ⟨⟩
    decide

def errands (b : Bool) : List Chore :=
  if b then [.exists?, .compile "source" easyTools, .modulePath, .delete]
  else [.lock, .store (Site.path ["x"]) "" "warned" .small, .loadWarnings, .unlock]

theorem same_as_alone_cousins : ∃ S', (pair cousins errands).Proceeds .idle (fun _ => True) S' ∧ ∀ b,
    ∃ answers T, S'.program b = .done answers ∧ (pair cousins errands).Proceeds .idle (· = b) T ∧
      T.program b = .done answers ∧ S'.files.Same T.files (Site.top.entry (cousins b)) := by
  have hid : Function.Injective cousins := by
    intro a b h
    cases a <;> cases b <;> first | rfl | exact absurd (congrArg ModelIdentity.name h) (by decide)
  have hstarts : (pair cousins errands).Starts pairSources ⟨Site.path ["c"]⟩ cousins hid errands := by
    refine pair_starts hid fun b chore hc => ?_
    cases b <;> simp only [errands, Bool.false_eq_true, ↓reduceIte, List.mem_cons, List.not_mem_nil, or_false] at hc
    · rcases hc with rfl | rfl | rfl | rfl
      case inr.inl => exact ⟨0, "x", Site.path [], rfl, by decide, fun t _ => Site.leads_top t _, rfl⟩
      all_goals trivial
    · rcases hc with rfl | rfl | rfl | rfl <;> trivial
  obtain ⟨S', hS', hends⟩ := (Option.any_eq_true _ _).mp (show ((pair cousins errands).play .idle
      (List.replicate 7 false ++ List.replicate 13 true ++ List.replicate 4 false ++ List.replicate 4 true ++
        List.replicate 7 false ++ List.replicate 20 true)).any
      (fun S => [false, true].all fun b => (S.program b).ended?.isSome) = true by decide +kernel)
  have hrun : (pair cousins errands).Proceeds .idle (fun _ => True) S' :=
    proceeds_of_play (fun _ _ => trivial) hS'
  refine ⟨S', hrun, fun b => ?_⟩
  obtain ⟨answers, hanswers⟩ := Option.isSome_iff_exists.mp
    (List.all_eq_true.mp hends b (by cases b <;> simp))
  have hdone := Program.ended?_eq_some.mp hanswers
  obtain ⟨⟨T, hT, hsame⟩, -⟩ := same_as_alone hstarts (fun b _ => by cases b <;> decide) hrun b
  exact ⟨answers, T, hdone, hT, hsame answers hdone⟩

def strangers (b : Bool) : ModelIdentity := if b then .endless else .small

def removal (b : Bool) : List Chore := if b then [.delete] else [.store (Site.path ["x"]) "" "" .small]

/-- Not so with a name that no file can have: to remove what is not there fails once another model has
been stored. -/
theorem stranger_felt : ¬∀ (id : Bool → ModelIdentity) (hid : Function.Injective id)
    (chores : Bool → List Chore) (S' : Scene Bool (List Chore.Answer)),
    (pair id chores).Starts pairSources ⟨Site.path ["c"]⟩ id hid chores →
    (pair id chores).Proceeds .idle (fun _ => True) S' → ∀ i answers, S'.program i = .done answers →
      ∃ T, (pair id chores).Proceeds .idle (· = i) T ∧ T.program i = .done answers := by
  intro hall
  have hid : Function.Injective strangers := by
    intro a b h
    cases a <;> cases b <;> first | rfl | exact absurd (congrArg ModelIdentity.name h) (by decide +kernel)
  have hstarts : (pair strangers removal).Starts pairSources ⟨Site.path ["c"]⟩ strangers hid removal := by
    refine pair_starts hid fun b chore hc => ?_
    cases b <;> obtain rfl := List.mem_singleton.mp hc
    · exact ⟨0, "x", Site.path [], rfl, by decide, fun t _ => Site.leads_top t _, rfl⟩
    · trivial
  obtain ⟨S', hS', hends⟩ := (Option.any_eq_true _ _).mp (show ((pair strangers removal).play .idle
      (List.replicate 12 false ++ [true])).any
      (fun S => (S.program true).ended?.any fun answers => answers.any Chore.Answer.isUnremoved) = true by
    decide +kernel)
  obtain ⟨answers, hanswers, hfailed⟩ := (Option.any_eq_true _ _).mp hends
  obtain ⟨T, hT, hdone⟩ := hall strangers hid removal S' hstarts
    (proceeds_of_play (fun _ _ => trivial) hS') true answers (Program.ended?_eq_some.mp hanswers)
  have hvacant : (pair strangers removal).Vacant (pairSources.plots strangers hid) ⟨Site.path ["c"]⟩ .endless
      true := ⟨hstarts.kempt, rfl, hstarts.serves true, hstarts.children, .inl rfl⟩
  rcases (hvacant.proceeds (show (_ : Nat) < _ by decide +kernel) hT).program with h | h
  · rw [hdone] at h
    exact nomatch h
  · obtain rfl := Program.done.inj (hdone.symm.trans h)
    exact absurd hfailed (by decide)

end Scene

end CompiledModels
