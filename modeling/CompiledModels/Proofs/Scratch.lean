import CompiledModels.Proofs.Lull

/-!
Temporary directories within one another: what is left as it was while there are some, and once
they are removed.
-/

namespace CompiledModels

open Files Program

inductive Scrap (c : Cache) (env : Environment) : Path → Prop
  | staging (n : String) : Scrap c env ((Path.inDirectory env.directory c.root).joins [".staging", n])
  | temp (s : String) : Scrap c env ((Path.inDirectory env.directory env.temporaryDirectory).joins
      ["stanbind_build_" ++ s])

def Littered (c : Cache) (env : Environment) (G : Prop) (x : Moment) : Prop :=
  G → ∃ p s, Scrap c env p ∧ s ∈ x.past ∧ s.Stumbles p

variable {R : Rules} {m : Machine} {E : Estate} {c : Cache} {env : Environment}
  {tools : Invocation → Prop} {G : Prop} {t : Tree} {Z Z' : Location → Prop} {dirs : List Location}
  {d : Location} {x y : Moment} {p : Path}

theorem Littered.later (hp : ∃ taken, y.past = taken ++ x.past) (h : Littered c env G x) :
    Littered c env G y := fun hG => by
  obtain ⟨taken, hp⟩ := hp
  obtain ⟨p, s, hscrap, hs, hst⟩ := h hG
  exact ⟨p, s, hscrap, hp ▸ List.mem_append_right _ hs, hst⟩

namespace Estate

def scrap (E : Estate) : Location → Prop := fun l =>
  (∃ n, E.cache.root ++ [".staging", n] <+: l) ∨ E.scratch l

structure Den (E : Estate) (d : Location) : Prop where
  still : E.Still d
  scrap : ∀ rest, E.scrap (d ++ rest)
  cache : E.cache.Apart (d <+: ·)
  temp : ∀ k, (E.temp k).Apart (d <+: ·)
  staging : ¬d <+: E.cache.staging
  apart : ∀ l, d <+: l → ¬E.cache.models <+: l

theorem den_staging (E : Estate) (n : String) : E.Den (E.cache.root ++ [".staging", n]) := by
  refine ⟨still_of_names (by simp) fun s rest hr h => hr ?_, fun rest => .inl ⟨n, List.prefix_append _ _⟩,
    apart_under (by simp), fun k => ?_, ?_, ?_⟩
  · simp only [List.cons.injEq] at h
    exact h.2.2.symm
  · refine apart_of_way fun l hl hp => E.outside k l hl ?_
    exact (List.prefix_append _ _).trans hp
  · rintro ⟨rest, h⟩
    simp [Site.staging] at h
  · rintro l ⟨rest, rfl⟩ ⟨more, h⟩
    simp [Site.models, ModelIdentity.modelNamespace] at h

theorem den_scratch (E : Estate) (k : Nat) (s : String) :
    E.Den ((E.temp k).root ++ ["stanbind_build_" ++ s]) := by
  have hscratch (rest : List String) : E.scratch ((E.temp k).root ++ ["stanbind_build_" ++ s] ++ rest) :=
    ⟨k, s, List.prefix_append _ _⟩
  have hself := hscratch []
  rw [List.append_nil] at hself
  refine ⟨still_of_scratch hself, fun rest => .inr (hscratch rest), ?_, fun k' => ?_, ?_, ?_⟩
  · exact apart_of_way fun l hl => E.apart k s l (.inl hl)
  · exact apart_of_way fun l hl => E.apart k s l (.inr ⟨k', hl⟩)
  · rintro ⟨rest, h⟩
    exact scratch_ne (hscratch rest) _ h
  · rintro l ⟨rest, rfl⟩ ⟨more, h⟩
    rw [Site.models, List.append_assoc E.cache.root] at h
    exact scratch_ne (hscratch rest) _ h.symm

structure Busy (E : Estate) (c : Cache) (env : Environment) (G : Prop) (t : Tree)
    (Z : Location → Prop) (dirs : List Location) (x : Moment) : Prop where
  cache : Standing E.cache env x
  temp : ∀ k, Standing (E.temp k) env x
  staging : x.files.get? E.cache.staging = some .directory
  dens : ∀ d ∈ dirs, E.Den d
  zone : ∀ l, Z l → E.cache.models <+: l
  spared : ∀ l, E.Still l → l ≠ E.cache.staging → ¬Z l → (∀ d ∈ dirs, ¬d <+: l) →
    (E.scrap l → ¬Littered c env G x) → x.files.get? l = t.get? l
  fresh : ∀ d ∈ dirs, ¬Littered c env G x → t.Bare d

def Built (E : Estate) (d : Location) (x : Moment) : Prop :=
  ∀ l, d <+: l → E.builds l →
    x.files.get? l = none ∨ ∃ number c e, x.files.get? l = some (.file number c e)

theorem Built.steady : E.Steady (E.Built d) := by
  intro x y h hx l hl hb
  rcases h.files.builds l hb with he | he
  · rw [he]
    exact hx l hl hb
  · exact he

theorem Built.of_folder (hd : E.Still d) (h : x.files.Folder d []) : E.Built d x := by
  rintro l ⟨rest, rfl⟩ hb
  by_cases hr : rest = []
  · rw [hr, List.append_nil] at hb
    exact absurd (.inl hb) hd.1
  · refine .inl (Classical.byContradiction fun hn => ?_)
    obtain ⟨f, hf, -⟩ := h.only rest hr hn
    simp at hf

theorem not_models_of_way {k : Nat} (h : E.cache.Way l ∨ (E.temp k).Way l) : ¬E.cache.models <+: l := by
  rintro ⟨rest, rfl⟩
  rcases h with h | h
  · exact cache_not_below h (List.cons_ne_nil _ _) (List.append_assoc ..)
  · exact E.outside k _ h (by rw [Site.models, List.append_assoc]; exact List.prefix_append _ _)

namespace Busy

theorem steady : E.Steady (E.Busy c env G t Z dirs) := by
  intro x y h hx
  obtain ⟨taken, hp, -⟩ := h.past
  have hlater (hy : ¬Littered c env G y) : ¬Littered c env G x := fun hx => hy (hx.later ⟨taken, hp⟩)
  refine ⟨h.standing (fun _ hl => still_of_way (k := 0) (.inl hl)) hx.cache,
    fun k => h.standing (fun _ hl => still_of_way (.inr hl)) (hx.temp k),
    (h.files.kept _ E.still_staging).trans hx.staging, hx.dens, hx.zone, fun l hl hs hz hd hc => ?_,
    fun d hd hy => hx.fresh d hd (hlater hy)⟩
  exact (h.files.kept l hl).trans (hx.spared l hl hs hz hd fun hl => hlater (hc hl))

theorem changes (h : Changes (fun l => (∃ d ∈ dirs, d <+: l) ∨ Z l ∨ ¬E.Still l) x y)
    (hp : ∃ s, y.past = s :: x.past) (hx : E.Busy c env G t Z dirs x) :
    E.Busy c env G t Z dirs y := by
  obtain ⟨s, hp⟩ := hp
  have hlater (hy : ¬Littered c env G y) : ¬Littered c env G x := fun hx => hy (hx.later ⟨[s], hp⟩)
  have hway {k : Nat} {l : Location} (hl : E.cache.Way l ∨ (E.temp k).Way l)
      (hd : ∀ d ∈ dirs, ¬d <+: l) : ¬((∃ d ∈ dirs, d <+: l) ∨ Z l ∨ ¬E.Still l) := by
    rintro (⟨d, hd', hl'⟩ | hl' | hl')
    · exact hd d hd' hl'
    · exact not_models_of_way hl (hx.zone l hl')
    · exact hl' (still_of_way hl)
  refine ⟨hx.cache.changes h ?_, fun k => (hx.temp k).changes h ?_, (h.files _ ?_).trans hx.staging,
    hx.dens, hx.zone, fun l hl hs hZ hout hc => ?_, fun d hd hy => hx.fresh d hd (hlater hy)⟩
  · exact ⟨hway (k := 0) (.inl (.inl rfl)) fun d hd => (hx.dens d hd).cache.1,
      fun e he => hway (k := 0) (.inl (.inr ⟨e, he, rfl⟩)) fun d hd => (hx.dens d hd).cache.2 e he⟩
  · exact ⟨hway (.inr (.inl rfl)) fun d hd => ((hx.dens d hd).temp k).1,
      fun e he => hway (.inr (.inr ⟨e, he, rfl⟩)) fun d hd => ((hx.dens d hd).temp k).2 e he⟩
  · rintro (⟨d, hd, hl⟩ | hl | hl)
    · exact (hx.dens d hd).staging hl
    · obtain ⟨rest, hl⟩ := hx.zone _ hl
      simp [Site.models, Site.staging, ModelIdentity.modelNamespace] at hl
    · exact hl E.still_staging
  · refine (h.files l ?_).trans (hx.spared l hl hs hZ hout fun h => hlater (hc h))
    rintro (⟨d, hd, hl'⟩ | hl' | hl')
    · exact hout d hd hl'
    · exact hZ hl'
    · exact hl' hl

theorem inside (h : Changes (fun l => d <+: l ∨ ¬E.Still l) x y) (hp : ∃ s, y.past = s :: x.past)
    (hd : d ∈ dirs) (hx : E.Busy c env G t Z dirs x) : E.Busy c env G t Z dirs y :=
  hx.changes (h.mono fun _ hl => hl.imp (fun hl => ⟨d, hd, hl⟩) .inr) hp

theorem erases (h : Erases d x y) (hd : d ∈ dirs) (hx : E.Busy c env G t Z dirs x) :
    E.Busy c env G t Z dirs y := by
  obtain ⟨s, hp, -⟩ := h.within.taken
  exact hx.inside (h.within.toChanges.mono fun _ => .inl) ⟨s, hp⟩ hd

theorem opens (ht : t.WellFormed) (h : Adds (· = d) x y) (hden : E.Den d) (hnone : x.files.get? d = none)
    (hdirs : ∀ d' ∈ dirs, ¬d' <+: d) (hx : E.Busy c env G t Z dirs x) :
    E.Busy c env G t Z (d :: dirs) y := by
  obtain ⟨s, hp, -⟩ := h.taken
  have hlater (hy : ¬Littered c env G y) : ¬Littered c env G x := fun hx => hy (hx.later ⟨[s], hp⟩)
  have hself {Q : Location → Prop} (l : Location) (hl : l = d) (hQ : Q d) : Q l := hl ▸ hQ
  refine ⟨hx.cache.changes h.toChanges (hden.cache.mono fun _ hl => hl ▸ List.prefix_refl _),
    fun k => (hx.temp k).changes h.toChanges ((hden.temp k).mono fun _ hl => hl ▸ List.prefix_refl _),
    (h.files _ fun hl => hden.staging (hl ▸ List.prefix_refl _)).trans hx.staging,
    List.forall_mem_cons.mpr ⟨hden, hx.dens⟩, hx.zone, fun l hl hs hz hout hc => ?_,
    fun d' hd' hy => ?_⟩
  · obtain ⟨hd, hout⟩ := List.forall_mem_cons.mp hout
    refine (h.files l ?_).trans (hx.spared l hl hs hz hout fun h => hlater (hc h))
    rintro rfl
    exact hd (List.prefix_refl _)
  · rcases List.mem_cons.mp hd' with rfl | hd'
    · refine ht.bare ?_
      have hne : d' ≠ E.cache.staging := fun he => hden.staging (he ▸ List.prefix_refl _)
      have hZ : ¬Z d' := fun hz => hden.apart d' (List.prefix_refl _) (hx.zone d' hz)
      exact (hx.spared d' hden.still hne hZ hdirs fun _ => hlater hy).symm.trans hnone
    · exact hx.fresh d' hd' (hlater hy)

theorem closes (hp : Scrap c env p) (hgone : G → y.files.Bare d ∨ Tripped False p y)
    (hy : E.Busy c env G t Z (d :: dirs) y) : E.Busy c env G t Z dirs y := by
  refine { hy with
    dens := fun d' hd' => hy.dens d' (List.mem_cons_of_mem _ hd')
    spared := fun l hl hs hz hout hc => ?_
    fresh := fun d' hd' => hy.fresh d' (List.mem_cons_of_mem _ hd') }
  by_cases hd : d <+: l
  · obtain ⟨rest, rfl⟩ := hd
    have hclean := hc ((hy.dens d List.mem_cons_self).scrap rest)
    obtain ⟨hG, hno⟩ := Classical.not_imp.mp hclean
    have hbare := (hgone hG).resolve_right fun h => by
      obtain ⟨s, hs, hst⟩ := h.1
      exact hno ⟨p, s, hp, hs, hst⟩
    rw [hbare rest, hy.fresh d List.mem_cons_self hclean rest]
  · exact hy.spared l hl hs hz (List.forall_mem_cons.mpr ⟨hd, hout⟩) hc

end Busy

def Spares (E : Estate) (x y : Moment) : Prop := x.files.Same y.files E.cache.models

theorem Rests.spares (h : E.Rests x y) : E.Spares x y := fun rest => h.files.kept _ (E.still_models rest)

theorem Den.spares (h : E.Den d) (hc : Changes (fun l => d <+: l ∨ ¬E.Still l) x y) : E.Spares x y :=
  fun rest => hc.files _ (not_or.mpr ⟨fun hl => h.apart _ hl (List.prefix_append _ _),
    not_not.mpr (E.still_models rest)⟩)

structure Nest (E : Estate) (c : Cache) (env : Environment) (S : Site) (dir : List String)
    (a : String) (q : Path) : Prop where
  site : S = E.cache ∨ ∃ k, S = E.temp k
  leads : S.Leads env.location q
  directory : ∀ {G t Z dirs y}, E.Busy c env G t Z dirs y → y.files.get? (S.root ++ dir) = some .directory
  way : ∀ pre, pre <+: dir → E.Still (S.root ++ pre)
  plain : ∀ s ∈ dir, IsPlain s
  start : ∀ s, IsPlain (a ++ s)
  den : ∀ s, E.Den (S.root ++ dir ++ [a ++ s])
  inside : ∀ s rest, E.Still (S.root ++ dir ++ [a ++ s] ++ rest) ∨
    E.builds (S.root ++ dir ++ [a ++ s] ++ rest)
  scrap : ∀ s, Scrap c env (q.joins (dir ++ [a ++ s]))

theorem nest_staging {a : String} (hS : E.cache.Serves env c.root) (ha : ∀ s, IsPlain (a ++ s)) :
    E.Nest c env E.cache [".staging"] a (Path.inDirectory env.directory c.root) := by
  refine ⟨.inl rfl, hS.full, fun h => h.staging, fun pre hp => ?_, by decide, ha, fun s => ?_,
    fun s rest => ?_, fun s => .staging _⟩
  · rcases List.prefix_concat_iff.mp (show pre <+: [] ++ [".staging"] from hp) with rfl | hp
    · exact E.still_staging
    · rw [List.prefix_nil.mp hp, List.append_nil]
      exact still_of_way (k := 0) (.inl (.inl rfl))
  · rw [List.append_assoc]
    exact E.den_staging _
  · by_cases hrest : rest = []
    · rw [hrest, List.append_nil, List.append_assoc]
      exact .inl (E.den_staging _).still
    · by_cases hb : ∃ s', a ++ s = "build_" ++ s'
      · obtain ⟨s', hs'⟩ := hb
        exact .inr ⟨s', rest, hrest, by rw [hs']; simp⟩
      · have h := still_of_name (E := E) (fun s' h => hb ⟨s', h⟩) rest
        exact .inl (by simpa using h)

theorem nest_scratch {k : Nat} (hk : (E.temp k).Leads env.location
    (Path.inDirectory env.directory env.temporaryDirectory)) :
    E.Nest c env (E.temp k) [] "stanbind_build_"
      (Path.inDirectory env.directory env.temporaryDirectory) := by
  refine ⟨.inr ⟨k, rfl⟩, hk, fun h => ?_, fun pre hp => ?_, by simp, plain_of_start (by decide),
    fun s => ?_, fun s rest => ?_, fun s => .temp s⟩
  · rw [List.append_nil]
    exact (h.temp k).stands.root
  · rw [List.prefix_nil.mp hp, List.append_nil]
    exact still_of_way (.inr (.inl rfl))
  · rw [List.append_nil]
    exact E.den_scratch k s
  · rw [List.append_nil]
    exact .inl (still_of_scratch ⟨k, s, List.prefix_append _ _⟩)

end Estate

section Temporary

open Estate

variable {S : Site} {dir : List String} {a : String} {q : Path} {P : Moment → Prop} {α ε : Type}
  {Q : Except ε α → Moment → Prop} {wrap : FileError → ε} {work : Path → Attempt ε α}

theorem Estate.Nest.standing (hN : E.Nest c env S dir a q) (hx : E.Busy c env G t Z dirs x) :
    Standing S env x := by
  rcases hN.site with rfl | ⟨k, rfl⟩
  · exact hx.cache
  · exact hx.temp k

theorem Estate.Nest.ground (hN : E.Nest c env S dir a q) (hR : Workplace R E m env tools) :
    Ground R m S False := by
  rcases hN.site with rfl | ⟨k, rfl⟩
  · exact hR.cache
  · exact hR.temp k

variable (hR : Workplace R E m env tools) (hN : E.Nest c env S dir a q) (hk : R.Allows E.Spares)
  (ht : t.WellFormed) (hpriv : G → ∀ l, Private R l)
include hR hN hk

theorem removeAll_busy {s : String} {P : Moment → Prop} (hP : E.Steady P)
    (hPe : ∀ y z, Erases (S.root ++ dir ++ [a ++ s]) y z → P y → P z)
    (hpriv : G → ∀ l, Private R l)
    (hx : E.Busy c env G t Z ((S.root ++ dir ++ [a ++ s]) :: dirs) x)
    (hd : x.files.get? (S.root ++ dir ++ [a ++ s]) = some .directory) (hPx : P x) :
    R.Safe (fun _ y => E.Busy c env G t Z dirs y ∧ P y) (removeAll (q.joins (dir ++ [a ++ s]))) x := by
  have hat (rest : List String) : S.root ++ (dir ++ [a ++ s]) ++ rest =
      S.root ++ dir ++ [a ++ s] ++ rest := by simp
  have hroot : S.root ++ (dir ++ [a ++ s]) = S.root ++ dir ++ [a ++ s] := by simp
  have hstay : R.Stable (·.files.Unlinked false S.root (dir ++ [a ++ s])) := by
    intro y z h hy pre hne hp hf target
    have hpre : pre <+: dir := by
      rcases List.prefix_concat_iff.mp hp with rfl | hp
      · simp at hf
      · exact hp
    rw [(hR.rests h).files.kept _ (hN.way pre hpre)]
    exact hy pre hne hp hf target
  have hlinks (rest : List String) :
      R.Stable (·.files.NoLink (S.root ++ (dir ++ [a ++ s]) ++ rest)) := by
    rw [hat]
    intro y z h hy target
    rcases hN.inside s rest with hl | hl
    · rw [(hR.rests h).files.kept _ hl]
      exact hy target
    · rcases (hR.rests h).files.builds _ hl with he | he | ⟨_, _, _, he⟩
      · exact he ▸ hy target
      · rw [he]
        simp
      · rw [he]
        simp
  have hunlinked : x.files.Unlinked false S.root (dir ++ [a ++ s]) :=
    ((hN.standing hx).wellFormed.unlinked (hN.directory hx)).concat (by simp)
  have hplain : ∀ n ∈ dir ++ [a ++ s], IsPlain n :=
    List.forall_mem_append.mpr ⟨hN.plain, List.forall_mem_singleton.mpr (hN.start s)⟩
  have hsafe := removeAll_bare (G := G) (hN.ground hR) hN.leads (by simp) hstay hlinks
    (fun hG => hpriv hG _) (hN.standing hx) hplain hunlinked fun _ =>
      ⟨False.elim, .inl (.inr ⟨_, by rw [hroot]; exact hd, .inl rfl⟩)⟩
  rw [hroot] at hsafe
  refine (hsafe.keepInvariant (J := fun y =>
      E.Busy c env G t Z ((S.root ++ dir ++ [a ++ s]) :: dirs) y ∧ P y)
    (fun y z h => hk _ _ ((hN.den s).spares (h.within.toChanges.mono fun _ => .inl))) ⟨hx, hPx⟩
    (hR.stable (Busy.steady.and hP))
    fun y z h hy => ⟨hy.1.erases h List.mem_cons_self, hPe y z h hy.2⟩).weaken fun r y hy => ?_
  exact ⟨hy.2.1.closes (hN.scrap s) fun hG => (hy.1.2 hG).imp_left (·.2), hy.2.2⟩

include ht in
theorem inTemporary_busy {p : Path} (hq : q = Path.inDirectory env.directory p)
    (hpriv : G → ∀ l, Private R l)
    (hdirs : ∀ s, ∀ d ∈ dirs, ¬d <+: S.root ++ dir ++ [a ++ s]) (hP : E.Steady P)
    (hPa : ∀ s y z, Adds (· = S.root ++ dir ++ [a ++ s]) y z → P y → P z) (hQ : ∀ r, E.Steady (Q r))
    (hQe : ∀ s r y z, Erases (S.root ++ dir ++ [a ++ s]) y z → Q r y → Q r z)
    (hwork : ∀ s y, E.Busy c env G t Z ((S.root ++ dir ++ [a ++ s]) :: dirs) y →
      y.files.get? (S.root ++ dir ++ [a ++ s]) = some .directory →
      ((∀ rest, E.Still (S.root ++ dir ++ [a ++ s] ++ rest)) →
        y.files.Folder (S.root ++ dir ++ [a ++ s]) []) → E.Built (S.root ++ dir ++ [a ++ s]) y → P y →
      R.Safe (fun r z => E.Busy c env G t Z' ((S.root ++ dir ++ [a ++ s]) :: dirs) z ∧
        z.files.get? (S.root ++ dir ++ [a ++ s]) = some .directory ∧ Q r z)
        (work (q.joins (dir ++ [a ++ s]))).run y)
    (hx : E.Busy c env G t Z dirs x) (hPx : P x) :
    R.Safe (fun r z => (∃ e, r = .error (wrap e)) ∧ E.Busy c env G t Z dirs z ∧ P z ∨
        E.Busy c env G t Z' dirs z ∧ Q r z)
      (Attempt.inTemporary a (p.joins dir) wrap work).run x := by
  have hroot : E.Still (S.root ++ dir) := hN.way dir (List.prefix_refl _)
  have hfolder (s : String) : E.Steady fun y => (∀ rest, E.Still (S.root ++ dir ++ [a ++ s] ++ rest)) →
      y.files.Folder (S.root ++ dir ++ [a ++ s]) [] := fun y z h hy hs =>
    (hy hs).congr fun rest => h.files.kept _ (hs rest)
  have hbusy (s : String) : E.Steady fun y =>
      E.Busy c env G t Z ((S.root ++ dir ++ [a ++ s]) :: dirs) y ∧
      y.files.get? (S.root ++ dir ++ [a ++ s]) = some .directory ∧
      ((∀ rest, E.Still (S.root ++ dir ++ [a ++ s] ++ rest)) →
        y.files.Folder (S.root ++ dir ++ [a ++ s]) []) ∧ E.Built (S.root ++ dir ++ [a ++ s]) y ∧ P y :=
    Busy.steady.and ((Steady.get? (hN.den s).still).and ((hfolder s).and (Built.steady.and hP)))
  have hmake := makeTemporary_fresh (R := R.keeping (Adds fun l => ∃ s, l = S.root ++ dir ++ [a ++ s]))
    (P := fun y => E.Busy c env G t Z dirs y ∧ P y)
    ((hN.ground hR).keeping _) (fun _ _ h => h) hN.leads hN.start
    ((hR.stable (Steady.get? hroot)))
    ((hR.lasting (Busy.steady.and hP)).keeping _) (fun s => hR.stable (hbusy s))
    (fun s y z hy h hnone hf => ⟨hy.1.opens ht h (hN.den s) hnone (hdirs s), hf.directory,
      fun _ => hf, .of_folder (hN.den s).still hf, hPa s y z h hy.2⟩)
    (fun s => hR.stable (Steady.get? (hN.den s).still)) False.elim hq (hN.standing hx)
    (hN.directory hx) ⟨hx, hPx⟩ False.elim
  have hkeep (y z : Moment) (h : Adds (fun l => ∃ s, l = S.root ++ dir ++ [a ++ s]) y z) : R.keep y z := by
    refine hk y z fun rest => Changes.files h.toChanges _ ?_
    rintro ⟨s, hs⟩
    exact (hN.den s).apart _ (hs ▸ List.prefix_refl _) (List.prefix_append _ rest)
  have hmade : R.Safe _ _ x := hmake.transfer (fun _ _ _ _ h => h) (fun _ _ h => h) hkeep
  refine .ofThen hmade (fun t' y hy => ?_) fun e y hy => .inl ⟨⟨e, rfl⟩, (hy.2.2 e rfl).1⟩
  · obtain ⟨_, s, -, rfl, -, hby, hdy, hfy, hbuilt, hPy⟩ := hy.2.1 t' rfl
    refine (hwork s y hby hdy hfy hbuilt hPy).andThen fun r z hz => ?_
    refine .next ((removeAll_busy hR hN hk (hQ r) (hQe s r) hpriv hz.1 hz.2.1 hz.2.2).settled)
      fun _ u hu => .pure fun v hv => .inr (hu v hv)

end Temporary

end CompiledModels
