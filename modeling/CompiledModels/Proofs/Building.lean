import CompiledModels.Proofs.Scratch

/-!
Translating a source and compiling it: nothing is left of that but the module, as far as the
temporary directories could be removed.
-/

namespace CompiledModels

open Files Program

variable {R : Rules} {m : Machine} {E : Estate} {env : Environment} {tools : Invocation → Prop}
  {e : Engine} {id : ModelIdentity} {G : Prop} {t t' : Tree} {Z : Location → Prop}
  {dirs : List Location} {d l : Location} {x y : Moment} {p : Path} {P : Moment → Prop}

namespace Estate

def Own (E : Estate) (d : Location) (t : Tree) : Prop :=
  ∀ l k number c b c' b', d <+: l → t.get? l = some (.file number c b) → ¬d <+: k → E.Still k →
    t.get? k ≠ some (.file number c' b')

theorem Own.of_folder (h : t.Folder d []) : E.Own d t := by
  rintro l k number c b c' b' ⟨rest, rfl⟩ hl - -
  cases rest with
  | nil => simp [h.directory] at hl
  | cons s rest =>
    obtain ⟨f, hf, -⟩ := h.only (s :: rest) (by simp) (by simp [hl])
    simp at hf

theorem Own.steady (hd : ∀ rest, E.Still (d ++ rest)) : E.Steady (E.Own d ·.files) := by
  rintro x y h hx l k number c b c' b' ⟨rest, rfl⟩ hl hk hs
  rw [h.files.kept _ (hd rest)] at hl
  rw [h.files.kept _ hs]
  exact hx _ k number c b c' b' (List.prefix_append _ _) hl hk hs

theorem Alike.file {n n' : Option Node} (h : Alike n n') {number : Nat} {c : Content} {b : Bool}
    (hn : n' = some (.file number c b)) : ∃ c' b', n = some (.file number c' b') := by
  rcases h with h | ⟨number', c', b', c'', b'', h, h'⟩
  · exact ⟨c, b, h ▸ hn⟩
  · obtain ⟨rfl, -⟩ := Node.file.inj (Option.some.inj (h'.symm.trans hn))
    exact ⟨c', b', h⟩

structure Writes (E : Estate) (d : Location) (t t' : Tree) : Prop where
  wellFormed : t'.WellFormed
  own : E.Own d t'
  kept : ∀ k, ¬(d <+: k ∨ ¬E.Still k) → t'.get? k = t.get? k
  alike : ∀ k, Alike (t.get? k) (t'.get? k) ∨
    t.get? k = none ∧ ∃ number c b, t'.get? k = some (.file number c b)

theorem writes_setFile {number : Nat} {c c' : Content} {b b' : Bool} (ht : t.WellFormed)
    (ho : E.Own d t) (hd : d <+: l) (hl : t.get? l = some (.file number c' b')) :
    E.Writes d t (t.setFile number c b) := by
  have halike (k : Location) : Alike (t.get? k) ((t.setFile number c b).get? k) := by
    rw [Tree.get?_setFile]
    cases hk : t.get? k with
    | none => exact .inl rfl
    | some n =>
      cases n with
      | file number' c'' b'' =>
        by_cases he : number' = number
        · exact .inr ⟨number', c'', b'', c, b, rfl, by simp [Tree.rewritten, he]⟩
        · exact .inl (by simp [Tree.rewritten, he])
      | _ => exact .inl rfl
  refine ⟨ht.setFile, fun l k number' c₁ b₁ c₂ b₂ hd' hl' hk hs hk' => ?_, fun k hk => ?_,
    fun k => .inl (halike k)⟩
  · obtain ⟨_, _, hl'⟩ := (halike l).file hl'
    obtain ⟨_, _, hk'⟩ := (halike k).file hk'
    exact ho l k number' _ _ _ _ hd' hl' hk hs hk'
  · rw [not_or, not_not] at hk
    rw [Tree.get?_setFile]
    cases hn : t.get? k with
    | none => rfl
    | some n =>
      cases n with
      | file number' c'' b'' =>
        have hne : number' ≠ number := by
          rintro rfl
          exact ho l k number' _ _ _ _ hd hl hk.1 hk.2 hn
        simp [Tree.rewritten, hne]
      | _ => rfl

theorem writes_insertFile {dir : Location} {s : String} {c : Content} {b : Bool} (ht : E.Sound t)
    (ho : E.Own d t) (hd : d <+: dir ++ [s]) (hdir : t.get? dir = some .directory) (hs : IsProper s)
    (hl : t.get? (dir ++ [s]) = none) : E.Writes d t (t.insertFile (dir ++ [s]) c b) := by
  have hget := Tree.get?_insertFile (t := t) (l := dir ++ [s]) (c := c) (x := b) (by simp)
  refine ⟨ht.cache.wellFormed.insertFile hdir hs hl, fun l k number c₁ b₁ c₂ b₂ hd' hl' hk hstill hk' => ?_,
    fun k hk => (hget k).trans (if_neg ?_), fun k => ?_⟩
  · have hk'' : t.get? k = some (.file number c₂ b₂) := by
      rwa [hget, if_neg fun he : k = dir ++ [s] => hk (he ▸ hd)] at hk'
    rw [hget] at hl'
    split at hl'
    · obtain ⟨rfl, -⟩ := Node.file.inj (Option.some.inj hl')
      exact Nat.lt_irrefl _ (ht.numbered k _ _ _ hk'')
    · exact ho l k number c₁ b₁ c₂ b₂ hd' hl' hk hstill hk''
  · rintro rfl
    exact hk (.inl hd)
  · by_cases hk : k = dir ++ [s]
    · subst hk
      exact .inr ⟨hl, _, _, _, (hget _).trans (if_pos rfl)⟩
    · exact .inl (.inl ((hget k).trans (if_neg hk)))

theorem writes_of_write {cwd : Location} {c : Content} (ht : E.Sound t) (ho : E.Own d t)
    (hp : E.Spells cwd p l) (hd : d <+: l) (h : t.write cwd p c = .ok t') : E.Writes d t t' := by
  obtain ⟨k, hk, h⟩ := Tree.write_eq_ok.mp h
  obtain ⟨rfl, dir, s, rfl, hdir, hs⟩ := hp.resolve ht hk
  rcases h with ⟨_, _, _, hf, rfl⟩ | ⟨_, _, _, _, rfl⟩ | ⟨hg, _, rfl⟩
  · exact writes_setFile ht.cache.wellFormed ho hd hf
  · exact ⟨ht.cache.wellFormed, ho, fun _ _ => rfl, fun _ => .inl (.inl rfl)⟩
  · exact writes_insertFile ht ho hd hdir hs hg

structure Inside (E : Estate) (d : Location) (x y : Moment) : Prop extends
    Within (fun l => d <+: l ∨ ¬E.Still l) x y where
  builds : ∀ l, ¬d <+: l → y.files.get? l = x.files.get? l ∨ y.files.get? l = none ∨
    ∃ number c b, y.files.get? l = some (.file number c b)

theorem Inside.of_within (h : Within (d <+: ·) x y) : E.Inside d x y :=
  ⟨h.mono fun _ => .inl, fun l hl => .inl (h.files l hl)⟩

structure Lasts (E : Estate) (d : Location) (P : Moment → Prop) : Prop where
  steady : E.Steady P
  inside : ∀ y z, E.Inside d y z → P y → P z

structure Writing (E : Estate) (c : Cache) (env : Environment) (G : Prop) (t : Tree)
    (Z : Location → Prop) (dirs : List Location) (d : Location) (P : Moment → Prop) (x : Moment) :
    Prop where
  busy : E.Busy c env G t Z (d :: dirs) x
  directory : x.files.get? d = some .directory
  own : E.Own d x.files
  holds : P x

variable {c : Cache}

theorem Writing.steady (hd : ∀ rest, E.Still (d ++ rest)) (hP : E.Steady P) :
    E.Steady (E.Writing c env G t Z dirs d P) := fun x y h hx =>
  have hdir := hd []
  ⟨Busy.steady x y h hx.busy, (h.files.kept d (by simpa using hdir)).trans hx.directory,
    Own.steady hd x y h hx.own, hP x y h hx.holds⟩

theorem Writing.writes {s : Step} {r : s.Reply} {t' : Tree} (hP : E.Lasts d P)
    (hs : ¬(Taken.mk s r).Moves) (h : E.Writes d x.files t')
    (hx : E.Writing c env G t Z dirs d P x) :
    E.Writing c env G t Z dirs d P (x.after s r { x.world with files := t' }) := by
  have hinside : E.Inside d x (x.after s r { x.world with files := t' }) := by
    refine ⟨.of_tree hs h.wellFormed h.kept, fun k _ => ?_⟩
    rcases h.alike k with (he | ⟨_, _, _, _, _, _, he⟩) | ⟨_, he⟩
    · exact .inl he
    · exact .inr (.inr ⟨_, _, _, he⟩)
    · exact .inr (.inr he)
  refine ⟨hx.busy.inside hinside.toChanges ⟨_, rfl⟩ List.mem_cons_self, ?_, h.own,
    hP.inside _ _ hinside hx.holds⟩
  · rcases h.alike d with he | ⟨he, -⟩
    · exact (hx.directory ▸ he).directory
    · simp [hx.directory] at he

end Estate

open Estate

theorem writeText_writing {c : Cache} (hR : Workplace R E m env tools) (hk : R.Allows E.Spares)
    (hstill : ∀ rest, E.Still (d ++ rest)) (hP : E.Lasts d P) (hp : E.Spells env.location p l)
    (hd : d <+: l) {text : String} (hx : E.Writing c env G t Z dirs d P x) :
    R.Safe (fun _ y => E.Writing c env G t Z dirs d P y) (writeText p text) x := by
  have hsteady : E.Steady (E.Writing c env G t Z dirs d P) := Writing.steady hstill hP.steady
  refine Rules.Safe.perform (s := .write p _) fun y hy r w hr => ?_
  have hxy := hR.stable hsteady x y hy hx
  obtain ⟨hcalm, henv, -⟩ := hR.calm hr
  suffices h : E.Writing c env G t Z dirs d P (y.after _ r w) ∧ E.Spares y (y.after _ r w) from
    ⟨hk _ _ h.2, fun z hz => hR.stable hsteady _ z hz h.1⟩
  have hwrites {t' : Tree} {content : Content}
      (ht : y.world.files.write y.world.directory p content = .ok t') : E.Writes d y.files t' :=
    writes_of_write hcalm.sound hxy.own (by rwa [World.directory, henv]) hd ht
  have hnot (r : Except FileError Unit) : ¬(Taken.mk (.write p (Text.encode text)) r).Moves := by
    rintro ⟨a, b, h⟩
    cases congrArg Taken.step h
  have hdone {t' : Tree} (h : E.Writes d y.files t') :
      E.Writing c env G t Z dirs d P (y.after (.write p (Text.encode text)) r { y.world with files := t' }) ∧
      E.Spares y (y.after (.write p (Text.encode text)) r { y.world with files := t' }) :=
    ⟨hxy.writes hP (hnot r) h,
      (hxy.busy.dens d List.mem_cons_self).spares ⟨h.kept, fun _ => h.wellFormed, rfl⟩⟩
  rcases Step.faulty.write (hR.act hr) with (⟨_, _, rfl⟩ | ⟨_, t', ht, rfl⟩) | ⟨_, _, _, t', ht, rfl⟩
  · exact hdone ⟨hcalm.sound.cache.wellFormed, hxy.own, fun _ _ => rfl, fun _ => .inl (.inl rfl)⟩
  · exact hdone (hwrites ht)
  · exact hdone (hwrites ht)

section Work

variable {c : Cache} {S : Site} {dir : List String} {a : String} {q : Path} {α ε : Type}
  {wrap : FileError → ε} {work : Path → Attempt ε α} {Q : Except ε α → Prop}

theorem inScratch_busy (hR : Workplace R E m env tools) (hN : E.Nest c env S dir a q)
    (hk : R.Allows E.Spares) (ht : t.WellFormed) (hpriv : G → ∀ l, Private R l)
    {p' : Path} (hp : p' = p.joins dir) (hq : q = Path.inDirectory env.directory p)
    (hdirs : ∀ s, ∀ d ∈ dirs, ¬d <+: S.root ++ dir ++ [a ++ s])
    (hstill : ∀ s rest, E.Still (S.root ++ dir ++ [a ++ s] ++ rest))
    (hP : ∀ s, E.Lasts (S.root ++ dir ++ [a ++ s]) P)
    (hwork : ∀ s y, E.Writing c env G t Z dirs (S.root ++ dir ++ [a ++ s]) P y →
      R.Safe (fun r z => Q r ∧ E.Writing c env G t Z dirs (S.root ++ dir ++ [a ++ s]) P z)
        (work (q.joins (dir ++ [a ++ s]))).run y)
    (herr : ∀ e, Q (.error (wrap e))) (hx : E.Busy c env G t Z dirs x) (hPx : P x) :
    R.Safe (fun r z => Q r ∧ E.Busy c env G t Z dirs z ∧ P z)
      (Attempt.inTemporary a p' wrap work).run x := by
  subst hp
  have hwithin (s : String) {y z : Moment} (h : Within (S.root ++ dir ++ [a ++ s] <+: ·) y z)
      (hy : P y) : P z := (hP s).inside y z (.of_within h) hy
  have hsafe : R.Safe (fun r z => (∃ e, r = .error (wrap e)) ∧ E.Busy c env G t Z dirs z ∧ P z ∨
      E.Busy c env G t Z dirs z ∧ Q r ∧ P z) (Attempt.inTemporary a (p.joins dir) wrap work).run x := by
    refine inTemporary_busy hR hN hk ht hq hpriv hdirs (hP "").steady
      (fun s y z h hy => hwithin s (h.toWithin.mono fun _ hl => hl ▸ List.prefix_refl _) hy)
      (fun r => (Steady.const _).and (hP "").steady)
      (fun s r y z h hy => ⟨hy.1, hwithin s h.within hy.2⟩) (fun s y hy hd hf _ hPy => ?_) hx hPx
    exact (hwork s y ⟨hy, hd, .of_folder (hf (hstill s)), hPy⟩).weaken fun r z hz =>
      ⟨hz.2.busy, hz.2.directory, hz.1, hz.2.holds⟩
  refine hsafe.weaken fun r z hz => ?_
  rcases hz with ⟨⟨e, rfl⟩, hb, hPz⟩ | ⟨hb, hQ, hPz⟩
  · exact ⟨herr e, hb, hPz⟩
  · exact ⟨hQ, hb, hPz⟩

end Work

theorem Rules.Allows.rests (hk : R.Allows E.Spares) : R.Allows E.Rests := fun x y h => hk x y h.spares

namespace Estate

abbrev translating (E : Estate) (s : String) : Location :=
  E.cache.root ++ [".staging"] ++ ["stanbind_" ++ s]

abbrev compiling (E : Estate) (k : Nat) (s : String) : Location :=
  (E.temp k).root ++ [] ++ ["stanbind_build_" ++ s]

theorem still_translating (E : Estate) (s : String) (rest : List String) :
    E.Still (E.translating s ++ rest) := by
  have hname (s' : String) : "stanbind_" ++ s ≠ "build_" ++ s' := by
    intro h
    have hs := congrArg String.toList h
    simp only [String.toList_append] at hs
    exact absurd (List.cons.inj hs).1 (by decide)
  simpa using still_of_name hname rest

theorem still_compiling (E : Estate) (k : Nat) (s : String) (rest : List String) :
    E.Still (E.compiling k s ++ rest) :=
  still_of_scratch ⟨k, s, by simp⟩

end Estate

section Engine

variable (hE : e.Settled E env) (hR : Workplace R E m env tools) (hk : R.Allows E.Spares)
  (ht : t.WellFormed) (hpriv : G → ∀ l, Private R l)
include hE hR hk ht hpriv

theorem translate_busy {source : String}
    (hdirs : ∀ s, ∀ d ∈ dirs, ¬d <+: E.translating s) (hP : ∀ s, E.Lasts (E.translating s) P)
    (hx : E.Busy e.cache env G t Z dirs x) (hPx : P x) :
    R.Safe (fun _ y => E.Busy e.cache env G t Z dirs y ∧ P y)
      (e.translator.translate source id).run x := by
  have hstart : ∀ s, IsPlain ("stanbind_" ++ s) := plain_of_start (by decide)
  rw [Translator.translate_eq]
  refine .liftThen (hR.quiet (quiet_only (fun _ => Step.isIdle_of_isQuiet) rfl) hk.rests
    (Busy.steady.and (hP "").steady) ⟨hx, hPx⟩) fun v y hv => ?_
  obtain ⟨_, hy, hPy⟩ := hv
  simp only [hE.scratchRoot, Option.getD_some]
  refine (inScratch_busy (Q := fun _ => True) hR (nest_staging hE.serves hstart) hk ht hpriv rfl rfl hdirs
    E.still_translating hP (fun s z hz => ?_) (fun _ => trivial) hy hPy).weaken fun _ _ h => h.2
  have hfile : E.Spells env.location (((Path.inDirectory env.directory e.cache.root).joins
      ([".staging"] ++ ["stanbind_" ++ s])).join (id.name ++ ".stan"))
      (E.translating s ++ [id.name ++ ".stan"]) := by
    have hplain : ∀ n ∈ [".staging", "stanbind_" ++ s, id.name ++ ".stan"], IsPlain n :=
      List.forall_mem_cons.mpr ⟨by decide, List.forall_mem_cons.mpr
        ⟨hstart s, List.forall_mem_singleton.mpr (id.plain_append ".stan")⟩⟩
    rw [Path.joins_join]
    simpa using Spells.cache hE.serves.full (List.cons_ne_nil _ _) hplain
  refine .ofThen (writeText_writing hR hk (E.still_translating s) (hP s) hfile (List.prefix_append _ _) hz)
    (fun _ u hu => ?_) fun _ u hu => ⟨trivial, hu⟩
  exact hR.quiet (transcribe_only (fun _ => Step.isIdle_of_isQuiet) rfl) hk.rests
    (Writing.steady (E.still_translating s) (hP s).steady) hu

omit hE ht hpriv in
theorem writeSources_writing {c : Cache} {sources : List (Path × String)}
    (hstill : ∀ rest, E.Still (d ++ rest)) (hP : E.Lasts d P)
    (hs : ∀ source ∈ sources, ∃ l, E.Spells env.location source.1 l ∧ d <+: l)
    (hx : E.Writing c env G t Z dirs d P x) :
    R.Safe (fun _ y => E.Writing c env G t Z dirs d P y) (Builder.writeSources sources).run x := by
  induction sources generalizing x with
  | nil => exact .done hx (hR.stable (Writing.steady hstill hP.steady))
  | cons source sources ih =>
    obtain ⟨l, hl, hd⟩ := hs source (by simp)
    exact .ofThen (writeText_writing hR hk hstill hP hl hd hx)
      (fun _ y hy => ih (fun source h => hs source (by simp [h])) hy) fun _ y hy => hy

theorem build_busy {source : String} {target : Path}
    (hdirs : ∀ k s, ∀ d ∈ dirs, ¬d <+: E.compiling k s) (hP : ∀ k s, E.Lasts (E.compiling k s) P)
    (hx : E.Busy e.cache env G t Z dirs x) (hPx : P x) :
    R.Safe (fun r y => (∀ output, r = .ok output → ∃ nanos, output.file =
        target.join (ModuleFile.name id (Builder.buildNumber source nanos env.processNumber))) ∧
        E.Busy e.cache env G t Z dirs y ∧ P y)
      (e.builder.build source id target).run x := by
  obtain ⟨k, hk'⟩ := hE.temp
  have hsteady : E.Steady fun x => E.Busy e.cache env G t Z dirs x ∧ P x :=
    Busy.steady.and (hP 0 "").steady
  rw [Builder.build_eq]
  refine .attempt (hR.quiet (find_only (fun _ => Step.isIdle_of_isQuiet) fun _ => rfl) hk.rests hsteady
    ⟨hx, hPx⟩) (fun c y hy => ?_) fun e y hy => ⟨by simp, hy.2⟩
  refine .liftThen (hR.quiet (quiet_only (fun _ => Step.isIdle_of_isQuiet) rfl) hk.rests hsteady hy.2)
    fun v u hu => ?_
  obtain ⟨rfl, hb, hPu⟩ := hu
  refine inScratch_busy hR (nest_scratch hk') hk ht hpriv Path.joins_nil.symm rfl (hdirs k)
    (E.still_compiling k) (hP k) (fun s z hz => ?_) (by simp) hb hPu
  have hfile {n : String} (hn : IsPlain n) : ∃ l, E.Spells v.location
      (((Path.inDirectory v.directory v.temporaryDirectory).joins
        ([] ++ ["stanbind_build_" ++ s])).join n) l ∧ E.compiling k s <+: l := by
    refine ⟨_, ?_, List.prefix_append _ [n]⟩
    rw [Path.joins_join]
    simpa using Spells.temp hk' (List.forall_mem_singleton.mpr hn)
  refine .attempt (writeSources_writing hR hk (E.still_compiling k s) (hP k s) ?_ hz) (fun _ z hz => ?_)
    fun e z hz => ⟨by simp, hz⟩
  · simp only [List.forall_mem_cons]
    exact ⟨hfile (id.plain_append ".cpp"), hfile (by decide), by simp⟩
  · exact hR.quiet (compileFiles_only (fun _ => Step.isIdle_of_isQuiet) fun _ => rfl) hk.rests
      (Writing.steady (E.still_compiling k s) (hP k s).steady) hz

end Engine

end CompiledModels
