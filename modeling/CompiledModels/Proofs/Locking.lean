import CompiledModels.Proofs.Exclusion
import CompiledModels.Proofs.Stages

/-!
The stages of a compile before a build, while nothing else runs: the lock is taken, and what is in
the way is removed.
-/

namespace CompiledModels

open Files Program

variable {α β : Type} {act : Answers} {m : Machine} {E : Estate} {env : Environment} {e : Engine}
  {c : Cache} {tools : Invocation → Prop} {id : ModelIdentity} {x y z : Moment} {w w' : World}

theorem Rules.Safe.ends {R : Rules} {K L : Moment → Moment → Prop} {p : Program α}
    {post : α → Moment → Prop} {a : α} (h : (R.keeping K).Safe post p x) (hs : p.Ends R.act x a y)
    (hrefl : L x x) (htrans : ∀ {y z}, L x y → K y z → L x z) : post a y ∧ L x y :=
  ⟨h.steps_done hs, h.keeps (J := L x) hs hrefl fun _ _ hk hl => htrans hl hk⟩

structure Alters (Z : Location → Prop) (x y : Moment) : Prop extends Changes Z x y where
  past : Unmoving x y

namespace Alters

variable {Z Z' : Location → Prop}

theorem refl (Z : Location → Prop) (x : Moment) : Alters Z x x :=
  ⟨⟨fun _ _ => rfl, id, rfl⟩, .refl x⟩

theorem trans (h : Alters Z x y) (h' : Alters Z y z) : Alters Z x z :=
  ⟨⟨fun l hl => (h'.files l hl).trans (h.files l hl), h'.wellFormed ∘ h.wellFormed,
    h'.environment.trans h.environment⟩, h.past.trans h'.past⟩

theorem mono (h : Alters Z x y) (hz : ∀ l, Z l → Z' l) : Alters Z' x y :=
  ⟨h.toChanges.mono hz, h.past⟩

theorem of_within (h : Within Z x y) : Alters Z x y :=
  have ⟨_, hp, hn⟩ := h.taken
  ⟨h.toChanges, .step hp hn⟩

end Alters

theorem Makes.alters {l : Location} (h : Makes l x y) : Alters (· = l) x y := ⟨h.changes, h.past⟩

theorem Looks.alters (h : Looks x y) (Z : Location → Prop) : Alters Z x y := by
  obtain ⟨⟨events, hw⟩, hp⟩ := h
  have hf : y.files = x.files := by rw [Moment.files, hw]; rfl
  exact ⟨⟨fun _ _ => by rw [hf], fun h => by rwa [hf], by rw [hw]; rfl⟩, hp⟩

structure Locks (E : Estate) (id : ModelIdentity) (x : Moment) (r : Except CacheError Nat) (y : Moment) :
    Prop where
  alters : Alters E.locks x y
  calm : E.Calm y.world
  world : ∃ files seed events,
    y.world = { x.world with files, seed, events, locked := lockOf r ++ x.world.locked }
  free : ∀ n, r = .ok n → n ∉ x.world.locked ∧ E.Numbers id n y.files

section Stages

variable (hact : ∀ w s r w', act w s r w' → Step.flawed m w s r w') (hm : E.Orderly m tools)
include hact

theorem openLockFile_alters {p : Path} (hp : E.Spells env.location p (E.lock id))
    {r : Except FileError Nat} (h : (perform (.openLockFile p)).Ends act x r y) (hx : E.Calm x.world)
    (he : x.world.environment = env) :
    Alters E.locks x y ∧ E.Calm y.world ∧ (∃ files, y.world = { x.world with files }) ∧
      ∀ n, r = .ok n → E.Numbers id n y.files := by
  obtain ⟨w, hr, rfl⟩ := Ends.perform_iff.mp h
  have hn : ¬(Taken.mk (.openLockFile p) r).Moves := by
    rintro ⟨a, b, he⟩
    cases congrArg Taken.step he
  have hsame (hw : w = x.world) : Alters E.locks x (x.after (.openLockFile p) r w) ∧ E.Calm w ∧
      ∃ files, w = { x.world with files } := by
    subst hw
    exact ⟨.of_within (.of_eq hn rfl rfl), hx, x.files, rfl⟩
  have hfailed (hw : w = x.world) (hno : r.isOk = false) :
      Alters E.locks x (x.after (.openLockFile p) r w) ∧ E.Calm w ∧
        (∃ files, w = { x.world with files }) ∧ ∀ n, r = .ok n → E.Numbers id n w.files := by
    obtain ⟨ha, hc, hf⟩ := hsame hw
    refine ⟨ha, hc, hf, ?_⟩
    rintro n rfl
    simp [Except.isOk, Except.toBool] at hno
  rcases hact _ _ _ _ hr with hexec | ⟨hfails | hdenies, -⟩
  · subst he
    obtain ⟨⟨hcalm, -, -, -⟩, hnumbers⟩ := Estate.openLockFile_upholds hx hp hexec
    simp only [Step.answers, Step.exec] at hexec
    split at hexec
    case h_2 err herr =>
      obtain ⟨rfl, hw⟩ := Prod.mk.inj (Option.some.inj hexec)
      exact hfailed hw.symm rfl
    case h_1 n t ht =>
      obtain ⟨-, rfl⟩ := Prod.mk.inj (Option.some.inj hexec)
      obtain ⟨l, hl, ht⟩ := Tree.openOrCreate_eq_ok.mp ht
      obtain ⟨rfl, dir, s, hd, -, -⟩ := hp.resolve hx.sound hl
      refine ⟨.of_within (.of_tree hn hcalm.sound.cache.wellFormed fun k hk => ?_), hcalm, ⟨t, rfl⟩,
        hnumbers⟩
      rcases ht with ⟨_, _, -, rfl⟩ | ⟨-, -, -, rfl⟩
      · rfl
      · rw [Tree.get?_insertFile (by simp [Estate.lock]), if_neg]
        rintro rfl
        exact hk ⟨[id.name ++ ".lock"], by simp [Estate.lock]⟩
  · exact hfails.elim
  · exact hfailed hdenies.2 hdenies.1

include hm

theorem lock_ends (hS : E.cache.Serves env c.root) {r : Except CacheError Nat}
    (h : (c.lock id).run.Ends act x r y) (hx : E.Calm x.world) (he : x.world.environment = env) :
    Locks E id x r y := by
  have hcreate : Behaves E env tools (fun _ => True) (createAll c.locksDirectory) :=
    createAll_behaves hS (by decide)
  have hmade {a : Except FileError Unit} {z : Moment} (hz : (createAll c.locksDirectory).Ends act x a z) :
      Alters E.locks x z ∧ E.Calm z.world ∧ z.world.environment = env ∧
        ∃ files seed events, z.world = { x.world with files, seed, events } := by
    obtain ⟨⟨-, hu⟩, -⟩ := hcreate.ends hact hm hz hx he
    exact ⟨(createAll_makes hact hm hS (by decide) hz hx he).1.alters.mono fun l hl => hl ▸ List.prefix_refl _,
      hu.calm, hu.environment.trans he, hcreate.aside hact hm createAll_brief hz hx he⟩
  rcases Ends.ofThen_iff.mp h with ⟨err, hz, rfl⟩ | ⟨_, z, hz, hrest⟩
  · obtain ⟨ha, hc, -, hw⟩ := hmade hz
    exact ⟨ha, hc, hw, by simp⟩
  obtain ⟨ha, hc, hez, files, seed, events, hw⟩ := hmade hz
  have hp : E.Spells env.location (c.lockFile id) (E.lock id) := by
    rw [Cache.lockFile_eq]
    exact .cache hS.leads (by simp) (List.forall_mem_cons.mpr ⟨by decide,
      List.forall_mem_singleton.mpr (id.plain_append ".lock")⟩)
  have hopened {a : Except FileError Nat} {u : Moment}
      (hu : (perform (.openLockFile (c.lockFile id))).Ends act z a u) :
      Alters E.locks x u ∧ E.Calm u.world ∧
        (∃ files seed events, u.world = { x.world with files, seed, events }) ∧
        ∀ n, a = .ok n → E.Numbers id n u.files := by
    obtain ⟨ha', hc', ⟨files', hw'⟩, hnumbers⟩ := openLockFile_alters hact hp hu hc hez
    exact ⟨ha.trans ha', hc', ⟨files', seed, events, by rw [hw', hw]⟩, hnumbers⟩
  rcases Ends.ofThen_iff.mp hrest with ⟨err, hu, rfl⟩ | ⟨n, u, hu, hrest⟩
  · obtain ⟨ha, hc, hw, -⟩ := hopened hu
    exact ⟨ha, hc, hw, by simp⟩
  obtain ⟨ha, hc, ⟨files, seed, events, hw⟩, hnumbers⟩ := hopened hu
  have hn (a : Except FileError Unit) : ¬(Taken.mk (.acquire n) a).Moves := by
    rintro ⟨_, _, he⟩
    cases congrArg Taken.step he
  rcases Ends.ofThen_iff.mp hrest with ⟨err, hv, rfl⟩ | ⟨_, v, hv, hrest⟩
  · obtain ⟨w, hr, rfl⟩ := Ends.perform_iff.mp hv
    rcases hact _ _ _ _ hr with hexec | ⟨hfails | hdenies, -⟩
    · simp only [Step.answers, Step.exec] at hexec
      split at hexec <;> simp at hexec
    · exact hfails.elim
    · obtain ⟨-, rfl⟩ := hdenies
      exact ⟨ha.trans (.of_within (.of_eq (hn _) rfl rfl)), hc, ⟨files, seed, events, hw⟩, by simp⟩
  · obtain ⟨w, hr, rfl⟩ := Ends.perform_iff.mp hv
    obtain ⟨rfl, rfl⟩ := Ends.return_iff.mp hrest
    rcases hact _ _ _ _ hr with hexec | ⟨hfails | hdenies, -⟩
    · simp only [Step.answers, Step.exec] at hexec
      split at hexec
      case isTrue => simp at hexec
      case isFalse hfree =>
        obtain ⟨-, rfl⟩ := Prod.mk.inj (Option.some.inj hexec)
        refine ⟨ha.trans (.of_within (.of_eq (hn _) rfl rfl)), ⟨hc.sound, hc.tame⟩,
          ⟨files, seed, events, ?_⟩, ?_⟩
        · simp [hw, lockOf]
        · rintro n ⟨⟩
          exact ⟨by simpa [hw] using hfree, hnumbers _ rfl⟩
    · exact hfails.elim
    · exact absurd hdenies.1 (by simp [Except.isOk, Except.toBool])

end Stages

structure Removes (E : Estate) (id : ModelIdentity) (x : Moment) (r : Except CacheError Unit)
    (y : Moment) : Prop where
  alters : Alters (E.cache.entry id <+: ·) x y
  calm : E.Calm y.world
  aside : x.world.Aside y.world
  fewer : ∀ l, y.files.get? l = x.files.get? l ∨ y.files.get? l = none
  gone : r = .ok () → y.files.Bare (E.cache.entry id) ∧ y.files.Spot E.cache.models

inductive Taken.Vacates (p : Path) : Taken → Prop
  | file : Vacates p ⟨.removeFile p, .ok ()⟩
  | directory : Vacates p ⟨.removeDirectory p, .ok ()⟩
  | missing (s : Step) (r : s.Reply)
      (hs : s = .stat p false ∨ s = .list p ∨ s = .removeDirectory p ∨ s = .removeFile p)
      (hr : s.Misses r) : Vacates p ⟨s, r⟩

inductive Missed (act : Answers) (p : Path) : Moment → Prop
  | mk (z : Moment) (s : Step) (r : s.Reply) (w : World) (h : act z.world s r w)
      (hv : Taken.Vacates p ⟨s, r⟩) : Missed act p (z.after s r w)

section Removing

variable {p : Path}

theorem removeEach_missed {remove : DirectoryEntry → Program (Except FileError Unit)}
    {es : List DirectoryEntry} {err : FileError} (h : (removeEach remove es).Ends act x (.error err) y) :
    err.isMissing = false := by
  induction es generalizing x with
  | nil => simpa using (Ends.pure_iff.mp h).1
  | cons e es ih =>
    obtain ⟨r, z, -, h⟩ := Ends.bind_iff.mp h
    cases r with
    | ok _ => exact ih h
    | error err' =>
      simp only at h
      split at h
      case isTrue => exact ih h
      case isFalse hn =>
        obtain ⟨he, -⟩ := Ends.pure_iff.mp h
        rw [Except.error.inj he]
        simpa using hn

theorem removeBelow_missed {nesting : Nat} {r : Except FileError Unit}
    (h : (removeBelow nesting p).Ends act x r y) (hr : ∀ err, r = .error err → err.isMissing = true) :
    Missed act p y := by
  cases nesting with
  | zero =>
    obtain ⟨rfl, -⟩ := Ends.pure_iff.mp h
    exact absurd (hr _ rfl) (by decide)
  | succ nesting =>
    obtain ⟨a, z, hz, h⟩ := Ends.bind_iff.mp h
    obtain ⟨w, hw, rfl⟩ := Ends.perform_iff.mp hz
    cases a with
    | error err =>
      obtain ⟨rfl, rfl⟩ := Ends.pure_iff.mp h
      exact .mk x (.list p) _ w hw (.missing _ _ (by simp) ⟨err, rfl, hr err rfl⟩)
    | ok es =>
      obtain ⟨b, u, hu, h⟩ := Ends.bind_iff.mp h
      cases b with
      | error err =>
        obtain ⟨rfl, rfl⟩ := Ends.pure_iff.mp h
        exact absurd (hr err rfl) (by simp [removeEach_missed hu])
      | ok _ =>
        obtain ⟨d, v, hv, h⟩ := Ends.bind_iff.mp h
        obtain ⟨w', hw', rfl⟩ := Ends.perform_iff.mp hv
        cases d with
        | ok _ =>
          obtain ⟨-, rfl⟩ := Ends.pure_iff.mp h
          exact .mk u _ _ w' hw' .directory
        | error err =>
          simp only at h
          split at h
          case isTrue hmiss =>
            obtain ⟨-, rfl⟩ := Ends.pure_iff.mp h
            exact .mk u (.removeDirectory p) _ w' hw' (.missing _ _ (by simp) ⟨err, rfl, hmiss⟩)
          case isFalse hmiss =>
            obtain ⟨rfl, -⟩ := Ends.pure_iff.mp h
            exact absurd (hr err rfl) hmiss

theorem removeAll_missed {r : Except FileError Unit} (h : (removeAll p).Ends act x r y)
    (hr : ∀ err, r = .error err → err.isMissing = true) : Missed act p y := by
  obtain ⟨a, z, hz, h⟩ := Ends.bind_iff.mp h
  obtain ⟨w, hw, rfl⟩ := Ends.perform_iff.mp hz
  cases a with
  | error err =>
    obtain ⟨rfl, rfl⟩ := Ends.pure_iff.mp h
    exact .mk x (.stat p false) _ w hw (.missing _ _ (by simp) ⟨err, rfl, hr err rfl⟩)
  | ok n =>
    cases n with
    | directory => exact removeBelow_missed h hr
    | link target =>
      obtain ⟨w', hw', rfl⟩ := Ends.perform_iff.mp h
      cases r with
      | ok _ => exact .mk _ _ _ w' hw' .file
      | error err => exact .mk _ (.removeFile p) _ w' hw' (.missing _ _ (by simp) ⟨err, rfl, hr err rfl⟩)
    | _ =>
      obtain ⟨rfl, -⟩ := Ends.pure_iff.mp h
      exact absurd (hr _ rfl) (by decide)

theorem removeDirectory_missed (h : (Cache.removeDirectory p).run.Ends act x (.ok ()) y) :
    Missed act p y := by
  obtain ⟨a, z, hz, h⟩ := Ends.liftThen_iff.mp h
  cases a with
  | ok _ =>
    obtain ⟨-, rfl⟩ := Ends.return_iff.mp h
    exact removeAll_missed hz (by simp)
  | error err =>
    simp only at h
    split at h
    case isTrue hmiss =>
      obtain ⟨-, rfl⟩ := Ends.return_iff.mp h
      exact removeAll_missed hz fun _ he => Except.error.inj he ▸ hmiss
    case isFalse => simpa using (Ends.throw_iff.mp h).1

end Removing

theorem bare_of_vacates {s : Step} {r : s.Reply} (hw : E.Calm w) (hS : E.cache.Serves w.environment c.root)
    (h : s.exec m w = some (r, w')) (hv : Taken.Vacates (c.entryDirectory id) ⟨s, r⟩) :
    w'.files.Bare (E.cache.entry id) ∧ w'.files.Spot E.cache.models := by
  have hplain : ∀ s ∈ [ModelIdentity.modelNamespace, id.name], IsPlain s :=
    List.forall_mem_cons.mpr ⟨by decide, List.forall_mem_singleton.mpr id.isPlain⟩
  have hunlinked {follow : Bool} : w.files.Unlinked follow E.cache.root [ModelIdentity.modelNamespace, id.name] :=
    fun pre _ _ _ => hw.sound.clean _ (.inl (List.prefix_append _ _))
  have hleads := hS.leads _ hw.sound.cache
  have hwf := hw.sound.cache.wellFormed
  have herased {t : Tree} (ht : t.WellFormed) (hg : w.files.get? (E.cache.entry id) ≠ none)
      (hget : ∀ k, t.get? k = if k = E.cache.entry id then none else w.files.get? k) :
      t.Bare (E.cache.entry id) ∧ t.Spot E.cache.models := by
    refine ⟨ht.bare ((hget _).trans (if_pos rfl)), .inr ?_⟩
    have hne : E.cache.models ≠ E.cache.entry id := fun h =>
      E.cache.not_entry_models id (h ▸ List.prefix_refl _)
    rw [hget, if_neg hne]
    rw [Site.entry_eq] at hg
    exact hwf.get?_parent hg
  have hgone {follow : Bool} {err : FileError} (hmissing : err.isMissing = true)
      (hk : w.files.resolve w.directory follow (c.entryDirectory id) = .error err ∨ ∃ k,
        w.files.resolve w.directory follow (c.entryDirectory id) = .ok k ∧ w.files.get? k = none) :
      w.files.Bare (E.cache.entry id) ∧ w.files.Spot E.cache.models := by
    rw [Cache.entryDirectory_eq] at hk
    obtain ⟨hg, hspot⟩ := Tree.joins_missing hmissing hleads hwf (by simp) hplain hunlinked hk
    exact ⟨hwf.bare hg, hspot [ModelIdentity.modelNamespace] ⟨[id.name], rfl⟩ (by simp)⟩
  cases hv with
  | file =>
    rcases Step.settles_of_onFiles (Option.some.inj h) with ⟨err, herr, -⟩ | ⟨-, t, ht, rfl⟩
    · simp at herr
    · rw [Cache.entryDirectory_eq] at ht
      obtain ⟨⟨n, hn, -⟩, ht, hget⟩ := Tree.removeFile_joins hleads hwf (by simp) hplain hunlinked ht
      exact herased ht (by rw [show w.files.get? (E.cache.entry id) = some n from hn]; simp) hget
  | directory =>
    rcases Step.settles_of_onFiles (Option.some.inj h) with ⟨err, herr, -⟩ | ⟨-, t, ht, rfl⟩
    · simp at herr
    · rw [Cache.entryDirectory_eq] at ht
      obtain ⟨hn, ht, hget⟩ := Tree.removeDirectory_joins hleads hwf (by simp) hplain hunlinked ht
      exact herased ht (by rw [show w.files.get? (E.cache.entry id) = _ from hn]; simp) hget
  | missing s r hs hmiss =>
    rcases hs with rfl | rfl | rfl | rfl
    · obtain ⟨err, rfl, hmissing⟩ := hmiss
      obtain ⟨hstat, rfl⟩ := Prod.mk.inj (Option.some.inj h)
      exact hgone hmissing (Tree.stat_missing hstat)
    · obtain ⟨err, rfl, hmissing⟩ := hmiss
      obtain ⟨hlist, rfl⟩ := Prod.mk.inj (Option.some.inj h)
      exact hgone hmissing (Tree.list_missing hmissing hlist)
    · obtain ⟨err, rfl, hmissing⟩ := hmiss
      have herr := Step.eq_error_of_onFiles (Option.some.inj h)
      obtain ⟨-, -, rfl⟩ | ⟨hok, -⟩ := Step.settles_of_onFiles (Option.some.inj h)
      · exact hgone hmissing (Tree.removeDirectory_missing hmissing herr)
      · simp at hok
    · obtain ⟨err, rfl, hmissing⟩ := hmiss
      have herr := Step.eq_error_of_onFiles (Option.some.inj h)
      obtain ⟨-, -, rfl⟩ | ⟨hok, -⟩ := Step.settles_of_onFiles (Option.some.inj h)
      · exact hgone hmissing (Tree.removeFile_missing hmissing herr)
      · simp at hok

theorem Step.answers_of_vacates {s : Step} {r : s.Reply} {p : Path} (h : Step.flawed m w s r w')
    (hv : Taken.Vacates p ⟨s, r⟩) : Step.answers m w s r w' := by
  cases hv with
  | missing _ _ _ hr => exact answers_of_misses h hr
  | _ =>
    rcases h with h | ⟨⟨hfail, -⟩ | hdeny, -⟩
    · exact h
    · cases hfail
    · exact hdeny.elim

section Stages

variable (hact : ∀ w s r w', act w s r w' → Step.flawed m w s r w') (hm : E.Orderly m tools)
  (hS : E.cache.Serves env c.root)
include hact hm hS

theorem delete_gone (h : (c.delete id).run.Ends act x (.ok ()) y) (hx : E.Calm x.world)
    (he : x.world.environment = env) :
    y.files.Bare (E.cache.entry id) ∧ y.files.Spot E.cache.models := by
  have hbehaves : Behaves E env tools (fun _ => True) (c.delete id).run := delete_behaves hS
  have hends := (hbehaves.ends hact hm h hx he).2 fun _ _ => True
  have hR : Workplace (.working act E env tools fun _ _ => True) E m env tools :=
    Workplace.working hact hm
  obtain ⟨z, s, r, w, hr, hv⟩ := removeDirectory_missed hends
  obtain ⟨hcalm, henv, -⟩ := hR.calm hr
  exact bare_of_vacates hcalm (henv ▸ hS) (Step.answers_of_vacates (hact _ _ _ _ hr.1) hv) hv

theorem delete_ends {r : Except CacheError Unit} (h : (c.delete id).run.Ends act x r y)
    (hx : E.Calm x.world) (he : x.world.environment = env) : Removes E id x r y := by
  have hbehaves : Behaves E env tools (fun _ => True) (c.delete id).run := delete_behaves hS
  obtain ⟨⟨-, hu⟩, hends⟩ := hbehaves.ends hact hm h hx he
  have hR : Workplace (.working act E env tools fun _ _ => True) E m env tools :=
    Workplace.working hact hm
  have hstay (P : Moment → Prop) : (Rules.working act E env tools fun _ _ => True).Stable P :=
    Rules.alone_stable _ _ P
  have hplain : ∀ s ∈ [ModelIdentity.modelNamespace, id.name], IsPlain s :=
    List.forall_mem_cons.mpr ⟨by decide, List.forall_mem_singleton.mpr id.isPlain⟩
  have hremoved : Alters (E.cache.entry id <+: ·) x y ∧
      ∀ l, y.files.get? l = x.files.get? l ∨ y.files.get? l = none := by
    have hsafe := removeAll_bare (G := False) (q := c.root) hR.cache hS.leads (by simp) (hstay _)
      (fun _ => hstay _) False.elim ⟨hx.sound.cache, he⟩ hplain
      (fun pre _ _ _ => hx.sound.clean _ (.inl (List.prefix_append _ _))) False.elim
    obtain ⟨a, z, hz, hrest⟩ := Ends.liftThen_iff.mp (hends fun _ _ => True)
    have hy : y = z := by
      cases a with
      | ok _ => exact (Ends.return_iff.mp hrest).2
      | error err =>
        simp only at hrest
        split at hrest
        · exact (Ends.return_iff.mp hrest).2
        · exact (Ends.throw_iff.mp hrest).2
    rw [Cache.entryDirectory_eq] at hz
    refine hy ▸ (hsafe.ends (L := fun x z => Alters (E.cache.entry id <+: ·) x z ∧
      ∀ l, z.files.get? l = x.files.get? l ∨ z.files.get? l = none) hz ⟨.refl _ _, fun _ => .inl rfl⟩
        fun h h' => ⟨h.1.trans (.of_within h'.within), fun l => ?_⟩).2
    rcases h'.gone l with hl | hl
    · rw [hl]
      exact h.2 l
    · exact .inr hl
  refine ⟨hremoved.1, hu.calm, hbehaves.aside hact hm removeDirectory_brief h hx he, hremoved.2, ?_⟩
  rintro rfl
  exact delete_gone hact hm hS h hx he

end Stages

end CompiledModels
