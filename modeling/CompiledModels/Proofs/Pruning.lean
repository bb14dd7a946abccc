import CompiledModels.Engine
import CompiledModels.Proofs.Alone
import CompiledModels.Proofs.Drift
import CompiledModels.Proofs.Naming

/-!
Programs that change no file, and programs that only take files away: of what is removed with all
that is in it, nothing else is touched, whatever links there are.
-/

namespace CompiledModels

open Files Program

variable {α ε : Type} {m : Machine} {w w' : World} {x : Moment}

def Custom.still : Custom where
  sound _ := True
  may := Eq
  refl _ := rfl
  trans := Eq.trans
  keeps _ _ := trivial

theorem Custom.still_calm (h : w.children = []) : Custom.still.Calm w :=
  ⟨trivial, by simp [h]⟩

def Step.isStill : Step → Bool
  | .start _ => false
  | s => s.isIdle

theorem Step.still_drifts {s : Step} {r : s.Reply} (hs : s.isStill = true) (hw : Custom.still.Calm w)
    (h : s.exec m w = some (r, w')) : Custom.still.Drifts w w' := by
  refine Custom.idle_drifts ?_ hw (fun i a hi => ?_) h
  · cases s <;> first | exact hs | cases hs
  · subst hi
    cases hs

abbrev Program.Still (p : Program α) : Prop :=
  p.Only (fun _ _ => True) (·.isStill = true) fun _ => True

theorem Program.Only.keeps_still {p : Program α} {post : α → Prop}
    (h : p.Only (fun _ _ => True) (·.isStill = true) post) (hx : Custom.still.Calm x.world) :
    (Rules.alone (Step.answers m) fun y z => Custom.still.Calm y.world →
      Custom.still.Drifts y.world z.world).Safe
      (fun a y => post a ∧ Custom.still.Drifts x.world y.world) p x := by
  refine h.safe (J := fun y => Custom.still.Drifts x.world y.world) (.of_eq hx rfl rfl rfl rfl)
    (Rules.alone_stable _ _ _) fun y s r w hy hs hr => ?_
  have hd := Step.still_drifts hs (hy.calm hx) hr
  exact ⟨trivial, fun _ => hd, hy.trans hd⟩

section Still

theorem still_perform {s : Step} (h : s.isStill = true) : (perform s).Still :=
  .perform h fun _ _ => trivial

theorem still_of {ε' : Type} {p : Program (Except ε' α)} (h : p.Still) (wrap : ε' → ε) :
    (Attempt.of p wrap).run.Still :=
  .of h (fun _ _ => trivial) fun _ _ => trivial

theorem still_looks {c : Cache} {id : ModelIdentity} (s : Step) (h : s.LooksAt c id) :
    s.isStill = true := by
  cases s <;> first | rfl | exact h.elim

theorem readText_still (p : Path) : (readText p).Still := readText_only rfl

theorem isDirectory_still (p : Path) : (isDirectory p).Still := isDirectory_only rfl

theorem pathExists_still (p : Path) : (pathExists p).Still := pathExists_only rfl

theorem Translator.ofConfig_still (c : Config) : (Translator.ofConfig c).Still := by
  unfold ofConfig
  cases c.translator with
  | some p => trivial
  | none =>
    refine .next (Q := fun _ => True) ?_ fun _ _ => trivial
    refine .next (still_perform rfl) fun e _ => ?_
    split
    · trivial
    · split
      · trivial
      · exact .next (isFile_only rfl) fun b _ => by split <;> trivial

theorem Engine.evaluate_still {e : Engine} {id : ModelIdentity} {data : ModelData} {r : Request} :
    (e.evaluate id data r).run.Still := by
  have hmodule : (e.module id).run.Still := by
    refine .liftThen (Q := fun _ => True) ((modulePath_only still_looks).weaken fun _ _ => trivial)
      fun o _ => ?_
    cases o with
    | none => trivial
    | some p => exact still_of (still_perform rfl) _
  refine .ofThen hmodule (fun a _ => ?_) fun _ _ => trivial
  refine still_of ?_ _
  exact .next (still_perform rfl) fun _ _ => .next (still_perform rfl) fun _ _ =>
    .next (still_perform rfl) fun _ _ => trivial

end Still

section Pruning

namespace Files.Tree

variable {t t' t'' : Tree} {P : Location → Prop} {cwd l dir : Location} {names : List String}
  {links : Nat} {p : Path}

def Prunes (P : Location → Prop) (t t' : Tree) : Prop :=
  ∀ l, t'.get? l = t.get? l ∨ t'.get? l = none ∧ P l

theorem Prunes.extends (h : t.Prunes P t') : t.Extends t' := fun l hl =>
  ((h l).resolve_right fun h => hl h.1).symm

theorem Prunes.erase (h : t.Prunes P t') (hl : l ≠ []) (hp : P l) : t.Prunes P (t'.erase l) := by
  intro k
  rw [get?_erase hl]
  split
  case isTrue heq => exact .inr ⟨rfl, heq ▸ hp⟩
  case isFalse => exact h k

theorem descend_unfollow (t : Tree) (dir : Location) (names : List String) :
    (∃ k, t.descend false dir names = .reached k) ∨
      t.descend true dir names = t.descend false dir names := by
  by_cases h : ∃ k, t.descend false dir names = .reached k
  · exact .inl h
  · exact .inr (descend_follow fun k hk => absurd ⟨k, hk⟩ h)

theorem resolveFrom_unfollow (h : t.resolveFrom true links dir names = .ok l) :
    ∃ k, t.resolveFrom false links dir names = .ok k := by
  induction links generalizing dir names with
  | zero =>
    unfold resolveFrom at h ⊢
    rcases descend_unfollow t dir names with ⟨k, hk⟩ | hsame
    · exact ⟨k, by rw [hk]⟩
    · exact ⟨l, hsame ▸ h⟩
  | succ links ih =>
    unfold resolveFrom at h ⊢
    rcases descend_unfollow t dir names with ⟨k, hk⟩ | hsame
    · exact ⟨k, by rw [hk]⟩
    · rw [hsame] at h
      cases hd : t.descend false dir names with
      | reached k => exact ⟨k, rfl⟩
      | failed e => simp [hd] at h
      | through d target rest =>
        simp only [hd] at h
        exact ih h

theorem resolve_unfollow (hp : p.tail ≠ []) (h : t.resolve cwd true p = .ok l) :
    ∃ k, t.resolve cwd false p = .ok k := by
  obtain ⟨hnul, hshort, hfrom⟩ := (resolve_eq_ok hp).mp h
  obtain ⟨k, hk⟩ := resolveFrom_unfollow hfrom
  exact ⟨k, (resolve_eq_ok hp).mpr ⟨hnul, hshort, hk⟩⟩

end Files.Tree

structure Pruning (t₀ : Tree) (env : Environment) (P : Location → Prop) (w : World) : Prop where
  files : t₀.Prunes P w.files
  wellFormed : w.files.WellFormed
  environment : w.environment = env
  calm : Custom.still.Calm w

variable {t₀ : Tree} {env : Environment} {P : Location → Prop} {p q : Path}

abbrev Rules.pruning (m : Machine) (t₀ : Tree) (env : Environment) (P : Location → Prop) : Rules :=
  .alone (Step.answers m) fun y z => Pruning t₀ env P y.world → Pruning t₀ env P z.world

namespace Pruning

theorem drifts (h : Pruning t₀ env P w) (hd : Custom.still.Drifts w w') : Pruning t₀ env P w' where
  files := (show w.files = w'.files from hd.files) ▸ h.files
  wellFormed := (show w.files = w'.files from hd.files) ▸ h.wellFormed
  environment := hd.environment.trans h.environment
  calm := hd.calm h.calm

theorem resolve (h : Pruning t₀ env P w) {follow : Bool} {l : Location}
    (hr : w.files.resolve w.directory follow p = .ok l) (hl : w.files.get? l ≠ none) :
    t₀.resolve env.location follow p = .ok l ∧ t₀.get? l = w.files.get? l := by
  rw [World.directory, h.environment] at hr
  exact ⟨Tree.resolve_extends h.files.extends hr hl, h.files.extends l hl⟩

theorem erase (h : Pruning t₀ env P w) {l : Location} (hl : l ≠ []) (hp : P l)
    (hn : ∀ rest, rest ≠ [] → w.files.get? (l ++ rest) = none) :
    Pruning t₀ env P { w with files := w.files.erase l } where
  files := h.files.erase hl hp
  wellFormed := h.wellFormed.erase hl hn
  environment := h.environment
  calm := ⟨trivial, h.calm.tame⟩

theorem safe_still {p : Program α} (hp : p.Still) (h : Pruning t₀ env P x.world) :
    (Rules.pruning m t₀ env P).Safe (fun _ y => Pruning t₀ env P y.world) p x := by
  refine (hp.safe (J := fun y => Pruning t₀ env P y.world) h (Rules.alone_stable _ _ _)
    fun y s r w hy hs hr => ?_).weaken fun _ _ h => h.2
  have hd := Step.still_drifts hs hy.calm hr
  exact ⟨trivial, fun hy => hy.drifts hd, hy.drifts hd⟩

theorem of_onFiles (h : Pruning t₀ env P w) {op : Except FileError Tree} {r : Except FileError Unit}
    (hop : ∀ t, op = .ok t → Pruning t₀ env P { w with files := t }) (hr : Step.onFiles w op = (r, w')) :
    Pruning t₀ env P w' := by
  rcases Step.settles_of_onFiles hr with ⟨_, _, rfl⟩ | ⟨_, t, ht, rfl⟩
  · exact h
  · exact hop t ht

theorem safe_removeFile (h : Pruning t₀ env P x.world)
    (hp : ∀ l, t₀.resolve env.location false p = .ok l → P l) :
    (Rules.pruning m t₀ env P).Safe (fun _ y => Pruning t₀ env P y.world)
      (perform (.removeFile p)) x := by
  apply Rules.Safe.perform
  rintro y rfl r w hr
  suffices hw : Pruning t₀ env P w from ⟨fun _ => hw, fun z hz => hz ▸ hw⟩
  refine h.of_onFiles (fun t ht => ?_) (Option.some.inj hr)
  obtain ⟨l, hl, n, hn, hdir, rfl⟩ := Tree.removeFile_eq_ok.mp ht
  obtain ⟨hres, -⟩ := h.resolve hl (by simp [hn])
  have hnot : x.world.files.get? l ≠ some .directory := fun hd => by
    rw [hn, Option.some.injEq] at hd
    simp [hd, Node.isDirectory] at hdir
  refine h.erase (fun hnil => hnot (by rw [hnil]; rfl)) (hp l hres) fun rest hrest => ?_
  exact h.wellFormed.get?_below hnot hrest

theorem safe_removeDirectory (h : Pruning t₀ env P x.world)
    (hp : ∀ l, t₀.resolve env.location false p = .ok l → P l) :
    (Rules.pruning m t₀ env P).Safe (fun _ y => Pruning t₀ env P y.world)
      (perform (.removeDirectory p)) x := by
  apply Rules.Safe.perform
  rintro y rfl r w hr
  suffices hw : Pruning t₀ env P w from ⟨fun _ => hw, fun z hz => hz ▸ hw⟩
  refine h.of_onFiles (fun t ht => ?_) (Option.some.inj hr)
  obtain ⟨l, hl, hn, hnil, hchildren, rfl⟩ := Tree.removeDirectory_eq_ok.mp ht
  obtain ⟨hres, -⟩ := h.resolve hl (by simp [hn])
  exact h.erase hnil (hp l hres) fun rest hrest => h.wellFormed.get?_below_empty hchildren hrest

theorem safe_list (h : Pruning t₀ env P x.world) : (Rules.pruning m t₀ env P).Safe
    (fun r y => Pruning t₀ env P y.world ∧ r = y.world.files.list y.world.directory p)
    (perform (.list p)) x := by
  refine Rules.Safe.perform (s := .list p) ?_
  rintro y rfl r w hr
  obtain ⟨hlist, rfl⟩ := Prod.mk.inj (Option.some.inj hr)
  exact ⟨fun h => h, fun z hz => hz ▸ ⟨h, hlist.symm⟩⟩

theorem safe_stat {follow : Bool} (h : Pruning t₀ env P x.world) : (Rules.pruning m t₀ env P).Safe
    (fun r y => Pruning t₀ env P y.world ∧ r = y.world.files.stat y.world.directory follow p)
    (perform (.stat p follow)) x := by
  refine Rules.Safe.perform (s := .stat p follow) ?_
  rintro y rfl r w hr
  obtain ⟨hstat, rfl⟩ := Prod.mk.inj (Option.some.inj hr)
  exact ⟨fun h => h, fun z hz => hz ▸ ⟨h, hstat.symm⟩⟩

theorem safe_removeEach {remove : DirectoryEntry → Program (Except FileError Unit)}
    (es : List DirectoryEntry) (hr : ∀ e ∈ es, ∀ y, Pruning t₀ env P y.world →
      (Rules.pruning m t₀ env P).Safe (fun _ z => Pruning t₀ env P z.world) (remove e) y)
    (h : Pruning t₀ env P x.world) : (Rules.pruning m t₀ env P).Safe
      (fun _ y => Pruning t₀ env P y.world) (removeEach remove es) x := by
  induction es generalizing x with
  | nil => exact .pure fun z hz => hz ▸ h
  | cons e es ih =>
    refine .next (hr e List.mem_cons_self x h) fun r y hy => ?_
    have hes := ih (fun e he => hr e (List.mem_cons_of_mem _ he)) hy
    cases r with
    | ok _ => exact hes
    | error err =>
      simp only
      split
      · exact hes
      · exact .pure fun z hz => hz ▸ hy

theorem safe_removeBelow (nesting : Nat) (hq : q.tail ≠ [])
    (hp : ∀ k, t₀.resolve env.location false q = .ok k →
      t₀.get? k = some .directory ∧ ∀ rest, P (k ++ rest)) (h : Pruning t₀ env P x.world) :
    (Rules.pruning m t₀ env P).Safe (fun _ y => Pruning t₀ env P y.world)
      (removeBelow nesting q) x := by
  induction nesting generalizing q x with
  | zero => exact .pure fun z hz => hz ▸ h
  | succ nesting ih =>
    refine .next (safe_list h) fun r x ⟨h, hr⟩ => ?_
    cases r with
    | error e => exact .pure fun z hz => hz ▸ h
    | ok es =>
      have hlist := hr.symm
      obtain ⟨k, hk, hdir, rfl⟩ := Tree.list_eq_ok.mp hlist
      obtain ⟨hres, -⟩ := h.resolve hk (by simp [hdir])
      obtain ⟨k', hk'⟩ := Tree.resolve_unfollow hq hres
      obtain ⟨hdir', hbelow⟩ := hp k' hk'
      obtain rfl : k' = k := Except.ok.inj ((Tree.resolve_follow hk' fun _ => by simp [hdir']).symm.trans hres)
      have hjoin {e : DirectoryEntry} (he : IsPlain e.name) {l : Location}
          (hl : t₀.resolve env.location false (q.join e.name) = .ok l) : l = k' ++ [e.name] := by
        obtain ⟨d, hd, rfl⟩ := Tree.resolve_join he hq hl
        rw [Except.ok.inj (hd.symm.trans hres)]
      refine .next (safe_removeEach _ (fun e he y hy => ?_) h) fun r y hy => ?_
      · obtain ⟨n, hn, hisDir⟩ := h.wellFormed.mem_children.mp he
        have hplain := (h.wellFormed.proper_name (by simp [hn] : x.world.files.get? (k' ++ [e.name]) ≠ none)).1
        split
        case isTrue hd =>
          refine ih (by simp [Path.join]) (fun l hl => ?_) hy
          rw [hjoin hplain hl, h.files.extends _ (by simp [hn]), hn]
          have hnode : n = .directory := by
            rw [hd] at hisDir
            cases n <;> simp [Node.isDirectory] at hisDir ⊢
          exact ⟨congrArg _ hnode, fun rest => by rw [List.append_assoc]; exact hbelow _⟩
        case isFalse =>
          exact hy.safe_removeFile fun l hl => hjoin hplain hl ▸ hbelow _
      · cases r with
        | error e => exact .pure fun z hz => hz ▸ hy
        | ok _ =>
          refine .next (hy.safe_removeDirectory fun l hl => ?_) fun r z hz => ?_
          · have := (hp l hl).2 []
            rwa [List.append_nil] at this
          · cases r with
            | ok _ => exact .pure fun u hu => hu ▸ hz
            | error e =>
              simp only
              split <;> exact .pure fun u hu => hu ▸ hz

theorem safe_removeAll (hq : q.tail ≠ [])
    (hp : ∀ k, t₀.resolve env.location false q = .ok k → ∀ rest, P (k ++ rest))
    (h : Pruning t₀ env P x.world) :
    (Rules.pruning m t₀ env P).Safe (fun _ y => Pruning t₀ env P y.world) (removeAll q) x := by
  refine .next (safe_stat h) fun r x ⟨h, hr⟩ => ?_
  cases r with
  | error e => exact .pure fun z hz => hz ▸ h
  | ok n =>
    obtain ⟨k, hk, hn⟩ := Tree.stat_eq_ok.mp hr.symm
    obtain ⟨hres, hsame⟩ := h.resolve hk (by simp [hn])
    cases n with
    | link target =>
      refine h.safe_removeFile fun l hl => ?_
      have := hp l hl []
      rwa [List.append_nil] at this
    | directory =>
      refine safe_removeBelow _ hq (fun l hl => ⟨?_, hp l hl⟩) h
      rw [Except.ok.inj (hl.symm.trans hres), hsame, hn]
    | file | other => exact .pure fun z hz => hz ▸ h

theorem safe_removeDirectoryAt (hq : q.tail ≠ [])
    (hp : ∀ k, t₀.resolve env.location false q = .ok k → ∀ rest, P (k ++ rest))
    (h : Pruning t₀ env P x.world) : (Rules.pruning m t₀ env P).Safe
      (fun _ y => Pruning t₀ env P y.world) (Cache.removeDirectory q).run x := by
  refine .liftThen (safe_removeAll hq hp h) fun r y hy => ?_
  cases r with
  | ok _ => exact .pure fun z hz => hz ▸ hy
  | error e =>
    simp only
    split <;> exact .pure fun z hz => hz ▸ hy

end Pruning

end Pruning

end CompiledModels
