import CompiledModels.Proofs.Drafts

/-!
What callers do to a cache in which modules are files, each entry with one module at most: it stays
like that, and an entry comes to a module only when it is published.
-/

namespace CompiledModels

open Files
open Estate (Alike)

def Files.Tree.Filed (t : Tree) (l : Location) : Prop :=
  t.get? l = none ∨ ∃ number c x, t.get? l = some (.file number c x)

theorem Files.Tree.Filed.alike {t t' : Tree} {l : Location} (h : t.Filed l)
    (ha : Alike (t.get? l) (t'.get? l)) : t'.Filed l := by
  rcases ha with ha | ⟨_, _, _, number, c, -, ha⟩
  · rwa [Tree.Filed, ha]
  · exact .inr ⟨_, _, _, ha⟩

theorem Estate.Alike.eq_none_iff {n n' : Option Node} (h : Alike n n') : n' = Option.none ↔ n = Option.none := by
  rcases h with rfl | ⟨_, _, _, _, _, rfl, rfl⟩
  · rfl
  · simp

namespace Estate

variable {E : Estate} {t t' : Tree} {own : String → Prop} {lost : ModelIdentity → Prop}

structure Tidy (E : Estate) (t : Tree) : Prop where
  files : ∀ d n, E.Shelf d → ModuleFile.isName n = true → t.Filed (d ++ [n])
  single : ∀ id n n', ModuleFile.isName n = true → ModuleFile.isName n' = true →
    t.get? (E.cache.entry id ++ [n]) ≠ none → t.get? (E.cache.entry id ++ [n']) ≠ none → n = n'

theorem Wanes.kept {id : ModelIdentity} {n : String} (h : E.Wanes own lost t t') (hn : ModuleFile.isName n = true)
    (hg : t'.get? (E.cache.entry id ++ [n]) ≠ none) : t.get? (E.cache.entry id ++ [n]) ≠ none := by
  rcases h.modules id n hn with ha | hl
  · exact fun hnone => hg (ha.eq_none_iff.mpr hnone)
  · exact absurd hl.2 hg

theorem Tidy.wanes (ht : E.Tidy t) (h : E.Wanes own lost t t') : E.Tidy t' := by
  refine ⟨fun d n hd hn => ?_, fun id n n' hn hn' hg hg' =>
    ht.single id n n' hn hn' (h.kept hn hg) (h.kept hn' hg')⟩
  have hold := ht.files d n hd hn
  cases hd with
  | entry id => exact (h.modules id n hn).elim hold.alike fun hl => .inl hl.2
  | staged s => exact (h.staged s n hn).elim hold.alike fun ho => .inl ho.2
  | build s => exact (h.builds s n hn).elim .inl fun hb => hb.elim hold.alike .inr

end Estate

def Draft.Holds (E : Estate) (id : ModelIdentity) (t : Tree) : Draft → Prop
  | .opened s => ∀ n, ModuleFile.isName n = true → t.get? (E.cache.stagedAt (stagedName id s) ++ [n]) = none
  | .filled s n => t.get? (E.cache.stagedAt (stagedName id s) ++ [n]) ≠ none ∧
    ∀ n', ModuleFile.isName n' = true → n' ≠ n →
      t.get? (E.cache.stagedAt (stagedName id s) ++ [n']) = none
  | _ => True

theorem Draft.holds_of_closed {E : Estate} {id : ModelIdentity} {t : Tree} {d : Draft}
    (h : d.isOpen = false) : d.Holds E id t := by
  cases d <;> simp_all [Draft.isOpen, Draft.Holds]

def Draft.Owns (d : Draft) (id : ModelIdentity) (past : List Taken) (n : String) : Prop :=
  held past ≠ [] ∧ ∃ s, d.suffix? = some s ∧ "entry_" ++ n = stagedName id s

theorem Draft.Holds.alike {E : Estate} {id : ModelIdentity} {t t' : Tree} {d : Draft} (h : d.Holds E id t)
    (hd : d.isOpen = true → ∀ s, d.suffix? = some s → ∀ n, ModuleFile.isName n = true →
      Alike (t.get? (E.cache.stagedAt (stagedName id s) ++ [n]))
        (t'.get? (E.cache.stagedAt (stagedName id s) ++ [n])))
    (hn : ∀ s n, d = .filled s n → ModuleFile.isName n = true) : d.Holds E id t' := by
  cases d with
  | opened s => exact fun n hm => (hd rfl s rfl n hm).eq_none_iff.mpr (h n hm)
  | filled s n =>
    exact ⟨fun hnone => h.1 ((hd rfl s rfl n (hn s n rfl)).eq_none_iff.mp hnone),
      fun n' hm hne => (hd rfl s rfl n' hm).eq_none_iff.mpr (h.2 n' hm hne)⟩
  | _ => trivial

structure Draft.Changes (E : Estate) (c : Cache) (env : Environment) (id : ModelIdentity) (past : List Taken)
    (d : Draft) (t : Taken) (d' : Draft) (T T' : Tree) : Prop where
  tidy : E.Tidy T'
  holds : d'.Holds E id T'
  staged : ∀ s n, ModuleFile.isName n = true →
    Alike (T.get? (E.cache.stagedAt ("entry_" ++ s) ++ [n]))
      (T'.get? (E.cache.stagedAt ("entry_" ++ s) ++ [n])) ∨ d.Owns id past s
  entry : ∀ other, T.get? (E.cache.entry other) = none → T'.get? (E.cache.entry other) = none ∨
    other = id ∧ t.Publishes c id
  modules : ∀ other n, ModuleFile.isName n = true →
    Alike (T.get? (E.cache.entry other ++ [n])) (T'.get? (E.cache.entry other ++ [n])) ∨
    t.step.Disturbs E env other ∧ (T'.get? (E.cache.entry other ++ [n]) ≠ none → other = id ∧
      ∃ s, d = .filled s n ∧ t = ⟨.rename (c.stagedDirectory env id s) (c.entryDirectory id), .ok ()⟩)

namespace Draft

variable {E : Estate} {c : Cache} {env : Environment} {tools : Invocation → Prop} {id : ModelIdentity}
  {past : List Taken} {d d' : Draft} {t : Taken} {T T' : Tree} {own : String → Prop}

theorem Changes.of_wanes (h : E.Wanes own (t.step.Disturbs E env) T T') (hT : E.Tidy T) (ho : ∀ s, own s → d.Owns id past s)
    (hd : d'.Holds E id T') : Changes E c env id past d t d' T T' where
  tidy := hT.wanes h
  holds := hd
  staged s n hn := (h.staged s n hn).imp_right fun hs => ho s hs.1
  entry other hg := .inl (h.entry other hg)
  modules other n hn := (h.modules other n hn).imp_right fun hl => ⟨hl.1, fun hg => absurd hl.2 hg⟩

theorem Changes.of_idle (h : E.Wanes (fun _ => False) (t.step.Disturbs E env) T T') (hT : E.Tidy T) (hd : d.Holds E id T)
    (hn : ∀ s n, d = .filled s n → ModuleFile.isName n = true) : Changes E c env id past d t d T T' :=
  .of_wanes h hT (fun _ => False.elim) (hd.alike (fun _ s _ n hn => by
    have hs := (h.staged (id.name ++ "_" ++ s) n hn).resolve_right fun ho => ho.1
    simpa only [stagedName, String.append_assoc] using hs) hn)

end Draft

section Spelling

variable {E : Estate} {c : Cache} {env : Environment} (hS : E.cache.Serves env c.root) (id : ModelIdentity)
include hS

theorem spells_in_entry {names : List String} (hn : ∀ n ∈ names, IsPlain n) :
    E.Spells env.location ((c.entryDirectory id).joins names) (E.cache.entry id ++ names) := by
  rw [Cache.entryDirectory_eq, Path.joins_joins, Site.entry, List.append_assoc]
  exact .cache hS.leads (by simp) (by simpa using ⟨by decide, id.isPlain, hn⟩)

theorem spells_in_staged (s : String) {names : List String} (hn : ∀ n ∈ names, IsPlain n) :
    E.Spells env.location ((c.stagedDirectory env id s).joins names)
      (E.cache.stagedAt (stagedName id s) ++ names) := by
  rw [Cache.stagedDirectory, Path.joins_joins, Site.stagedAt, List.append_assoc]
  exact .cache hS.full (by simp) (by simpa using ⟨by decide, plain_stagedName id s, hn⟩)

theorem spells_in_build (s : String) {names : List String} (hn : ∀ n ∈ names, IsPlain n) :
    E.Spells env.location ((c.buildDirectory env id s).joins names)
      (E.cache.stagedAt ("build_" ++ id.name ++ "_" ++ s) ++ names) := by
  rw [Cache.buildDirectory, Path.joins_joins, Site.stagedAt, List.append_assoc]
  exact .cache hS.full (by simp) (by simpa using ⟨by decide, Estate.plain_build id s, hn⟩)

end Spelling

theorem Site.stagedAt_of_eq {S : Site} {n n' : String} {rest rest' : List String}
    (h : S.stagedAt n ++ rest = S.stagedAt n' ++ rest') : n = n' :=
  Site.stagedAt_prefix (h ▸ List.prefix_append _ _ : S.stagedAt n <+: S.stagedAt n' ++ rest')

theorem Site.entry_prefix {S : Site} {id other : ModelIdentity} {rest : List String}
    (h : S.entry id <+: S.entry other ++ rest) : id = other := by
  obtain ⟨more, h⟩ := h
  simp only [Site.entry, List.append_assoc, List.append_cancel_left_eq, List.cons_append,
    List.nil_append, List.cons.injEq, true_and] at h
  exact ModelIdentity.eq_of_name h.1

namespace Estate

variable {E : Estate} {t t' : Tree} {cwd a b : Location} {p q : Path}

theorem rename_moves (ht : E.Sound t) (hp : E.Spells cwd p a) (hq : E.Spells cwd q b) (hne : a ≠ b)
    (h : t.rename cwd p q = .ok t') : t' = t ∨ t.Movable a b ∧ ∀ k, t'.get? k =
      if b <+: k then t.get? (a ++ k.drop b.length) else if a <+: k then none else t.get? k := by
  obtain ⟨a', b', ha, hb, h⟩ := Tree.rename_eq_ok h
  obtain ⟨rfl, -⟩ := hp.resolve ht ha
  obtain ⟨rfl, -⟩ := hq.resolve ht hb
  rcases h with ⟨-, he, -⟩ | ⟨rfl, -⟩ | ⟨hm, rfl, -⟩
  · exact absurd he hne
  · exact .inl rfl
  · exact .inr ⟨hm, Tree.get?_moved ht.cache.wellFormed hm⟩

end Estate

section Steps

variable {E : Estate} {c : Cache} {env : Environment} {tools : Invocation → Prop} {id : ModelIdentity}
  {past : List Taken} {d d' : Draft} {T T' : Tree} {s n : String} {m : Machine} {w w' : World}
  {step : Step} {r : step.Reply}

theorem aside_wanes {own : String → Prop} {lost : ModelIdentity → Prop} (hw : E.Calm w) (hs : step.isAside = true)
    (hl : ∀ p, step = .openLockFile p → ∃ other, E.Spells w.environment.location p (E.lock other))
    (h : step.exec m w = some (r, w')) : E.Wanes own lost w.files w'.files := by
  have hsame (hf : w'.files = w.files) : E.Wanes own lost w.files w'.files := hf ▸ .refl _
  cases step with
  | openLockFile p =>
    obtain ⟨other, hp⟩ := hl p rfl
    simp only [Step.exec] at h
    split at h
    case h_1 number t ht =>
      obtain ⟨-, rfl⟩ := Prod.mk.inj (Option.some.inj h)
      obtain ⟨l, hr, ht⟩ := Tree.openOrCreate_eq_ok.mp ht
      obtain ⟨rfl, -⟩ := hp.resolve hw.sound hr
      rcases ht with ⟨_, _, -, rfl⟩ | ⟨-, -, -, rfl⟩
      · exact .refl _
      · refine .of_eq fun k hk => ?_
        rw [Tree.get?_insertFile (by simp [Estate.lock]), if_neg]
        rintro rfl
        exact Estate.not_stall_lock other hk
    case h_2 => exact hsame ((Prod.mk.inj (Option.some.inj h)).2 ▸ rfl)
  | acquire file =>
    simp only [Step.exec] at h
    split at h
    · simp at h
    · exact hsame ((Prod.mk.inj (Option.some.inj h)).2 ▸ rfl)
  | release file => exact hsame ((Prod.mk.inj (Option.some.inj h)).2 ▸ rfl)
  | getOrLoad | invalidate | enter | leave => exact Estate.idle_wanes rfl hw (by simp) h
  | _ => simp [Step.isAside] at hs

theorem unmade_files (ht : (Taken.mk step r).Unmade) (h : step.exec m w = some (r, w')) :
    w'.files = w.files := by
  cases ht with
  | rename p q err | copy p q err =>
    rcases Step.settles_of_onFiles (Option.some.inj h) with ⟨_, -, rfl⟩ | ⟨hok, -⟩
    · rfl
    · simp at hok

theorem retires_wanes {own : String → Prop} {lost : ModelIdentity → Prop} (hlost : lost id) (hS : E.cache.Serves env c.root) (hT : E.Sound T)
    (h : T.rename env.location (c.entryDirectory id) (c.root.joins [".staging", "retired_" ++ n]) = .ok T') :
    E.Wanes own lost T T' := by
  have ha : E.Spells env.location (c.entryDirectory id) (E.cache.entry id) := by
    simpa [Path.joins_nil] using spells_in_entry hS id (List.forall_mem_nil _)
  have hb : E.Spells env.location (c.root.joins [".staging", "retired_" ++ n])
      (E.cache.stagedAt ("retired_" ++ n)) :=
    .cache hS.leads (by simp) (by simpa using ⟨by decide, plain_of_start (by decide) n⟩)
  have hout {k : Location} (hk : E.Stall k) : ¬E.cache.stagedAt ("retired_" ++ n) <+: k := by
    intro hp
    cases hk with
    | entry other => exact E.cache.not_staged_entry _ [] (by simpa using hp)
    | module hd _ =>
      cases hd with
      | entry other => exact E.cache.not_staged_entry _ _ hp
      | staged s => exact ne_of_head (by decide) (by decide) (by decide) n s (Site.stagedAt_prefix hp)
      | build s => exact ne_of_head (by decide) (by decide) (by decide) n s (Site.stagedAt_prefix hp)
  rcases Estate.rename_moves hT ha hb (fun he => E.cache.not_entry_staged id ("retired_" ++ n) []
    (by simp [he])) h with
    rfl | ⟨-, hget⟩
  · exact .refl _
  · refine .of_less (fun k hk => ?_) (fun other name hl => ?_) fun s name _ => ?_
    · rw [hget, if_neg (hout hk)]
      split
      · exact .inr rfl
      · exact .inl rfl
    · rw [hget, if_neg (E.cache.not_staged_entry _ _), if_neg]
      intro hp
      obtain rfl := Site.entry_prefix hp
      exact hl hlost
    · rw [hget, if_neg, if_neg (E.cache.not_entry_staged id _ _)]
      intro hp
      exact ne_of_head (by decide) (by decide) (by decide) n s (Site.stagedAt_prefix hp)

theorem stagedName_eq (id : ModelIdentity) (s : String) : stagedName id s = "entry_" ++ (id.name ++ "_" ++ s) := by
  simp [stagedName, String.append_assoc]

theorem opens_changes (hS : E.cache.Serves env c.root) (hT : E.Sound T) (htidy : E.Tidy T) {t : Taken}
    (h : T.makeDirectory env.location (c.stagedDirectory env id s) = .ok T') :
    d.Changes E c env id past t (.opened s) T T' := by
  have hl : E.Spells env.location (c.stagedDirectory env id s) (E.cache.stagedAt (stagedName id s)) := by
    simpa [Path.joins_nil] using spells_in_staged hS id s (List.forall_mem_nil _)
  obtain ⟨hnone, hget⟩ := Estate.makeDirectory_get? hT hl h
  have hwanes : E.Wanes (fun _ => False) (t.step.Disturbs E env) T T' := by
    refine .of_eq fun k hk => ?_
    rw [hget, if_neg]
    rintro rfl
    exact Estate.not_stall_staging _ hk
  refine .of_wanes hwanes htidy (fun _ => False.elim) fun n _ => ?_
  · rw [hget, if_neg (by simp)]
    exact hT.cache.wellFormed.get?_below (by simp [hnone]) (by simp)

theorem brings_stalls (hS : E.cache.Serves env c.root) (hT : E.Sound T) (htidy : E.Tidy T) {s' : String}
    (hn : ModuleFile.isName n = true)
    (hnone : T.get? (E.cache.stagedAt (stagedName id s) ++ [n]) = none)
    (h : T.rename env.location ((c.buildDirectory env id s').join n) ((c.stagedDirectory env id s).join n) = .ok T' ∨
      T.copy env.location ((c.buildDirectory env id s').join n) ((c.stagedDirectory env id s).join n) = .ok T') :
    (∃ number c x, T'.get? (E.cache.stagedAt (stagedName id s) ++ [n]) = some (.file number c x)) ∧
      ∀ k, E.Stall k → k ≠ E.cache.stagedAt (stagedName id s) ++ [n] → Alike (T.get? k) (T'.get? k) ∨
        k = E.cache.stagedAt ("build_" ++ id.name ++ "_" ++ s') ++ [n] ∧ T'.get? k = none := by
  have hplain := List.forall_mem_singleton.mpr (ModuleFile.plain_of_isName hn)
  have ha := spells_in_build hS id s' hplain
  have hb := spells_in_staged hS id s hplain
  rw [← Path.join_eq_joins] at ha hb
  rcases h with h | h
  · have hne : E.cache.stagedAt ("build_" ++ id.name ++ "_" ++ s') ++ [n] ≠
        E.cache.stagedAt (stagedName id s) ++ [n] := fun he => by
      have hname := Site.stagedAt_of_eq he
      rw [stagedName_eq, String.append_assoc, String.append_assoc] at hname
      exact ne_of_head (by decide) (by decide) (by decide) _ _ hname
    obtain ⟨hm, hget⟩ := Estate.rename_get? hT ha hb h hne (by simp [hnone])
    obtain ⟨number, content, x, hfile⟩ := (htidy.files _ n (.build _) hn).resolve_left
      (by simpa [String.append_assoc] using hm.source)
    rw [← String.append_assoc, ← String.append_assoc] at hfile
    refine ⟨⟨number, content, x, ?_⟩, fun k hk hkb => ?_⟩
    · rw [hget, if_pos (List.prefix_refl _)]
      simpa using hfile
    · have hshort : k.length ≤ (E.cache.stagedAt (stagedName id s) ++ [n]).length := by
        cases hk with
        | entry other => simp [Site.entry, Site.stagedAt]
        | module hd _ => cases hd <;> simp [Site.entry, Site.stagedAt]
      rw [hget, if_neg fun hp => hkb (hp.eq_of_length_le hshort).symm]
      split
      case isTrue hp =>
        exact .inr ⟨(hp.eq_of_length_le (by simpa [Site.stagedAt] using hshort)).symm, rfl⟩
      case isFalse => exact .inl (.refl _)
  · obtain ⟨hothers, hfile⟩ := Estate.copy_alike hT hb h hnone
    exact ⟨hfile, fun k _ hk => .inl (hothers k hk)⟩

theorem brings_changes (hS : E.cache.Serves env c.root) (hT : E.Sound T) (htidy : E.Tidy T) {s' : String}
    (hn : ModuleFile.isName n = true) (hd : (Draft.opened s).Holds E id T) (hheld : held past ≠ []) {t : Taken}
    (h : T.rename env.location ((c.buildDirectory env id s').join n) ((c.stagedDirectory env id s).join n) = .ok T' ∨
      T.copy env.location ((c.buildDirectory env id s').join n) ((c.stagedDirectory env id s).join n) = .ok T') :
    (Draft.opened s).Changes E c env id past t (.filled s n) T T' := by
  obtain ⟨hfile, hget⟩ := brings_stalls hS hT htidy hn (hd n hn) h
  have hentry (other : ModelIdentity) (n' : String) (hn' : ModuleFile.isName n' = true) :
      Alike (T.get? (E.cache.entry other ++ [n'])) (T'.get? (E.cache.entry other ++ [n'])) := by
    refine (hget _ (.module (.entry other) hn') fun he => ?_).resolve_right fun hb => ?_
    · exact E.cache.not_entry_staged other _ [n] (he ▸ List.prefix_append _ _)
    · exact E.cache.not_entry_staged other _ [n] (hb.1 ▸ List.prefix_append _ _)
  refine ⟨⟨fun dir n' hdir hn' => ?_, fun other n₁ n₂ h₁ h₂ hg₁ hg₂ => htidy.single other n₁ n₂ h₁ h₂ ?_ ?_⟩,
    ⟨?_, fun n' hn' hne => ?_⟩, fun s₁ n' hn' => ?_, fun other hg => .inl ?_, fun other n' hn' =>
      .inl (hentry other n' hn')⟩
  · by_cases hk : dir ++ [n'] = E.cache.stagedAt (stagedName id s) ++ [n]
    · rw [hk]
      exact .inr hfile
    · exact (hget _ (.module hdir hn') hk).elim (htidy.files dir n' hdir hn').alike fun hb => .inl hb.2
  · exact fun hnone => hg₁ ((hentry other n₁ h₁).eq_none_iff.mpr hnone)
  · exact fun hnone => hg₂ ((hentry other n₂ h₂).eq_none_iff.mpr hnone)
  · obtain ⟨number, content, x, hfile⟩ := hfile
    simp [hfile]
  · have hne' : E.cache.stagedAt (stagedName id s) ++ [n'] ≠ E.cache.stagedAt (stagedName id s) ++ [n] := by
      simpa using hne
    have hstall : E.Stall (E.cache.stagedAt (stagedName id s) ++ [n']) := by
      rw [stagedName_eq]
      exact .module (.staged _) hn'
    rcases hget _ hstall hne' with ha | hb
    · exact ha.eq_none_iff.mpr (hd n' hn')
    · exact hb.2
  · by_cases hk : E.cache.stagedAt ("entry_" ++ s₁) ++ [n'] = E.cache.stagedAt (stagedName id s) ++ [n]
    · exact .inr ⟨hheld, s, rfl, Site.stagedAt_of_eq hk⟩
    · refine .inl ((hget _ (.module (.staged s₁) hn') hk).resolve_right fun hb => ?_)
      have hname := Site.stagedAt_of_eq hb.1
      rw [String.append_assoc, String.append_assoc] at hname
      exact ne_of_head (by decide) (by decide) (by decide) _ _ hname
  · have hlen : (E.cache.entry other).length + 1 = (E.cache.stagedAt (stagedName id s) ++ [n]).length := by
      simp [Site.entry, Site.stagedAt]
    rcases hget _ (.entry other) fun he => by simp [← he] at hlen with ha | hb
    · exact ha.eq_none_iff.mpr hg
    · exact hb.2

theorem posted_get? (hS : E.cache.Serves env c.root) (hT : E.Sound T)
    (hsome : T.get? (E.cache.stagedAt (stagedName id s) ++ [n]) ≠ none)
    (h : T.rename env.location (c.stagedDirectory env id s) (c.entryDirectory id) = .ok T') :
    (∀ rest, T'.get? (E.cache.entry id ++ rest) = T.get? (E.cache.stagedAt (stagedName id s) ++ rest)) ∧
      ∀ k, ¬E.cache.entry id <+: k → T'.get? k =
        if E.cache.stagedAt (stagedName id s) <+: k then none else T.get? k := by
  have ha : E.Spells env.location (c.stagedDirectory env id s) (E.cache.stagedAt (stagedName id s)) := by
    simpa [Path.joins_nil] using spells_in_staged hS id s (List.forall_mem_nil _)
  have hb : E.Spells env.location (c.entryDirectory id) (E.cache.entry id) := by
    simpa [Path.joins_nil] using spells_in_entry hS id (List.forall_mem_nil _)
  have hne : E.cache.stagedAt (stagedName id s) ≠ E.cache.entry id := fun he => by
    have hnot : ¬E.cache.stagedAt (stagedName id s) <+: E.cache.entry id ++ [] := E.cache.not_staged_entry _ _
    exact hnot (by simp [he])
  have hdir : T.get? (E.cache.stagedAt (stagedName id s)) = some .directory :=
    hT.cache.wellFormed.get?_parent hsome
  obtain ⟨a, b, hra, hrb, h⟩ := Tree.rename_eq_ok h
  obtain ⟨rfl, -⟩ := ha.resolve hT hra
  obtain ⟨rfl, -⟩ := hb.resolve hT hrb
  rcases h with ⟨-, he, -⟩ | ⟨-, _, _, _, _, _, hfile, -⟩ | ⟨hm, rfl, -⟩
  · exact absurd he hne
  · simp [hdir] at hfile
  · have hget := Tree.get?_moved hT.cache.wellFormed hm
    refine ⟨fun rest => ?_, fun k hk => ?_⟩
    · rw [hget, if_pos (List.prefix_append _ _), List.drop_left]
    · rw [hget, if_neg hk]

theorem filled_changes_posted (hS : E.cache.Serves env c.root) (hT : E.Sound T) (htidy : E.Tidy T)
    (hd : (Draft.filled s n).Holds E id T) (hheld : held past ≠ [])
    (h : T.rename env.location (c.stagedDirectory env id s) (c.entryDirectory id) = .ok T') :
    (Draft.filled s n).Changes E c env id past ⟨.rename (c.stagedDirectory env id s) (c.entryDirectory id), .ok ()⟩
      (.posted s n) T T' := by
  obtain ⟨hentry, hothers⟩ := posted_get? hS hT hd.1 h
  have hother {other : ModelIdentity} (ho : other ≠ id) (rest : List String) :
      T'.get? (E.cache.entry other ++ rest) = T.get? (E.cache.entry other ++ rest) := by
    rw [hothers _ fun hp => ho (Site.entry_prefix hp).symm, if_neg (E.cache.not_staged_entry _ _)]
  have hstaged (s' : String) (rest : List String) (hne : stagedName id s ≠ s') :
      T'.get? (E.cache.stagedAt s' ++ rest) = T.get? (E.cache.stagedAt s' ++ rest) := by
    rw [hothers _ (E.cache.not_entry_staged id _ _), if_neg fun hp => hne (Site.stagedAt_prefix hp)]
  have hgone (rest : List String) : T'.get? (E.cache.stagedAt (stagedName id s) ++ rest) = none := by
    rw [hothers _ (E.cache.not_entry_staged id _ _), if_pos (List.prefix_append _ _)]
  have hshelf (n' : String) (hn' : ModuleFile.isName n' = true) :
      T.Filed (E.cache.stagedAt (stagedName id s) ++ [n']) := by
    rw [stagedName_eq]
    exact htidy.files _ n' (.staged _) hn'
  have honly {n' : String} (hn' : ModuleFile.isName n' = true)
      (hg : T'.get? (E.cache.entry id ++ [n']) ≠ none) : n' = n := by
    rw [hentry] at hg
    exact of_not_not fun hne => hg (hd.2 n' hn' hne)
  have hdisturbs : (Step.rename (c.stagedDirectory env id s) (c.entryDirectory id)).Disturbs E env id := by
    have hb := spells_in_entry hS id (List.forall_mem_nil _)
    rw [Path.joins_nil, List.append_nil] at hb
    exact ⟨_, .inr hb, List.prefix_refl _⟩
  refine ⟨⟨fun dir n' hdir hn' => ?_, fun other n₁ n₂ h₁ h₂ hg₁ hg₂ => ?_⟩, trivial, fun s₁ n' hn' => ?_,
    fun other hg => ?_, fun other n' hn' => ?_⟩
  · cases hdir with
    | entry other =>
      by_cases ho : other = id
      · subst ho
        rw [Tree.Filed, hentry]
        exact hshelf n' hn'
      · rw [Tree.Filed, hother ho]
        exact htidy.files _ n' (.entry other) hn'
    | staged s₁ =>
      by_cases hs : stagedName id s = "entry_" ++ s₁
      · exact .inl (hs ▸ hgone [n'])
      · rw [Tree.Filed, hstaged _ _ hs]
        exact htidy.files _ n' (.staged s₁) hn'
    | build s₁ =>
      rw [Tree.Filed, hstaged _ _ fun hs => ne_of_head (by decide) (by decide) (by decide) _ s₁
        ((stagedName_eq id s).symm.trans hs)]
      exact htidy.files _ n' (.build s₁) hn'
  · by_cases ho : other = id
    · subst ho
      exact (honly h₁ hg₁).trans (honly h₂ hg₂).symm
    · rw [hother ho] at hg₁ hg₂
      exact htidy.single other n₁ n₂ h₁ h₂ hg₁ hg₂
  · by_cases hs : stagedName id s = "entry_" ++ s₁
    · exact .inr ⟨hheld, s, rfl, hs.symm⟩
    · exact .inl (.inl (hstaged _ _ hs))
  · by_cases ho : other = id
    · exact .inr ⟨ho, _, rfl⟩
    · have hsame := hother ho []
      rw [List.append_nil] at hsame
      exact .inl (hsame.trans hg)
  · by_cases ho : other = id
    · subst ho
      exact .inr ⟨hdisturbs, fun hg => ⟨rfl, s, by rw [honly hn' hg], rfl⟩⟩
    · exact .inl (.inl (hother ho [n']))

theorem clears_changes (hS : E.cache.Serves env c.root) (hw : E.Calm w) (he : w.environment = env)
    (htidy : E.Tidy w.files) (hd : d.suffix? = some s) (hheld : held past ≠ [])
    (hs : step.Clears (c.stagedDirectory env id s)) (h : step.exec m w = some (r, w')) :
    d.Changes E c env id past ⟨step, r⟩ d.drop w.files w'.files := by
  have hwanes : E.Wanes (d.Owns id past) (step.Disturbs E env) w.files w'.files := by
    have hremoval {r' : Except FileError Unit} {names : List String} (hn : ∀ n ∈ names, IsPlain n)
        (h : (Step.removeFile ((c.stagedDirectory env id s).joins names)).exec m w = some (r', w') ∨
          (Step.removeDirectory ((c.stagedDirectory env id s).joins names)).exec m w = some (r', w')) :
        E.Wanes (d.Owns id past) (step.Disturbs E env) w.files w'.files :=
      Estate.removal_wanes hw he (spells_in_staged hS id s hn)
        (fun other _ => E.cache.not_entry_staged other _ names) (fun n ho hp =>
        ho ⟨hheld, s, hd, Site.stagedAt_prefix hp⟩) h
    rcases hs with rfl | ⟨names, hn, rfl | rfl⟩
    · exact Estate.idle_wanes rfl hw (by simp) h
    · exact hremoval hn (.inl h)
    · exact hremoval hn (.inr h)
  exact .of_wanes hwanes htidy (fun _ ho => ho) (Draft.holds_of_closed d.isOpen_drop)

theorem Draft.Goes.changes (hm : E.Orderly m tools) (hS : E.cache.Serves env c.root) (hw : E.Calm w)
    (he : w.environment = env) (htidy : E.Tidy w.files) (htrail : Draft.Trail E c env tools id past d)
    (hd : d.Holds E id w.files)
    (hl : ∀ p, step = .openLockFile p → ∃ other, E.Spells env.location p (E.lock other))
    (hg : Draft.Goes E c env tools id past d ⟨step, r⟩ d') (h : step.exec m w = some (r, w')) :
    d.Changes E c env id past ⟨step, r⟩ d' w.files w'.files := by
  have hname (s n : String) (hd : d = .filled s n) : ModuleFile.isName n = true := (htrail.built (.inl hd)).1
  have hidle (hwanes : E.Wanes (fun _ => False) (step.Disturbs E env) w.files w'.files) :
      d.Changes E c env id past ⟨step, r⟩ d w.files w'.files := .of_idle hwanes htidy hd hname
  have hdone {op : Except FileError Tree} (h : Step.onFiles w op = (.ok (), w')) :
      op = .ok w'.files := by
    rcases Step.settles_of_onFiles h with ⟨err, herr, -⟩ | ⟨-, T, hT, rfl⟩
    · simp at herr
    · exact hT
  subst he
  generalize ht : (⟨step, r⟩ : Taken) = t at hg
  cases hg with
  | minor hs =>
    subst ht
    exact hidle (Estate.minor_wanes hm hw rfl hs h)
  | aside _ hs =>
    subst ht
    exact hidle (aside_wanes hw hs hl h)
  | unmade hu =>
    subst ht
    exact hidle (unmade_files hu h ▸ .refl _)
  | retires n =>
    obtain ⟨rfl, hr⟩ := Taken.mk.inj ht
    obtain rfl := eq_of_heq hr
    have ha := spells_in_entry hS id (List.forall_mem_nil _)
    rw [Path.joins_nil, List.append_nil] at ha
    exact hidle (retires_wanes ⟨_, .inl ha, List.prefix_refl _⟩ hS hw.sound (hdone (Option.some.inj h)))
  | opens hs hheld =>
    obtain ⟨rfl, hr⟩ := Taken.mk.inj ht
    obtain rfl := eq_of_heq hr
    exact opens_changes hS hw.sound htidy (hdone (Option.some.inj h))
  | brings hb hn =>
    have hheld := htrail.held_ne rfl
    obtain ⟨s', rfl | rfl⟩ := hb
    · obtain ⟨rfl, hr⟩ := Taken.mk.inj ht
      obtain rfl := eq_of_heq hr
      exact brings_changes hS hw.sound htidy hn hd hheld (.inl (hdone (Option.some.inj h)))
    · obtain ⟨rfl, hr⟩ := Taken.mk.inj ht
      obtain rfl := eq_of_heq hr
      exact brings_changes hS hw.sound htidy hn hd hheld (.inr (hdone (Option.some.inj h)))
  | posts =>
    obtain ⟨rfl, hr⟩ := Taken.mk.inj ht
    obtain rfl := eq_of_heq hr
    exact filled_changes_posted hS hw.sound htidy hd (htrail.held_ne rfl) (hdone (Option.some.inj h))
  | clears hs hheld hc =>
    subst ht
    exact clears_changes hS hw rfl htidy hs hheld hc h

end Steps

end CompiledModels
