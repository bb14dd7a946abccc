import CompiledModels.Proofs.Exclusion
import CompiledModels.Proofs.Publishing

/-!
The places where modules lie, in entries, in entries that are put together, and where they are
built; and what steps do to what is there.
-/

namespace CompiledModels

open Files

namespace Estate

variable {E : Estate} {m : Machine} {s : Step} {t t' : Tree} {w w' : World} {env : Environment}
  {tools : Invocation → Prop} {cwd l k a b : Location} {p q : Path} {own : String → Prop}
  {lost : ModelIdentity → Prop}

inductive Shelf (E : Estate) : Location → Prop
  | entry (id : ModelIdentity) : Shelf E (E.cache.entry id)
  | staged (n : String) : Shelf E (E.cache.stagedAt ("entry_" ++ n))
  | build (n : String) : Shelf E (E.cache.stagedAt ("build_" ++ n))

inductive Stall (E : Estate) : Location → Prop
  | entry (id : ModelIdentity) : Stall E (E.cache.entry id)
  | module {d : Location} {n : String} (hd : E.Shelf d) (hn : ModuleFile.isName n = true) :
      Stall E (d ++ [n])

theorem Stall.below (h : E.Stall l) : ∃ rest, l = E.cache.root ++ rest := by
  cases h with
  | entry id => exact ⟨_, rfl⟩
  | module hd _ =>
    cases hd with
    | entry id => exact ⟨_, List.append_assoc ..⟩
    | staged n => exact ⟨_, List.append_assoc ..⟩
    | build n => exact ⟨_, List.append_assoc ..⟩

theorem not_stall_scratch (h : E.scratch l) : ¬E.Stall l := fun hl =>
  have ⟨rest, hr⟩ := hl.below
  scratch_ne h rest hr

theorem not_stall_top (n : String) : ¬E.Stall (E.cache.root ++ [n]) := by
  intro h
  generalize hl : E.cache.root ++ [n] = l at h
  cases h with
  | entry id => simp [Site.entry] at hl
  | module hd _ => cases hd <;> simp [Site.entry, Site.stagedAt] at hl

theorem not_stall_staging (n : String) : ¬E.Stall (E.cache.stagedAt n) := by
  intro h
  generalize hl : E.cache.stagedAt n = l at h
  cases h with
  | entry id => simp [Site.entry, Site.stagedAt, ModelIdentity.modelNamespace] at hl
  | module hd _ => cases hd <;> simp [Site.entry, Site.stagedAt] at hl

theorem not_stall_lock (id : ModelIdentity) : ¬E.Stall (E.lock id) := by
  intro h
  generalize hl : E.lock id = l at h
  cases h with
  | entry id => simp [Site.entry, lock, ModelIdentity.modelNamespace] at hl
  | module hd _ => cases hd <;> simp [Site.entry, Site.stagedAt, lock] at hl

theorem not_stall_other {n n' : String} (hn : ¬ModuleFile.isName n' = true) :
    ¬E.Stall (E.cache.stagedAt n ++ [n']) := by
  intro h
  generalize hl : E.cache.stagedAt n ++ [n'] = l at h
  cases h with
  | entry id => simp [Site.entry, Site.stagedAt] at hl
  | @module d s hd hs =>
    obtain rfl : n' = s := by simpa using congrArg List.getLast? hl
    exact hn hs

theorem not_stall_elsewhere {n n' : String} (he : ∀ s, n ≠ "entry_" ++ s) (hb : ∀ s, n ≠ "build_" ++ s) :
    ¬E.Stall (E.cache.stagedAt n ++ [n']) := by
  intro h
  generalize hl : E.cache.stagedAt n ++ [n'] = l at h
  cases h with
  | entry id => simp [Site.entry, Site.stagedAt] at hl
  | @module d s hd hs =>
    have hd' : E.cache.stagedAt n = d := (List.append_inj' hl rfl).1
    cases hd with
    | entry id => simp [Site.entry, Site.stagedAt, ModelIdentity.modelNamespace] at hd'
    | staged s => exact he s (by simpa [Site.stagedAt] using hd')
    | build s => exact hb s (by simpa [Site.stagedAt] using hd')

structure Wanes (E : Estate) (own : String → Prop) (lost : ModelIdentity → Prop) (t t' : Tree) : Prop where
  entry : ∀ id, t.get? (E.cache.entry id) = none → t'.get? (E.cache.entry id) = none
  modules : ∀ id n, ModuleFile.isName n = true →
    Alike (t.get? (E.cache.entry id ++ [n])) (t'.get? (E.cache.entry id ++ [n])) ∨
    lost id ∧ t'.get? (E.cache.entry id ++ [n]) = none
  staged : ∀ s n, ModuleFile.isName n = true →
    Alike (t.get? (E.cache.stagedAt ("entry_" ++ s) ++ [n]))
      (t'.get? (E.cache.stagedAt ("entry_" ++ s) ++ [n])) ∨
    own s ∧ t'.get? (E.cache.stagedAt ("entry_" ++ s) ++ [n]) = none
  builds : ∀ s n, ModuleFile.isName n = true →
    t'.get? (E.cache.stagedAt ("build_" ++ s) ++ [n]) = none ∨
    Alike (t.get? (E.cache.stagedAt ("build_" ++ s) ++ [n]))
      (t'.get? (E.cache.stagedAt ("build_" ++ s) ++ [n])) ∨
    ∃ number c x, t'.get? (E.cache.stagedAt ("build_" ++ s) ++ [n]) = some (.file number c x)

theorem Alike.refl (n : Option Node) : Alike n n := .inl rfl

theorem Alike.none {n : Option Node} (h : Alike none n) : n = none := by
  rcases h with h | ⟨_, _, _, _, _, h, _⟩
  · exact h
  · simp at h

namespace Wanes

theorem of_alike (h : ∀ l, E.Stall l → Alike (t.get? l) (t'.get? l)) : E.Wanes own lost t t' := by
  refine ⟨fun id he => ?_, fun id n hn => .inl (h _ (.module (.entry id) hn)),
    fun s n hn => .inl (h _ (.module (.staged s) hn)),
    fun s n hn => .inr (.inl (h _ (.module (.build s) hn)))⟩
  have ha := h _ (.entry id)
  rw [he] at ha
  exact ha.none

theorem of_eq (h : ∀ l, E.Stall l → t'.get? l = t.get? l) : E.Wanes own lost t t' :=
  of_alike fun l hl => .inl (h l hl)

theorem refl (t : Tree) : E.Wanes own lost t t := of_eq fun _ _ => rfl

theorem of_less (h : ∀ l, E.Stall l → t'.get? l = t.get? l ∨ t'.get? l = none)
    (hl : ∀ id n, ¬lost id → t'.get? (E.cache.entry id ++ [n]) = t.get? (E.cache.entry id ++ [n]))
    (hs : ∀ s n, ¬own s → t'.get? (E.cache.stagedAt ("entry_" ++ s) ++ [n]) =
      t.get? (E.cache.stagedAt ("entry_" ++ s) ++ [n])) : E.Wanes own lost t t' := by
  refine ⟨fun id he => ?_, fun id n hn => ?_, fun s n hn => ?_, fun s n hn => ?_⟩
  · rcases h _ (.entry id) with hl | hl
    · exact hl.trans he
    · exact hl
  · by_cases hi : lost id
    · exact (h _ (.module (.entry id) hn)).imp .inl fun hl => ⟨hi, hl⟩
    · exact .inl (.inl (hl id n hi))
  · by_cases ho : own s
    · exact (h _ (.module (.staged s) hn)).imp .inl fun hl => ⟨ho, hl⟩
    · exact .inl (.inl (hs s n ho))
  · rcases h _ (.module (.build s) hn) with hl | hl
    · exact .inr (.inl (.inl hl))
    · exact .inl hl

theorem of_tinkers (h : E.Tinkers t t') : E.Wanes own lost t t' := by
  have hloose {rest : List String} (hr : ∀ s more, rest ≠ ".staging" :: ("build_" ++ s) :: more) :
      ¬E.loose (E.cache.root ++ rest) := by
    rintro (⟨s, more, -, hl⟩ | ⟨⟨hl, -⟩, -⟩)
    · rw [List.append_assoc, List.append_cancel_left_eq] at hl
      exact hr s more hl
    · exact hl (List.prefix_append _ _)
  have hentry (id : ModelIdentity) (more : List String) : ¬E.loose (E.cache.entry id ++ more) := by
    rw [Site.entry, List.append_assoc]
    exact hloose fun s rest hr => by simp [ModelIdentity.modelNamespace] at hr
  refine ⟨fun id he => ?_, fun id n _ => .inl (.inl (h.kept _ (hentry id [n]))), fun s n _ => ?_,
    fun s n _ => ?_⟩
  · have hkept := h.kept _ (hentry id [])
    rw [List.append_nil] at hkept
    exact hkept.trans he
  · refine .inl (.inl (h.kept _ ?_))
    rw [Site.stagedAt, List.append_assoc]
    refine hloose fun s' rest hr => ?_
    have hnames := congrArg String.toList (List.cons.inj (List.cons.inj hr).2).1
    simp only [String.toList_append] at hnames
    exact absurd (List.cons.inj hnames).1 (by decide)
  · rcases h.builds _ ⟨s, [n], by simp, rfl⟩ with hl | hl | hl
    · exact .inr (.inl (.inl hl))
    · exact .inl hl
    · exact .inr (.inr hl)

end Wanes

theorem alike_setFile {number : Nat} {c : Content} {x : Bool} (k : Location) :
    Alike (t.get? k) ((t.setFile number c x).get? k) := by
  rw [Tree.get?_setFile]
  cases hn : t.get? k with
  | none => exact .refl _
  | some n =>
    cases n with
    | file number' c' x' =>
      by_cases he : number' = number
      · exact .inr ⟨number', c', x', c, x, rfl, by simp [Tree.rewritten, he]⟩
      · exact .inl (by simp [Tree.rewritten, he])
    | _ => exact .refl _

section Operations

variable (ht : E.Sound t) (hl : E.Spells cwd p l)
include ht hl

theorem alike_insertFile {c : Content} {x : Bool} (hr : t.resolve cwd true p = .ok l) (hk : k ≠ l) :
    Alike (t.get? k) ((t.insertFile l c x).get? k) := by
  obtain ⟨-, dir, s, rfl, -⟩ := hl.resolve ht hr
  rw [Tree.get?_insertFile (by simp), if_neg hk]
  exact .refl _

theorem write_alike {c : Content} (h : t.write cwd p c = .ok t') (hk : k ≠ l) :
    Alike (t.get? k) (t'.get? k) := by
  obtain ⟨l', hr, h⟩ := Tree.write_eq_ok.mp h
  obtain ⟨rfl, -⟩ := hl.resolve ht hr
  rcases h with ⟨_, _, _, _, rfl⟩ | ⟨_, _, _, _, rfl⟩ | ⟨_, _, rfl⟩
  · exact alike_setFile k
  · exact .refl _
  · exact alike_insertFile ht hl hr hk

theorem copy_alike (h : t.copy cwd q p = .ok t') (hg : t.get? l = none) :
    (∀ k ≠ l, Alike (t.get? k) (t'.get? k)) ∧ ∃ number c x, t'.get? l = some (.file number c x) := by
  obtain ⟨_, c, x, _, l', hr, h⟩ := Tree.copy_eq_ok.mp h
  obtain ⟨rfl, dir, s, hd, -⟩ := hl.resolve ht hr
  rcases h with ⟨_, _, _, hg', rfl⟩ | ⟨_, hg', _, _, rfl⟩ | ⟨_, _, rfl⟩
  · simp [hg] at hg'
  · simp [hg] at hg'
  · refine ⟨fun k hk => alike_insertFile ht hl hr hk, t.nextNumber, c, x, ?_⟩
    rw [Tree.get?_insertFile (by simp [hd]), if_pos rfl]

theorem makeDirectory_get? (h : t.makeDirectory cwd p = .ok t') :
    t.get? l = none ∧ ∀ k, t'.get? k = if k = l then some .directory else t.get? k := by
  obtain ⟨l', hr, hg, rfl⟩ := Tree.makeDirectory_eq_ok.mp h
  obtain ⟨rfl, dir, s, rfl, -⟩ := hl.resolve ht hr
  exact ⟨hg, Tree.get?_insert (by simp)⟩

theorem removeFile_get? (h : t.removeFile cwd p = .ok t') (k : Location) :
    t'.get? k = if k = l then none else t.get? k := by
  obtain ⟨l', hr, _, _, _, rfl⟩ := Tree.removeFile_eq_ok.mp h
  obtain ⟨rfl, dir, s, rfl, -⟩ := hl.resolve ht hr
  exact Tree.get?_erase (by simp) k

theorem removeDirectory_get? (h : t.removeDirectory cwd p = .ok t') (k : Location) :
    t'.get? k = if k = l then none else t.get? k := by
  obtain ⟨l', hr, _, hne, _, rfl⟩ := Tree.removeDirectory_eq_ok.mp h
  obtain ⟨rfl, -⟩ := hl.resolve ht hr
  exact Tree.get?_erase hne k

theorem rename_get? (hq : E.Spells cwd q b) (h : t.rename cwd p q = .ok t') (hne : l ≠ b)
    (hg : ∀ number c x, t.get? b ≠ some (.file number c x)) :
    t.Movable l b ∧ ∀ k, t'.get? k =
      if b <+: k then t.get? (l ++ k.drop b.length) else if l <+: k then none else t.get? k := by
  obtain ⟨a', b', ha, hb, h⟩ := Tree.rename_eq_ok h
  obtain ⟨rfl, -⟩ := hl.resolve ht ha
  obtain ⟨rfl, -⟩ := hq.resolve ht hb
  rcases h with ⟨-, he, -⟩ | ⟨-, _, _, _, _, _, -, hfile⟩ | ⟨hm, rfl, -⟩
  · exact absurd he hne
  · exact absurd hfile (hg _ _ _)
  · exact ⟨hm, Tree.get?_moved ht.cache.wellFormed hm⟩

end Operations

end Estate

def Step.Minor (E : Estate) (env : Environment) (tools : Invocation → Prop) : Step → Prop
  | .write p _ => ∃ l, E.Spells env.location p l ∧ ¬E.Stall l
  | .makeDirectory p => (∃ l, E.Spells env.location p l ∧ ¬E.Stall l) ∨
    ∃ q, E.cache.Held env.location q ∧ Above q p
  | .removeFile p | .removeDirectory p =>
    ∃ l, E.Spells env.location p l ∧ ∀ n, ¬E.cache.stagedAt ("entry_" ++ n) <+: l
  | .rename .. | .copy .. => False
  | .openLockFile _ | .acquire _ | .release _ => False
  | .getOrLoad .. | .invalidate .. | .newRegistry | .enter _ | .leave _ => False
  | .start i => tools i
  | _ => True

def Step.Disturbs (E : Estate) (env : Environment) (id : ModelIdentity) : Step → Prop
  | .removeFile p | .removeDirectory p => ∃ l, E.Spells env.location p l ∧ E.cache.entry id <+: l
  | .rename p q => ∃ l, (E.Spells env.location p l ∨ E.Spells env.location q l) ∧ E.cache.entry id <+: l
  | _ => False

namespace Estate

variable {E : Estate} {m : Machine} {s : Step} {t t' : Tree} {w w' : World} {env : Environment}
  {tools : Invocation → Prop} {l k : Location} {p q : Path} {own : String → Prop}
  {lost : ModelIdentity → Prop}

theorem onFiles_wanes {op : Except FileError Tree} {r : Except FileError Unit}
    (ht : ∀ t, op = .ok t → E.Wanes own lost w.files t) (h : Step.onFiles w op = (r, w')) :
    E.Wanes own lost w.files w'.files := by
  rcases Step.settles_of_onFiles h with ⟨_, _, rfl⟩ | ⟨_, t, hop, rfl⟩
  · exact .refl _
  · exact ht t hop

theorem wanes_of_erased (h : ∀ k, t'.get? k = if k = l then none else t.get? k)
    (hm : ∀ id, ¬lost id → ¬E.cache.entry id <+: l) (ho : ∀ n, ¬own n → ¬E.cache.stagedAt ("entry_" ++ n) <+: l) : E.Wanes own lost t t' := by
  refine .of_less (fun k _ => ?_) (fun id name hi => ?_) fun n name hn => ?_
  · rw [h]
    split
    · exact .inr rfl
    · exact .inl rfl
  · rw [h, if_neg]
    rintro rfl
    exact hm id hi (List.prefix_append _ _)
  · rw [h, if_neg]
    rintro rfl
    exact ho n hn (List.prefix_append _ _)

theorem removal_wanes {r : Except FileError Unit} (hw : E.Calm w) (he : w.environment = env)
    (hl : E.Spells env.location p l) (hm : ∀ id, ¬lost id → ¬E.cache.entry id <+: l)
    (ho : ∀ n, ¬own n → ¬E.cache.stagedAt ("entry_" ++ n) <+: l)
    (h : (Step.removeFile p).exec m w = some (r, w') ∨ (Step.removeDirectory p).exec m w = some (r, w')) :
    E.Wanes own lost w.files w'.files := by
  subst he
  rcases h with h | h
  · exact onFiles_wanes (fun t ht => wanes_of_erased (removeFile_get? hw.sound hl ht) hm ho) (Option.some.inj h)
  · exact onFiles_wanes (fun t ht => wanes_of_erased (removeDirectory_get? hw.sound hl ht) hm ho)
      (Option.some.inj h)

theorem idle_wanes {r : s.Reply} (hs : s.isIdle = true) (hw : E.Calm w)
    (ha : ∀ i a, s = .start i → m.start w.environment w.files i = .ok a → E.Tame a)
    (h : s.exec m w = some (r, w')) : E.Wanes own lost w.files w'.files :=
  .of_tinkers (idle_drifts hs hw ha h).files

theorem minor_wanes {r : s.Reply} (hm : E.Orderly m tools) (hw : E.Calm w) (he : w.environment = env)
    (hs : s.Minor E env tools) (h : s.exec m w = some (r, w')) :
    E.Wanes own (s.Disturbs E env) w.files w'.files := by
  cases s with
  | write p bytes =>
    obtain ⟨l, hl, hstall⟩ := hs
    subst he
    refine onFiles_wanes (fun t ht => .of_alike fun k hk => ?_) (Option.some.inj h)
    exact write_alike hw.sound hl ht fun hkl => hstall (hkl ▸ hk)
  | makeDirectory p =>
    subst he
    refine onFiles_wanes (fun t ht => ?_) (Option.some.inj h)
    rcases hs with ⟨l, hl, hstall⟩ | ⟨q, hq, hp⟩
    · refine .of_eq fun k hk => ((makeDirectory_get? hw.sound hl ht).2 k).trans (if_neg fun hkl => ?_)
      exact hstall (hkl ▸ hk)
    · obtain ⟨l, hr, hg, _⟩ := Tree.makeDirectory_eq_ok.mp ht
      exact absurd hg (hq p hp _ hw.sound.cache l hr)
  | removeFile p =>
    obtain ⟨l, hl, hstaged⟩ := hs
    exact removal_wanes hw he hl (fun id hi hp => hi ⟨l, hl, hp⟩) (fun n _ => hstaged n) (.inl h)
  | removeDirectory p =>
    obtain ⟨l, hl, hstaged⟩ := hs
    exact removal_wanes hw he hl (fun id hi hp => hi ⟨l, hl, hp⟩) (fun n _ => hstaged n) (.inr h)
  | rename | copy | openLockFile | acquire | release => exact hs.elim
  | getOrLoad | invalidate | newRegistry | enter | leave => exact hs.elim
  | start i =>
    exact idle_wanes (s := .start i) rfl hw (fun j a hj ha => by
      obtain rfl := Step.start.inj hj
      exact hm i hs _ _ a hw.sound ha) h
  | _ => exact idle_wanes rfl hw (by simp) h

end Estate

end CompiledModels
