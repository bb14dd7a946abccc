import CompiledModels.Proofs.Removal
import CompiledModels.Proofs.Working

/-!
Temporary directories of a program that is alone: what is left where one has been made, worked in
and removed, while the programs that run do not touch the place where it was made.
-/

namespace CompiledModels

open Files Program

variable {m : Machine} {S : Site} {env : Environment} {l : Location} {t t' : Tree} {p q : Path}
  {x y z : Moment} {a s : String} {act : Answers} {K K' : Moment → Moment → Prop} {α ε : Type}
  {Z : Location → Prop}

def Site.Spared (S : Site) (Z : Location → Prop) (l : Location) : Prop := S.Way l ∨ Z l

/-- What has the name `s` in the directory is in `Z`, but not what is below. -/
structure Site.Hosts (S : Site) (Z : Location → Prop) (s : String) : Prop where
  entry : Z (S.root ++ [s])
  below : ∀ l, Z l → S.root ++ [s] <+: l → l = S.root ++ [s]

def Site.entries (S : Site) (l : Location) : Prop := ∃ s, l = S.root ++ [s]

theorem Site.hosts_entries (S : Site) (s : String) : S.Hosts S.entries s where
  entry := ⟨s, rfl⟩
  below := by
    rintro _ ⟨s', rfl⟩ h
    exact (List.IsPrefix.eq_of_length h (by simp)).symm

theorem Site.Hosts.spared (hZ : S.Hosts Z s) : S.Spared Z (S.root ++ [s]) := .inr hZ.entry

theorem Site.Hosts.eq_of_prefix (hZ : S.Hosts Z s) (hl : S.Spared Z l) (h : S.root ++ [s] <+: l) :
    l = S.root ++ [s] := by
  rcases hl with (rfl | ⟨e, he, rfl⟩) | hl
  · have hlen := h.length_le
    rw [List.length_append, List.length_singleton] at hlen
    omega
  · exact absurd ((List.prefix_append _ _).trans h) (S.outside e he)
  · exact hZ.below l hl h

namespace Files.Tree

variable {cwd : Location} {c : Content}

theorem Numbered.write (h : t.Numbered) (ht : t.write cwd p c = .ok t') : t'.Numbered := by
  obtain ⟨l, -, ⟨_, _, _, _, rfl⟩ | ⟨_, _, _, _, rfl⟩ | ⟨hnone, -, rfl⟩⟩ := write_eq_ok.mp ht
  · exact h.setFile
  · exact h
  · refine h.insertFile ?_
    rintro rfl
    cases hnone

theorem Numbered.makeDirectory (h : t.Numbered) (ht : t.makeDirectory cwd p = .ok t') :
    t'.Numbered := by
  obtain ⟨l, -, hnone, rfl⟩ := makeDirectory_eq_ok.mp ht
  refine h.insert ?_ rfl
  rintro rfl
  cases hnone

end Files.Tree

theorem Site.Stands.spared (h : S.Stands t) (hw : t'.WellFormed)
    (hs : ∀ l, S.Way l → t'.get? l = t.get? l) : S.Stands t' :=
  h.change hw (Estate.apart_of_way fun l hl (hn : ¬S.Way l) => hn hl) fun l hl => hs l (Classical.not_not.1 hl)

def Site.custom (S : Site) (Z : Location → Prop) : Custom where
  sound t := S.Stands t ∧ t.Numbered
  may t t' := t'.WellFormed ∧ (t.Numbered → t'.Numbered) ∧ ∀ l, S.Spared Z l → t'.get? l = t.get? l
  refl h := ⟨h.1.wellFormed, id, fun _ _ => rfl⟩
  trans h h' := ⟨h'.1, h'.2.1 ∘ h.2.1, fun l hl => (h'.2.2 l hl).trans (h.2.2 l hl)⟩
  keeps h h' := ⟨h.1.spared h'.1 fun l hl => h'.2.2 l (.inl hl), h'.2.1 h.2⟩

theorem Site.whole_outside : ∀ e ∈ ([] : List (Location × Node)), ¬([] : Location) <+: e.1 :=
  List.forall_mem_nil _

theorem Site.whole_solid : ∀ e ∈ ([] : List (Location × Node)), e.2.isFile = false :=
  List.forall_mem_nil _

def Site.whole : Site := ⟨[], [], Site.whole_outside, Site.whole_solid⟩

theorem Site.whole_calm {w : World} (hf : w.files = .empty) (hc : w.children = []) (Z : Location → Prop) :
    (Site.whole.custom Z).Calm w := by
  refine ⟨?_, by simp [hc]⟩
  rw [hf]
  refine ⟨⟨⟨by decide, by decide, by decide, by decide⟩, rfl, by simp [Site.whole]⟩, fun l number c x hl => ?_⟩
  by_cases hroot : l = []
  · subst hroot
    cases hl
  · rw [Tree.get?_of_ne hroot] at hl
    cases hl

structure Lodged (S : Site) (Z : Location → Prop) (env : Environment) (t : Tree) (s : String)
    (x : Moment) : Prop where
  hosts : S.Hosts Z s
  calm : (S.custom Z).Calm x.world
  environment : x.world.environment = env
  directory : x.files.get? (S.root ++ [s]) = some .directory
  fresh : t.get? (S.root ++ [s]) = none
  others : ∀ l, S.Spared Z l → l ≠ S.root ++ [s] → x.files.get? l = t.get? l

theorem Lodged.standing (hx : Lodged S Z env t s x) : Standing S env x :=
  ⟨hx.calm.sound.1, hx.environment⟩

theorem Lodged.drifts (hx : Lodged S Z env t s x) (h : (S.custom Z).Drifts x.world y.world) :
    Lodged S Z env t s y where
  hosts := hx.hosts
  calm := h.calm hx.calm
  environment := h.environment.trans hx.environment
  directory := (h.files.2.2 _ hx.hosts.spared).trans hx.directory
  fresh := hx.fresh
  others l hl hs := (h.files.2.2 l hl).trans (hx.others l hl hs)

def Site.Owns (S : Site) (Z : Location → Prop) (s : String) (t : Tree) : Prop :=
  ∀ rest number c b, t.get? (S.root ++ [s] ++ rest) = some (.file number c b) →
    ∀ l, S.Spared Z l → ∀ c' b', t.get? l ≠ some (.file number c' b')

theorem Site.owns_nothing (h : t.Folder (S.root ++ [s]) []) : S.Owns Z s t := by
  intro rest number c b hget
  have hne : rest ≠ [] := by
    rintro rfl
    rw [List.append_nil, h.directory] at hget
    cases hget
  obtain ⟨f, hf, -⟩ := h.only rest hne (by rw [hget]; exact fun h => by cases h)
  exact absurd hf (List.not_mem_nil)

section Writing

variable {name : String} {bytes : Bytes} {fs : List (String × Content × Bool)} {c : Content}

theorem Site.Hosts.not_spared (hZ : S.Hosts Z s) (hl : S.Spared Z l) : l ≠ S.root ++ [s] ++ [name] := by
  rintro rfl
  have heq := hZ.eq_of_prefix hl (List.prefix_append _ _)
  simp at heq

theorem Lodged.written (hx : Lodged S Z env t s x) (hq : S.Leads env.location q) (hs : IsPlain s)
    (hn : IsPlain name) (hf : x.files.Folder (S.root ++ [s]) fs) (ho : S.Owns Z s x.files)
    (ht : x.files.write env.location ((q.join s).join name) c = .ok t') :
    t'.WellFormed ∧ t'.Numbered ∧ (∀ l, S.Spared Z l → t'.get? l = x.files.get? l) ∧
      ((∀ f ∈ fs, f.1 ≠ name) → t'.Folder (S.root ++ [s]) (fs ++ [(name, c, false)]) ∧
        S.Owns Z s t') := by
  have hloc : S.root ++ [s, name] = S.root ++ [s] ++ [name] := by simp
  have hpath : (q.join s).join name = q.joins [s, name] := by
    simp only [Path.join_eq_joins, Path.joins_joins, List.singleton_append]
  have hplain : ∀ n ∈ [s, name], IsPlain n := by simpa using ⟨hs, hn⟩
  have hstands := hx.calm.sound.1
  have hfile {n : Node} (hget : x.files.get? (S.root ++ [s] ++ [name]) = some n) :
      ∃ f ∈ fs, f.1 = name ∧ ∃ number, n = .file number f.2.1 f.2.2 := by
    obtain ⟨f, hmem, hname⟩ := hf.only [name] (List.cons_ne_nil _ _) (by rw [hget]; exact fun h => by cases h)
    obtain ⟨number, hnumber⟩ := hf.files f hmem
    rw [← hname, hget] at hnumber
    exact ⟨f, hmem, (List.singleton_inj.1 hname).symm, number, Option.some.inj hnumber⟩
  have hunlinked : x.files.Unlinked true S.root [s, name] := by
    refine (hstands.wellFormed.unlinked hx.directory).concat fun _ target hlink => ?_
    obtain ⟨f, -, -, number, hn⟩ := hfile hlink
    cases hn
  obtain ⟨l, hr, hcases⟩ := Tree.write_eq_ok.1 (hpath ▸ ht)
  obtain ⟨rfl, hpar, hproper, -⟩ := (hq _ hstands).resolve_joins_ok (List.cons_ne_nil _ _) hplain hunlinked hr
  have hnumbered := hx.calm.sound.2.write ht
  rw [hloc] at hcases
  rcases hcases with ⟨number, c', b, hget, rfl⟩ | ⟨n, hget, -, hn, rfl⟩ | ⟨hnone, -, rfl⟩
  · refine ⟨hstands.wellFormed.setFile, hnumbered, fun l hl => ?_, fun hfs => ?_⟩
    · rw [Tree.get?_setFile]
      cases hnode : x.files.get? l with
      | none => rfl
      | some n =>
        cases n with
        | file number' c'' b' =>
          have hne : number' ≠ number := by
            rintro rfl
            exact ho [name] _ _ _ hget l hl _ _ hnode
          simp [Tree.rewritten, hne]
        | _ => rfl
    · obtain ⟨f, hmem, hname, -⟩ := hfile hget
      exact absurd hname (hfs f hmem)
  · obtain ⟨f, -, -, number, rfl⟩ := hfile hget
    cases hn
  · have hget := Tree.get?_insertFile (t := x.files) (l := S.root ++ [s] ++ [name]) (c := c) (x := false)
      (by simp)
    have hspared (l : Location) (hl : S.Spared Z l) :
        (x.files.insertFile (S.root ++ [s] ++ [name]) c false).get? l = x.files.get? l :=
      (hget l).trans (if_neg (hx.hosts.not_spared hl))
    refine ⟨?_, hnumbered, hspared, fun hfs => ⟨hf.add x.files.nextNumber hfs fun rest => ?_, ?_⟩⟩
    · exact hstands.wellFormed.insertFile hx.directory (hproper name (by simp)) hnone
    · rw [hget]
      simp only [List.append_cancel_left_eq]
    · intro rest number c₁ b₁ hfile' l hl c₂ b₂ hother
      rw [hspared l hl] at hother
      rw [hget] at hfile'
      split at hfile'
      · obtain ⟨rfl, -⟩ := Node.file.inj (Option.some.inj hfile')
        exact Nat.lt_irrefl _ (hx.calm.sound.2 l _ _ _ hother)
      · exact ho rest number c₁ b₁ hfile' l hl c₂ b₂ hother

theorem Lodged.changed {w : World} {st : Step} {r : st.Reply} (hx : Lodged S Z env t s x)
    (hw : ∃ files seed events, w = { x.world with files, seed, events }) (hf : w.files.WellFormed)
    (hn : w.files.Numbered) (hs : ∀ l, S.Spared Z l → w.files.get? l = x.files.get? l) :
    Lodged S Z env t s (x.after st r w) := by
  obtain ⟨files, seed, events, rfl⟩ := hw
  exact hx.drifts ⟨⟨hf, fun _ => hn, hs⟩, rfl, rfl, hx.calm.tame⟩

theorem Lodged.write {r : Except FileError Unit} {w : World} (hx : Lodged S Z env t s x)
    (hq : S.Leads env.location q) (hs : IsPlain s) (hn : IsPlain name)
    (hf : x.files.Folder (S.root ++ [s]) fs) (ho : S.Owns Z s x.files)
    (hr : Step.faulty m x.world (.write ((q.join s).join name) bytes) r w) :
    Lodged S Z env t s (x.after (.write ((q.join s).join name) bytes) r w) ∧
      (r = .ok () → (∀ f ∈ fs, f.1 ≠ name) →
        w.files.Folder (S.root ++ [s]) (fs ++ [(name, ⟨bytes, 0⟩, false)]) ∧ S.Owns Z s w.files) := by
  have hwritten {t' : Tree} {c : Content}
      (ht : x.world.files.write x.world.directory ((q.join s).join name) c = .ok t') :
      t'.WellFormed ∧ t'.Numbered ∧ (∀ l, S.Spared Z l → t'.get? l = x.files.get? l) ∧
        ((∀ f ∈ fs, f.1 ≠ name) → t'.Folder (S.root ++ [s]) (fs ++ [(name, c, false)]) ∧
          S.Owns Z s t') := by
    rw [World.directory, hx.environment] at ht
    exact hx.written hq hs hn hf ho ht
  rcases Step.faulty.write hr with (⟨e, rfl, rfl⟩ | ⟨rfl, t', ht, rfl⟩) | ⟨e, rfl, c, t', ht, rfl⟩
  · exact ⟨hx.changed ⟨_, _, _, rfl⟩ hx.calm.sound.1.wellFormed hx.calm.sound.2 fun _ _ => rfl, fun h => by cases h⟩
  · obtain ⟨hw, hnum, hsame, hfolder⟩ := hwritten ht
    exact ⟨hx.changed ⟨_, _, _, rfl⟩ hw hnum hsame, fun _ => hfolder⟩
  · obtain ⟨hw, hnum, hsame, -⟩ := hwritten ht
    exact ⟨hx.changed ⟨_, _, _, rfl⟩ hw hnum hsame, fun h => by cases h⟩

end Writing

def Vacated (S : Site) (Z : Location → Prop) (t : Tree) (y : Moment) : Prop :=
  (∀ s ∈ y.past, ∀ p, ¬s.Stumbles p) →
    y.files.WellFormed ∧ ∀ l, S.Spared Z l → y.files.get? l = t.get? l

theorem Program.Only.transfer {p : Program α} {Q : α → Prop} {post : α → Moment → Prop}
    {ok : ∀ s : Step, s.Reply → Prop} (h : p.Only ok (·.isBrief = true) Q)
    (hact : ∀ y s r w, s.isBrief = true → act y.world s r w →
      Step.faulty m y.world s r w ∧ ok s r ∧ K' y (y.after s r w))
    (hs : (Rules.alone (Step.faulty m) K).Safe post p x) : (Rules.alone act K').Safe post p x := by
  induction p generalizing x with
  | done a => exact Rules.Safe.done_iff.2 fun y hy => Rules.Safe.done_iff.1 hs y hy
  | step s next ih =>
    rw [Rules.Safe.step_iff] at hs ⊢
    rintro y rfl r w hr
    obtain ⟨hf, hok, hk⟩ := hact x s r w h.1 hr
    exact ⟨hk, ih r (h.2 r hok) (hs x rfl r w hf).2⟩

theorem Step.faulty.prompt {s : Step} {r : s.Reply} {w w' : World} (hs : s.isPrompt = true)
    (h : s.faulty m w r w') : w'.files = w.files := by
  cases s with
  | stat p follow => rw [(stat h).1]
  | list p => rw [(list h).1]
  | read p => rw [(reads_of_faulty h).1]
  | drawSuffix =>
    obtain ⟨-, seed, rfl⟩ := drawSuffix h
    rfl
  | environment => rw [(environment h).2]
  | emit e => rw [emit h]
  | _ => simp [isPrompt] at hs

theorem Program.Only.keeps_numbered {p : Program α} {Q : α → Prop}
    (h : p.Only (fun _ _ => True) (fun s => s.isPrompt = true ∨ ∃ p, s = .makeDirectory p) Q)
    (hx : x.files.Numbered) : (Rules.alone (Step.faulty m) fun _ _ => True).Safe
      (fun _ y => y.files.Numbered) p x := by
  refine (h.safe (R := .alone (Step.faulty m) fun _ _ => True) (J := fun y => y.files.Numbered) hx
    (Rules.alone_stable _ _ _) fun y s r w hy hs hr => ⟨trivial, trivial, ?_⟩).weaken fun _ _ h => h.2
  rcases hs with hs | ⟨p, rfl⟩
  · rwa [Moment.files, Moment.after_world, Step.faulty.prompt hs hr]
  · rcases Step.faulty.makeDirectory hr with ⟨e, -, rfl⟩ | ⟨-, t, ht, rfl⟩
    · exact hy
    · exact hy.makeDirectory ht

section Brief

variable (hact : ∀ w s r w', s.isBrief = true → act w s r w' → Step.faulty m w s r w')
  (hk : ∀ y s r w, s.isBrief = true → K y (y.after s r w))
include hact hk

theorem Program.Only.keeps_aside {p : Program α} {Q : α → Prop} {post : α → Moment → Prop}
    (h : p.Only (fun _ _ => True) (·.isBrief = true) Q)
    (hs : (Rules.alone (Step.faulty m) fun _ _ => True).Safe post p x) :
    (Rules.alone act K).Safe (fun a y => post a y ∧ x.world.Aside y.world) p x := by
  refine (h.transfer (fun y s r w hb hr => ⟨hact _ _ _ _ hb hr, trivial, hk y s r w hb⟩) hs).and ?_
  refine (h.safe (J := fun y => x.world.Aside y.world) (.refl _) (Rules.alone_stable act K _)
    fun y s r w hy hb hr => ?_).weaken fun _ _ h => h.2
  exact ⟨trivial, hk y s r w hb, hy.trans (Step.aside_of_faulty hb (hact _ _ _ _ hb hr))⟩

variable (hq : S.Leads env.location (Path.inDirectory env.directory p)) (ha : ∀ s, IsPlain (a ++ s))
  (hZ : ∀ s, S.Hosts Z (a ++ s))
include hq ha hZ

theorem lodge_lodged (hx : (S.custom Z).Calm x.world) (he : x.world.environment = env) :
    (Rules.alone act K).Safe (fun r y =>
        (∀ q, r = .ok q → ∃ s, q = (Path.inDirectory env.directory p).join (a ++ s) ∧
          Lodged S Z env x.files (a ++ s) y ∧ y.files.Folder (S.root ++ [a ++ s]) []) ∧
        ∀ e, r = .error e → y.files.WellFormed ∧ ∀ l, S.Spared Z l → y.files.get? l = x.files.get? l)
      (makeTemporary a p) x := by
  have hground : Ground (.alone (Step.faulty m) fun _ _ => True) m S False :=
    .alone (fun _ _ _ _ h => h) False.elim
  have hstable (P : Moment → Prop) : (Rules.alone (Step.faulty m) fun _ _ => True).Stable P :=
    Rules.alone_stable _ _ _
  have hmake := makeTemporary_fresh (a := a) hground (fun _ _ _ => trivial) hq ha (hstable _)
    (P := fun y => ∀ l, S.Spared Z l → y.files.get? l = x.files.get? l)
    (M := fun s y => (∀ l, S.Spared Z l → l ≠ S.root ++ [a ++ s] → y.files.get? l = x.files.get? l) ∧
      x.files.get? (S.root ++ [a ++ s]) = none ∧ y.files.Folder (S.root ++ [a ++ s]) [])
    ⟨hstable _, fun y z h hy l hl => (h.files l not_false).trans (hy l hl)⟩ (fun _ => hstable _)
    (fun s y z hy hadds hnone hfolder => by
      rw [List.append_nil] at hadds hnone hfolder
      refine ⟨fun l hl hne => (hadds.files l hne).trans (hy l hl), ?_, hfolder⟩
      rw [← hy _ (hZ s).spared, hnone])
    (fun _ => hstable _) False.elim rfl (x := x) ⟨hx.sound.1, he⟩
    (show x.files.get? (S.root ++ []) = some .directory by rw [List.append_nil]; exact hx.sound.1.root) (fun _ _ => rfl) False.elim
  rw [Path.joins_nil] at hmake
  have honly : (makeTemporary a p).Only (fun _ _ => True)
      (fun s => s.isPrompt = true ∨ ∃ p, s = .makeDirectory p) fun _ => True :=
    (prompt_only (fun _ => .inl) rfl).next fun _ _ =>
      (makeFresh_only (fun _ => .inl) maxTries fun _ => .inr ⟨_, rfl⟩).weaken fun _ _ => trivial
  have hbrief : (makeTemporary a p).Only (fun _ _ => True) (·.isBrief = true) fun _ => True := by
    refine honly.mono fun s hs => ?_
    rcases hs with hs | ⟨p, rfl⟩
    · exact brief_prompt s hs
    · rfl
  refine (hbrief.keeps_aside hact hk (hmake.and (honly.keeps_numbered hx.sound.2))).weaken
    fun r y h => ?_
  obtain ⟨⟨⟨⟨hy, _⟩, hok, herr⟩, hnum⟩, haside⟩ := h
  refine ⟨?_, ?_⟩
  · intro q hr
    obtain ⟨_, s, -, rfl, -, hothers, hnone, hfolder⟩ := hok q hr
    refine ⟨s, rfl, ⟨hZ s, ⟨⟨hy.stands, hnum⟩, ?_⟩, hy.environment, hfolder.directory, hnone, hothers⟩,
      hfolder⟩
    obtain ⟨_, _, _, hw⟩ := haside
    rw [hw]
    exact hx.tame
  · intro e hr
    exact ⟨hy.wellFormed, (herr e hr).1⟩

omit ha hZ in
theorem leave_vacated (hs : IsPlain s) (hx : Lodged S Z env t s x) :
    (Rules.alone act K).Safe (fun _ y => Vacated S Z t y)
      (do let _ ← removeAll ((Path.inDirectory env.directory p).join s) : Program Unit) x := by
  have hground : Ground (.alone (Step.faulty m) fun _ _ => True) m S False :=
    .alone (fun _ _ _ _ h => h) False.elim
  have hstable (P : Moment → Prop) : (Rules.alone (Step.faulty m) fun _ _ => True).Stable P :=
    Rules.alone_stable _ _ _
  have hplain : ∀ n ∈ [s], IsPlain n := by simpa using hs
  have hremove := removeAll_bare (G := True) hground hq (List.cons_ne_nil s [])
    (hstable _) (fun _ => hstable _) (fun _ => Private.alone) hx.standing hplain
    (Tree.unlinked_singleton fun h => by cases h) fun _ => ⟨False.elim, .inl (.inr ⟨_, hx.directory, .inl rfl⟩)⟩
  have hkept := hremove.keepInvariant (fun _ _ _ => trivial)
    (J := fun y => ∀ l, S.Spared Z l → l ≠ S.root ++ [s] → y.files.get? l = t.get? l) hx.others
    (hstable _) fun y z h hy l hl hne => by
      rw [h.apart fun hp => hne (hx.hosts.eq_of_prefix hl hp)]
      exact hy l hl hne
  have honly : (removeAll ((Path.inDirectory env.directory p).join s)).Only (fun _ _ => True)
      (·.isBrief = true) fun _ => True :=
    removeAll_only (N := fun _ => True) brief_prompt (fun _ _ _ _ _ _ _ => trivial)
      fun _ _ => ⟨rfl, rfl⟩
  refine (honly.keeps_aside hact hk hkept).next fun r y h => ?_
  obtain ⟨⟨⟨hy, hgone⟩, hothers⟩, _⟩ := h
  apply Rules.Safe.pure
  rintro z rfl hp
  refine ⟨hy.wellFormed, fun l hl => ?_⟩
  by_cases hl' : l = S.root ++ [s]
  · subst hl'
    rcases hgone trivial with ⟨-, hbare⟩ | ⟨⟨st, hst, hstumbles⟩, -⟩
    · have hnone := hbare []
      rw [List.append_nil] at hnone
      rw [hnone, hx.fresh]
    · exact absurd hstumbles (hp st hst _)
  · exact hothers l hl hl'

theorem lodging_vacated {wrap : FileError → ε} {work : Path → Attempt ε α}
    (hwork : ∀ s y, Lodged S Z env x.files (a ++ s) y → y.files.Folder (S.root ++ [a ++ s]) [] →
      (Rules.alone act K).Safe (fun _ z => Lodged S Z env x.files (a ++ s) z)
        (work ((Path.inDirectory env.directory p).join (a ++ s))).run y)
    (hx : (S.custom Z).Calm x.world) (he : x.world.environment = env) :
    (Rules.alone act K).Safe (fun _ y => Vacated S Z x.files y)
      (Attempt.inTemporary a p wrap work).run x := by
  refine .ofThen (lodge_lodged hact hk hq ha hZ hx he) (fun q y hy => ?_) fun e y hy _ => hy.2 e rfl
  obtain ⟨s, rfl, hlodged, hfolder⟩ := hy.1 q rfl
  exact (hwork s y hlodged hfolder).andThen fun r z hz => leave_vacated hact hk hq (ha s) hz

end Brief

theorem Lodged.only {ok : ∀ s : Step, s.Reply → Prop} {P : Step → Prop} {Q : α → Prop}
    {p : Program α} (h : p.Only ok P Q) (hx : Lodged S Z env t s x)
    (hs : ∀ y s r w, (S.custom Z).Calm y.world → y.world.environment = env → P s →
      act y.world s r w → ok s r ∧ K y (y.after s r w) ∧ (S.custom Z).Drifts y.world w) :
    (Rules.alone act K).Safe (fun _ y => Lodged S Z env t s y) p x := by
  refine (h.safe (J := Lodged S Z env t s) hx (Rules.alone_stable act K _)
    fun y s r w hy hP hr => ?_).weaken fun _ _ h => h.2
  obtain ⟨hok, hk, hd⟩ := hs y s r w hy.calm hy.environment hP hr
  exact ⟨hok, hk, hy.drifts hd⟩

def Step.loose (m : Machine) : Answers := fun w s r w' =>
  faulty m w s r w' ∨ s.isIdle = true ∧ s.isPrompt = false ∧ w' = w

theorem Step.loose.faulty {s : Step} {r : s.Reply} {w w' : World} (hs : s.isBrief = true)
    (h : s.loose m w r w') : s.faulty m w r w' := by
  rcases h with h | ⟨hidle, hprompt, -⟩
  · exact h
  · cases s <;> simp_all [isBrief, isIdle]

theorem Step.loose.credible {s : Step} {r : s.Reply} {w w' : World} (hw : w.files.WellFormed)
    (h : s.loose m w r w') : s.Credible w.environment r := by
  rcases h with (h | h) | ⟨hidle, hprompt, -⟩
  · exact credible_of_exec hw h
  · cases s with
    | list p =>
      rintro es rfl
      simp [Step.Fails, Except.isOk, Except.toBool] at h
    | _ => trivial
  · cases s <;> trivial

theorem Step.loose.drifts {C : Custom} {s : Step} {r : s.Reply} {w w' : World} (hs : s.isIdle = true)
    (hw : C.Calm w) (ha : ∀ i a, s = .start i → m.start w.environment w.files i = .ok a → C.Tame a)
    (h : s.loose m w r w') : C.Drifts w w' := by
  have hrefl : C.Drifts w w := .of_eq hw rfl rfl rfl rfl
  rcases h with (h | h) | ⟨-, -, rfl⟩
  · exact Custom.idle_drifts hs hw ha h
  · cases s <;> first | exact h.elim | exact h.2 ▸ hrefl | simp [isIdle] at hs
  · exact hrefl

end CompiledModels
