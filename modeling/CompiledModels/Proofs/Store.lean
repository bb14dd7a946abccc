import CompiledModels.Proofs.Removal
import CompiledModels.Proofs.Files.Folder

/-!
Putting an entry together aside and moving it into its place.
-/

namespace CompiledModels

open Files Program

variable {R : Rules} {m : Machine} {S : Site} {env : Environment} {p q : Path} {x y : Moment}
  {fs : List (String × Content × Bool)} {dir : List String} {s : String} {F : Prop}

structure Source (R : Rules) (S : Site) (env : Environment) (p : Path) (place : Location)
    (good : Content → Bool → Prop) (I : Moment → Prop) : Prop where
  stable : R.Stable I
  adds : ∀ {Z : Location → Prop} {x y : Moment}, Adds Z x y →
    (x.files.get? place ≠ none ∨ ¬Z place) → I x → I y
  file : ∀ {y}, I y → Standing S env y → ∀ {follow l n},
    y.files.resolve env.location follow p = .ok l → y.files.get? l = some n →
      l = place ∧ ∃ number c x, n = .file number c x ∧ good c x

theorem Source.keeping {place : Location} {good : Content → Bool → Prop} {I : Moment → Prop}
    (h : Source R S env p place good I) (K : Moment → Moment → Prop) :
    Source (R.keeping K) S env p place good I := ⟨h.stable, h.adds, h.file⟩

structure Housed (S : Site) (env : Environment) (dir : List String) (x : Moment) : Prop where
  standing : Standing S env x
  directory : x.files.get? (S.root ++ dir) = some .directory

theorem Housed.stable (hR : Ground R m S F) (hpriv : Private R (S.root ++ dir)) :
    R.Stable (Housed S env dir) := by
  intro y z h hy
  have hdir := hpriv y z h []
  rw [List.append_nil] at hdir
  exact ⟨Standing.stable hR y z h hy.standing, hdir.trans hy.directory⟩

theorem Housed.unmoved (h : Unmoved x y) (hx : Housed S env dir x) : Housed S env dir y :=
  ⟨hx.standing.within h apart_none, (h.files _ not_false).trans hx.directory⟩

structure Working (S : Site) (env : Environment) (dir : List String)
    (fs : List (String × Content × Bool)) (x : Moment) : Prop where
  standing : Standing S env x
  folder : x.files.Folder (S.root ++ dir) fs

theorem Working.stable (hR : Ground R m S F) (hpriv : Private R (S.root ++ dir)) :
    R.Stable (Working S env dir fs) := fun _ _ h hx =>
  ⟨Standing.stable hR _ _ h hx.standing, hx.folder.congr (hpriv _ _ h)⟩

theorem Working.housed (hx : Working S env dir fs x) : Housed S env dir x :=
  ⟨hx.standing, hx.folder.directory⟩

theorem Working.within {Z : Location → Prop} (h : Changes Z x y) (hz : S.Apart Z)
    (hd : ∀ rest, ¬Z (S.root ++ dir ++ rest)) (hx : Working S env dir fs x) :
    Working S env dir fs y :=
  ⟨hx.standing.changes h hz, hx.folder.congr fun rest => h.files _ (hd rest)⟩

theorem Working.unlinked (hx : Working S env dir fs x) (h : ∀ f ∈ fs, f.1 ≠ s) {follow : Bool} :
    x.files.Unlinked follow S.root (dir ++ [s]) := by
  refine (hx.standing.wellFormed.unlinked hx.folder.directory).concat fun _ target => ?_
  rw [hx.folder.absent h]
  simp

theorem Working.plain (hx : Working S env dir fs x) (hs : IsPlain s) :
    ∀ s' ∈ dir ++ [s], IsPlain s' := by
  intro s' h
  rcases List.mem_append.mp h with h | h
  · have hd := hx.folder.directory
    exact (hx.standing.wellFormed.proper_of_get? (by rw [hd]; simp) s' (by simp [h])).1
  · rwa [List.mem_singleton.mp h]

theorem Working.resolve (hx : Working S env dir fs x) (hq : S.Leads env.location q)
    (hs : IsPlain s) (h : ∀ f ∈ fs, f.1 ≠ s) {follow : Bool} {l : Location}
    (hl : x.files.resolve env.location follow (q.joins (dir ++ [s])) = .ok l) :
    l = S.root ++ dir ++ [s] ∧ IsProper s := by
  obtain ⟨rfl, _, hp, _⟩ := hq.resolve_ok hx.standing.stands (by simp) (hx.plain hs)
    (hx.unlinked h) hl
  exact ⟨by simp, hp s (by simp)⟩

theorem Working.resolve_to (hx : Working S env dir fs x) (hq : S.Leads env.location q)
    (h : ∀ f ∈ fs, f.1 ≠ s) (hs : IsProper s) (hshort : Tree.Short ((q.joins dir).join s))
    {follow : Bool} : x.files.resolve x.world.directory follow (q.joins (dir ++ [s])) =
      .ok (S.root ++ dir ++ [s]) := by
  have hd := hx.folder.directory
  rw [hx.standing.directory, List.append_assoc]
  refine (hq _ hx.standing.stands).resolve_joins_to hx.standing.wellFormed (by simp) ?_
    (hx.unlinked h) (by simpa using hd) (Path.joins_join ▸ hshort)
  refine List.forall_mem_append.mpr ⟨fun n hn => ?_, by simpa using hs⟩
  exact hx.standing.wellFormed.proper_of_get? (l := S.root ++ dir) (by rw [hd]; simp) n (by simp [hn])

theorem Working.movable {place : Location} {number : Nat} {c : Content} {e : Bool}
    (hx : Working S env dir fs x) (hfile : x.files.get? place = some (.file number c e))
    (hnone : x.files.get? (S.root ++ dir ++ [s]) = none) :
    x.files.Movable place (S.root ++ dir ++ [s]) := by
  refine hx.standing.wellFormed.movable (by simp [hfile]) ?_ hnone fun hp => ?_
  · rintro rfl
    simp at hfile
  · rcases List.prefix_concat_iff.mp hp with rfl | ⟨rest, hrest⟩
    · exact absurd (hnone.symm.trans hfile) (by simp)
    · have hd := hx.folder.directory
      rw [← hrest] at hd
      by_cases hne : rest = []
      · simp [hne, hfile] at hd
      · rw [hx.standing.wellFormed.get?_below (by simp [hfile]) hne] at hd
        simp at hd

def textFile (text : String × String) : String × Content × Bool :=
  (text.1, ⟨Text.encode text.2, 0⟩, false)

def Written (p : Path) (texts : List (String × String)) (x : Moment) : Prop :=
  ∀ text ∈ texts, ⟨.write (p.join text.1) (Text.encode text.2), .ok ()⟩ ∈ x.past

variable {texts texts' : List (String × String)}

theorem Written.taken {t : Taken} (h : y.past = t :: x.past) (hx : Written p texts x) :
    Written p texts y := fun text ht => by
  rw [h]
  exact List.mem_cons_of_mem _ (hx text ht)

theorem Written.stable (hR : Ground R m S F) : R.Stable (Written p texts) := fun _ _ h hx text ht =>
  hR.past h ▸ hx text ht

section Texts

variable (hR : Ground R m S F) (hk : R.Allows (Within (S.root ++ dir <+: ·)))
  (hq : S.Leads env.location q) (hdir : dir ≠ []) (hpriv : Private R (S.root ++ dir))
include hR hk hq hdir hpriv

theorem writeText_written {text : String} (hs : IsPlain s)
    (hfit : F → IsProper s ∧ Tree.Short ((q.joins dir).join s)) (hn : ∀ f ∈ fs, f.1 ≠ s)
    (hx : Working S env dir fs x) (hw : Written (q.joins dir) texts x) :
    R.Safe (fun r y => Housed S env dir y ∧ (r = .ok () →
        Working S env dir (fs ++ [textFile (s, text)]) y ∧
          Written (q.joins dir) (texts ++ [(s, text)]) y) ∧ ∀ e, r = .error e → ¬F)
      (writeText ((q.joins dir).join s) text) x := by
  have hz := apart_under (S := S) hdir
  refine Rules.Safe.perform (s := .write ((q.joins dir).join s) _) fun y hy r w hr => ?_
  have hy' := Working.stable hR hpriv _ _ hy hx
  have hwy := Written.stable hR _ _ hy hw
  have hnone : y.files.get? (S.root ++ (dir ++ [s])) = none := by
    rw [← List.append_assoc]
    exact hy'.folder.absent hn
  have hwrite {c : Content} {t : Tree}
      (ht : y.world.files.write y.world.directory ((q.joins dir).join s) c = .ok t) :
      t.WellFormed ∧ ∀ k, t.get? k =
        if k = S.root ++ (dir ++ [s]) then some (.file y.files.nextNumber c false)
        else y.files.get? k := by
    rw [hy'.standing.directory, Path.joins_join] at ht
    exact Tree.write_joins (hq _ hy'.standing.stands) hy'.standing.wellFormed (by simp)
      (hy'.plain hs) (hy'.unlinked hn) hnone ht
  have hwithin {r : Except FileError Unit} {c : Content} {t : Tree}
      (ht : y.world.files.write y.world.directory ((q.joins dir).join s) c = .ok t) :
      Within (S.root ++ dir <+: ·) y (y.after (.write ((q.joins dir).join s) (Text.encode text)) r
        { y.world with files := t }) := by
    obtain ⟨hwf, hget⟩ := hwrite ht
    refine .of_tree (by rintro ⟨_, _, ⟨⟩⟩) hwf fun l hl => (hget l).trans (if_neg ?_)
    rintro rfl
    exact hl (by simp)
  have hhoused {r : Except FileError Unit} {c : Content} {t : Tree}
      (ht : y.world.files.write y.world.directory ((q.joins dir).join s) c = .ok t) :
      Housed S env dir (y.after (.write ((q.joins dir).join s) (Text.encode text)) r
        { y.world with files := t }) := by
    refine ⟨hy'.standing.within (hwithin ht) hz, ?_⟩
    show t.get? _ = _
    rw [(hwrite ht).2, if_neg (by simp), hy'.folder.directory]
  have hst : R.Stable (Housed S env dir) := Housed.stable hR hpriv
  have hsure {e : FileError} {w : World}
      (hr : R.act y.world (.write ((q.joins dir).join s) (Text.encode text)) (.error e) w) : ¬F := by
    intro hF
    have herr := Step.eq_error_of_onFiles (Option.some.inj (hR.sure hF hr))
    rw [Path.joins_join] at herr
    have hres : y.files.resolve _ true _ = _ := hy'.resolve_to hq hn (hfit hF).1 (hfit hF).2
    rw [List.append_assoc] at hres
    rw [Tree.write_eq_ok.mpr ⟨_, hres, .inr (.inr ⟨hnone,
      Tree.demandsDirectory_joins (by simp), rfl⟩)⟩] at herr
    simp at herr
  rcases (hR.act hr).write with (⟨e, rfl, rfl⟩ | ⟨rfl, t, ht, rfl⟩) | ⟨e, rfl, c, t, ht, rfl⟩
  · have hu : Unmoved y (y.after (.write ((q.joins dir).join s) (Text.encode text)) (.error e)
      y.world) := .of_eq (by rintro ⟨_, _, ⟨⟩⟩) rfl rfl
    refine ⟨hk _ _ (hu.mono fun _ h => h.elim), fun z hzr => ⟨?_, by simp, fun _ _ => hsure hr⟩⟩
    exact hst _ _ hzr (hy'.housed.unmoved hu)
  · have hwith := hwithin (r := .ok ()) ht
    refine ⟨hk _ _ hwith, fun z hzr => ⟨hst _ _ hzr (hhoused ht), fun _ => ⟨?_, ?_⟩, by simp⟩⟩
    · refine Working.stable hR hpriv _ _ hzr ⟨hy'.standing.within hwith hz, ?_⟩
      refine hy'.folder.add y.files.nextNumber hn fun rest => ?_
      show t.get? _ = _
      rw [(hwrite ht).2]
      simp
    · refine Written.stable hR _ _ hzr fun f hf => ?_
      rcases List.mem_append.mp hf with hf | hf
      · exact List.mem_cons_of_mem _ (hwy f hf)
      · rw [List.mem_singleton.mp hf]
        exact List.mem_cons_self
  · have hwith := hwithin (r := .error e) ht
    exact ⟨hk _ _ hwith, fun z hzr => ⟨hst _ _ hzr (hhoused ht), by simp, fun _ _ => hsure hr⟩⟩

theorem writeTexts_written (hs : ∀ text ∈ texts, IsPlain text.1)
    (hfit : F → ∀ text ∈ texts, IsProper text.1 ∧ Tree.Short ((q.joins dir).join text.1))
    (hn : (fs.map (·.1) ++ texts.map (·.1)).Nodup) (hx : Working S env dir fs x)
    (hw : Written (q.joins dir) texts' x) :
    R.Safe (fun r y => Housed S env dir y ∧ (r = .ok () →
        Working S env dir (fs ++ texts.map textFile) y ∧
          Written (q.joins dir) (texts' ++ texts) y) ∧ ∀ e, r = .error e → ¬F)
      (Cache.writeTexts (q.joins dir) texts).run x := by
  induction texts generalizing fs texts' x with
  | nil =>
    refine .pure fun y hy => ?_
    have hy' := Working.stable hR hpriv _ _ hy hx
    exact ⟨hy'.housed, fun _ => by simpa using ⟨hy', Written.stable hR _ _ hy hw⟩, by simp⟩
  | cons text texts ih =>
    obtain ⟨name, text⟩ := text
    have hfresh : ∀ f ∈ fs, f.1 ≠ name := by
      rintro f hf rfl
      have := (List.nodup_append.mp hn).2.2 f.1 (List.mem_map_of_mem hf) f.1 (by simp)
      exact this rfl
    have hlater : ((fs ++ [textFile (name, text)]).map (·.1) ++ texts.map (·.1)).Nodup := by
      simpa [textFile] using hn
    refine .ofThen (writeText_written hR hk hq hdir hpriv (hs (name, text) (by simp))
      (fun hF => hfit hF (name, text) (by simp)) hfresh hx hw) (fun _ y hy => ?_)
      fun e y hy => ⟨hy.1, by simp, fun _ _ => hy.2.2 e rfl⟩
    obtain ⟨hy, hwy⟩ := hy.2.1 rfl
    simpa using ih (fun text ht => hs text (by simp [ht]))
      (fun hF text ht => hfit hF text (by simp [ht])) hlater hy hwy

end Texts

section Moving

variable {place : Location} {good : Content → Bool → Prop} {I : Moment → Prop}
  (hR : Ground R m S F) (hq : S.Leads env.location q) (hpriv : Private R (S.root ++ dir))
  (hsrc : Source R S env p place good I) (hout : ¬S.root ++ dir <+: place)
  (hz : S.Apart fun l => S.root ++ dir <+: l ∨ l = place)
  (hk : R.Allows (Within fun l => S.root ++ dir <+: l ∨ l = place))
  (hs : IsPlain s) (hfit : F → IsProper s ∧ Tree.Short ((q.joins dir).join s))
  (hthere : F → ∀ y, I y → Standing S env y → y.files.resolve env.location false p = .ok place ∧
    ∃ number c e, y.files.get? place = some (.file number c e))
  (hgone : F → R.Stable (·.files.get? place = none))
include hR hq hpriv hsrc hz hk hs

include hout hfit hthere hgone in
theorem rename_working (hmove : ∀ x y, Changes (fun l => S.root ++ dir <+: l ∨ l = place) x y →
      y.past = ⟨.rename p ((q.joins dir).join s), .ok ()⟩ :: x.past → R.keep x y)
    (hx : Working S env dir [] x) (hI : I x) :
    R.Safe (fun r y =>
        (r = .ok () → (∃ c e, good c e ∧ Working S env dir [(s, c, e)] y) ∧
          (F → y.files.get? place = none)) ∧
        (∀ e, r = .error e → Working S env dir [] y ∧ I y ∧ ¬F))
      (Program.perform (.rename p ((q.joins dir).join s))) x := by
  apply Rules.Safe.perform
  intro y hy r w hr
  have hy' := Working.stable hR hpriv _ _ hy hx
  have hIy := hsrc.stable _ _ hy hI
  rcases (hR.act hr).rename with ⟨e, rfl, rfl⟩ | ⟨rfl, t, ht, rfl⟩
  · have hu : Unmoved y (y.after (.rename p ((q.joins dir).join s)) (.error e) y.world) :=
      .of_eq (by rintro ⟨_, _, ⟨⟩⟩) rfl rfl
    have hw := hy'.within hu.toChanges apart_none fun _ => not_false
    refine ⟨hk _ _ (hu.mono fun _ h => h.elim), fun z hzr => ?_⟩
    have hwz := Working.stable hR hpriv _ _ hzr hw
    have hadds : Adds (fun _ => False) y _ := .of_unmoved hu
    refine ⟨by simp, fun _ _ => ⟨hwz, hsrc.stable _ _ hzr (hsrc.adds hadds (.inr not_false) hIy), fun hF => ?_⟩⟩
    have herr := Step.eq_error_of_onFiles (Option.some.inj (hR.sure hF hr))
    rw [Path.joins_join] at herr
    obtain ⟨hres, number, c, x, hfile⟩ := hthere hF y hIy hy'.standing
    have hnone : y.files.get? (S.root ++ dir ++ [s]) = none := hy'.folder.absent (by simp)
    have hm := hy'.movable hfile hnone
    rw [← hy'.standing.directory] at hres
    rw [Tree.rename_free hres (hy'.resolve_to hq (by simp) (hfit hF).1 (hfit hF).2) hm hnone
      (Tree.demandsDirectory_joins (by simp))] at herr
    simp at herr
  · rw [hy'.standing.directory, Path.joins_join] at ht
    obtain ⟨hwf, ⟨c, e, hgood, hf⟩, haway, hget⟩ := Tree.rename_into hy'.standing.wellFormed
      hy'.folder (fun _ _ => hsrc.file hIy hy'.standing)
      (fun _ => hy'.resolve hq hs (by simp)) ht
    have hc : Changes (fun l => S.root ++ dir <+: l ∨ l = place) y
        (y.after (.rename p ((q.joins dir).join s)) (.ok ()) { y.world with files := t }) :=
      ⟨hget, fun _ => hwf, rfl⟩
    refine ⟨hmove _ _ hc rfl, fun z hzr => ⟨fun _ => ⟨⟨c, e, hgood, ?_⟩, fun hF => ?_⟩, by simp⟩⟩
    · exact Working.stable hR hpriv _ _ hzr ⟨hy'.standing.changes hc hz, hf⟩
    · exact hgone hF _ _ hzr (haway hout)

include hout in
theorem copy_working (hx : Working S env dir [] x) (hI : I x) :
    R.Safe (fun r y => Housed S env dir y ∧
        (r = .ok () → ∃ c e, good c e ∧ Working S env dir [(s, c, e)] y ∧ I y))
      (Program.perform (.copy p ((q.joins dir).join s))) x := by
  refine Rules.Safe.perform (s := .copy p ((q.joins dir).join s)) fun y hy r w hr => ?_
  have hy' := Working.stable hR hpriv _ _ hy hx
  have hIy := hsrc.stable _ _ hy hI
  have hnone : y.files.get? (S.root ++ (dir ++ [s])) = none := by
    rw [← List.append_assoc]
    exact hy'.folder.absent (by simp)
  have hplain := hy'.plain hs
  rcases (hR.act hr).copy with (⟨e, rfl, rfl⟩ | ⟨rfl, t, ht, rfl⟩) | ⟨e, rfl, c, t, ht, rfl⟩
  · have hu : Unmoved y (y.after (.copy p ((q.joins dir).join s)) (.error e) y.world) :=
      .of_eq (by rintro ⟨_, _, ⟨⟩⟩) rfl rfl
    refine ⟨hk _ _ (hu.mono fun _ h => h.elim), fun z hzr => ⟨?_, by simp⟩⟩
    exact Housed.stable hR hpriv _ _ hzr (hy'.housed.unmoved hu)
  · rw [hy'.standing.directory, Path.joins_join] at ht
    obtain ⟨number, c, e, hstat, l, hl, hcase⟩ := Tree.copy_eq_ok.mp ht
    obtain ⟨k, hk', hg⟩ := Tree.stat_eq_ok.mp hstat
    obtain ⟨rfl, n, c', e', hn, hgood⟩ := hsrc.file hIy hy'.standing hk' hg
    simp only [Node.file.injEq] at hn
    obtain ⟨rfl, rfl, rfl⟩ := hn
    obtain ⟨rfl, hp⟩ := hy'.resolve hq hs (by simp) hl
    have hnone' : y.world.files.get? (S.root ++ dir ++ [s]) = none := hy'.folder.absent (by simp)
    rcases hcase with ⟨_, _, _, hg', _⟩ | ⟨_, hg', _⟩ | ⟨_, _, rfl⟩
    · exact absurd (hnone'.symm.trans hg') (by simp)
    · exact absurd (hnone'.symm.trans hg') (by simp)
    have hwf : (y.files.insertFile (S.root ++ dir ++ [s]) c e).WellFormed :=
      hy'.standing.wellFormed.insertFile hy'.folder.directory hp hnone'
    have hadd : Adds (S.root ++ dir <+: ·) y
        (y.after (.copy p ((q.joins dir).join s)) (.ok ())
          { y.world with files := y.files.insertFile (S.root ++ dir ++ [s]) c e }) :=
      .of_tree (by rintro ⟨_, _, ⟨⟩⟩) hwf (List.prefix_append _ _) hnone' rfl
        (Tree.get?_insertFile (by simp))
    have hin : Within (fun l => S.root ++ dir <+: l ∨ l = k) _ _ := hadd.toWithin.mono fun _ => .inl
    refine ⟨hk _ _ hin, fun z hzr => ?_⟩
    have hwz := Working.stable hR hpriv _ _ hzr
      ⟨hy'.standing.within hin hz, hy'.folder.insertFile (c := c) (x := e) (by simp)⟩
    exact ⟨hwz.housed, fun _ => ⟨c, e, hgood, by simpa using hwz,
      hsrc.stable _ _ hzr (hsrc.adds hadd (.inr hout) hIy)⟩⟩
  · rw [hy'.standing.directory, Path.joins_join] at ht
    obtain ⟨hwf, hget⟩ := Tree.write_joins (hq _ hy'.standing.stands) hy'.standing.wellFormed
      (by simp) hplain (hy'.unlinked (by simp)) hnone ht
    have hin : Within (fun l => S.root ++ dir <+: l ∨ l = place) y
        (y.after (.copy p ((q.joins dir).join s)) (.error e) { y.world with files := t }) := by
      refine .of_tree (by rintro ⟨_, _, ⟨⟩⟩) hwf fun l hl => (hget l).trans (if_neg ?_)
      rintro rfl
      exact hl (.inl (by simp))
    refine ⟨hk _ _ hin, fun z hzr => ⟨Housed.stable hR hpriv _ _ hzr ⟨?_, ?_⟩, by simp⟩⟩
    · exact hy'.standing.within hin hz
    · show t.get? _ = _
      rw [hget, if_neg (by simp), hy'.folder.directory]

omit hq hs in
include hout in
theorem removeSource_working {c : Content} {e : Bool} (hx : Working S env dir [(s, c, e)] x)
    (hI : I x) :
    R.Safe (fun _ y => Working S env dir [(s, c, e)] y) (Program.perform (.removeFile p)) x := by
  refine Rules.Safe.perform (s := .removeFile p) fun y hy r w hr => ?_
  have hy' := Working.stable hR hpriv _ _ hy hx
  have hIy := hsrc.stable _ _ hy hI
  rcases (hR.act hr).removeFile with ⟨err, rfl, rfl⟩ | ⟨rfl, t, ht, rfl⟩
  · have hu : Unmoved y (y.after (.removeFile p) (.error err) y.world) :=
      .of_eq (by rintro ⟨_, _, ⟨⟩⟩) rfl rfl
    refine ⟨hk _ _ (hu.mono fun _ h => h.elim), fun z hzr => ?_⟩
    exact Working.stable hR hpriv _ _ hzr (hy'.within hu.toChanges apart_none fun _ => not_false)
  · rw [hy'.standing.directory] at ht
    obtain ⟨l, hl, n, hg, hd, rfl⟩ := Tree.removeFile_eq_ok.mp ht
    obtain ⟨rfl, _⟩ := hsrc.file hIy hy'.standing hl hg
    have hne : l ≠ [] := by
      rintro rfl
      simp only [Tree.get?_nil, Option.some.injEq] at hg
      simp [← hg, Node.isDirectory] at hd
    have hwf : (y.files.erase l).WellFormed :=
      hy'.standing.wellFormed.erase hne fun rest hr =>
        hy'.standing.wellFormed.get?_below (by
          rw [show y.files.get? l = some n from hg]
          rintro ⟨⟩
          simp [Node.isDirectory] at hd) hr
    have hin : Within (· = l) y
        (y.after (.removeFile p) (.ok ()) { y.world with files := y.files.erase l }) :=
      .of_tree (by rintro ⟨_, _, ⟨⟩⟩) hwf fun k hk => (Tree.get?_erase hne k).trans (if_neg hk)
    refine ⟨hk _ _ (hin.mono fun _ h => .inr h), fun z hzr => ?_⟩
    refine Working.stable hR hpriv _ _ hzr (hy'.within hin.toChanges
      ⟨fun h => hz.1 (.inr h), fun e he h => hz.2 e he (.inr h)⟩ fun rest hrest => hout ?_)
    exact hrest ▸ List.prefix_append _ _

include hout hfit hthere hgone in
theorem moveFile_working (hmove : ∀ x y, Changes (fun l => S.root ++ dir <+: l ∨ l = place) x y →
      y.past = ⟨.rename p ((q.joins dir).join s), .ok ()⟩ :: x.past → R.keep x y)
    (hx : Working S env dir [] x) (hI : I x) :
    R.Safe (fun r y => Housed S env dir y ∧
        (r = .ok () → (∃ c e, good c e ∧ Working S env dir [(s, c, e)] y) ∧
          (F → y.files.get? place = none)) ∧
        ∀ e, r = .error e → ¬F)
      (Cache.moveFile p ((q.joins dir).join s)).run x := by
  refine .liftThen (rename_working hR hq hpriv hsrc hout hz hk hs hfit hthere hgone hmove hx hI).settled
    fun r y hr => ?_
  cases r with
  | ok _ =>
    refine .pure fun z hzr => ?_
    obtain ⟨⟨c, e, hgood, hwz⟩, haway⟩ := (hr z hzr).1 rfl
    exact ⟨hwz.housed, fun _ => ⟨⟨c, e, hgood, hwz⟩, haway⟩, by simp⟩
  | error e =>
    obtain ⟨hwy, hIy, hnot⟩ := (hr y (R.refl y)).2 e rfl
    refine .ofThen (copy_working hR hq hpriv hsrc hout hz hk hs hwy hIy) (fun _ z hz' => ?_)
      fun e z hz' => ⟨hz'.1, by simp, fun _ _ => hnot⟩
    obtain ⟨c, e, hgood, hwz, hIz⟩ := hz'.2 rfl
    refine .liftThen (removeSource_working hR hpriv hsrc hout hz hk hwz hIz).settled fun _ u hu => ?_
    exact .pure fun v hv => ⟨(hu v hv).housed, fun _ => ⟨⟨c, e, hgood, hu v hv⟩,
      fun hF => absurd hF hnot⟩, by simp⟩

end Moving

end CompiledModels
