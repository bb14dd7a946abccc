import CompiledModels.Proofs.Publication
import CompiledModels.Proofs.Reading

/-!
Calls of the cache in which no step fails, as the paths are short enough: what they answer and
what they leave.
-/

namespace CompiledModels

open Files Program

namespace Files.Tree

variable {t : Tree} {cwd l : Location} {p : Path} {s : String} {follow : Bool} {names : List String}

theorem Leads.resolve_error {e : Errno} (h : t.Leads cwd p l) (hn : names ≠ [])
    (hshort : Short (p.joins names) ∨ e = .nameTooLong)
    (he : ∀ follow links, t.resolveFrom follow links l names = .error e) :
    t.resolve cwd follow (p.joins names) = .error (.os e) := by
  obtain ⟨links, hf⟩ := h.follows
  have hbase : (p.joins names).base = p.base := rfl
  have htail : (p.joins names).tail = p.tail ++ names := rfl
  have habs : (p.joins names).isAbsolute = p.isAbsolute := rfl
  have hempty : (p.tail ++ names).isEmpty = false := by simp [hn]
  have hfollow := hf (follow || demandsDirectory (p.joins names)) names hn
  rw [he, List.append_assoc] at hfollow
  simp only [resolve, hbase, htail, habs, hempty, h.plain, Bool.false_eq_true, if_false, and_false,
    hfollow]
  rcases hshort with hshort | rfl
  · exact if_neg (Nat.not_le.mpr hshort)
  · exact ite_self _

theorem Leads.resolve_missing (h : t.Leads cwd p l) (hs : IsProper s) (hn : t.get? (l ++ [s]) = none)
    (hnames : ∃ n ∈ names, IsPlain n) (hshort : Short (p.joins (s :: names))) :
    t.resolve cwd follow (p.joins (s :: names)) = .error (.os .noEntry) := by
  refine h.resolve_error (by simp) (.inl hshort) fun follow links => ?_
  have hall : names.all (fun s => s = "" ∨ s = ".") = false := by
    obtain ⟨n, hn, h1, h2, -⟩ := hnames
    exact List.all_eq_false.mpr ⟨n, hn, by simp [h1, h2]⟩
  have hdescend : t.descend follow l (s :: names) = .failed .noEntry := by
    rw [descend_proper hs, hn]
    exact if_neg (by rw [hall]; exact Bool.false_ne_true)
  unfold resolveFrom
  rw [hdescend]

theorem Leads.resolve_tooLong {dir : String} (h : t.Leads cwd p l) (hdir : IsProper dir)
    (hd : t.get? (l ++ [dir]) = some .directory) (hs : IsPlain s)
    (hlong : maxNameLength < s.utf8ByteSize) :
    t.resolve cwd follow (p.joins [dir, s]) = .error (.os .nameTooLong) := by
  refine h.resolve_error (by simp) (.inr rfl) fun follow links => ?_
  obtain ⟨h₁, h₂, h₃⟩ := hs
  have hdescend : t.descend follow (l ++ [dir]) [s] = .failed .nameTooLong := by
    simp only [descend, h₁, h₂, h₃, or_self, ↓reduceIte, hlong]
  rw [resolveFrom_directory hdir hd]
  unfold resolveFrom
  rw [hdescend]

end Files.Tree

variable {m : Machine} {S : Site} {w : World} {p q : Path} {top : List String} {c : Cache}
  {id : ModelIdentity}

theorem Ground.sound (m : Machine) (S : Site) (K : Moment → Moment → Prop) :
    Ground (.alone (Step.answers m) K) m S True :=
  .alone (fun _ _ _ _ h => .inl h) fun _ _ _ _ _ h => h

structure Emptied (S : Site) (l : Location) (w w' : World) : Prop where
  stands : S.Stands w'.files
  environment : w'.environment = w.environment
  bare : w'.files.Bare l
  others : ∀ k, ¬l <+: k → w'.files.get? k = w.files.get? k

theorem removeDirectory_missing (h : w.files.stat w.directory false p = .error (.os .noEntry)) :
    (Cache.removeDirectory p).run.Sees m w (.ok ()) := by
  have hstat : (perform (.stat p false)).Sees m w (.error (.os .noEntry)) := by
    rw [← h]
    rfl
  have hremove : (removeAll p).Sees m w (.error (.os .noEntry)) := hstat.next .pure
  exact hremove.lift.attempt .pure

section Removing

variable (hq : S.Leads w.environment.location q) (ht : top ≠ []) (hw : S.Stands w.files)
  (hs : ∀ s ∈ top, IsPlain s) (hu : w.files.Unlinked false S.root top)
  (hreach : S.Reaches q top w.files)
include hq ht hw hs hu hreach

theorem removeAll_succeeds (hdir : w.files.get? (S.root ++ top) = some .directory) :
    ∃ w', (removeAll (q.joins top)).run m w = some (.ok (), w') ∧ Emptied S (S.root ++ top) w w' := by
  let x : Moment := ⟨w, []⟩
  let Others (y : Moment) : Prop := ∀ k, ¬S.root ++ top <+: k → y.files.get? k = w.files.get? k
  have hsafe := removeAll_bare (R := .alone (Step.answers m) fun _ _ => True) (G := True)
    (Ground.sound m S _) hq ht (Rules.alone_stable _ _ _) (fun _ => Rules.alone_stable _ _ _)
    (fun _ => .alone) (x := x) ⟨hw, rfl⟩ hs hu
    fun _ => ⟨fun _ => hreach, .inl (.of_spot hw.wellFormed (.inr hdir))⟩
  have hothers := hsafe.withInvariant (J := Others) (fun _ _ => rfl) (Rules.alone_stable _ _ _)
    fun y z he hy k hk => (Erases.apart he hk).trans (hy k hk)
  obtain ⟨r, w', past, hrun, ⟨hy, hgone⟩, hoy⟩ := removeAll_brief.finishes (Z := (S.root ++ top <+: ·))
    hothers hw.wellFormed rfl fun y z (he : Erases _ y z) => he.within.toChanges
  obtain ⟨hr, hbare⟩ := (hgone trivial).resolve_right fun h => h.2 trivial
  obtain rfl : r = .ok () := hr.resolve_right fun hnone => absurd (hdir.symm.trans hnone) (by simp)
  exact ⟨w', hrun, hy.stands, hy.environment, hbare, hoy⟩

theorem removeDirectory_succeeds (hspot : w.files.Spot (S.root ++ top))
    (hmissing : w.files.get? (S.root ++ top) = none →
      w.files.stat w.directory false (q.joins top) = .error (.os .noEntry)) :
    ∃ w', (Cache.removeDirectory (q.joins top)).run.run m w = some (.ok (), w') ∧
      Emptied S (S.root ++ top) w w' := by
  rcases hspot with hnone | hdir
  · exact ⟨w, removeDirectory_missing (hmissing hnone), hw, rfl, hw.wellFormed.bare hnone,
      fun _ _ => rfl⟩
  obtain ⟨w', hrun, he⟩ := removeAll_succeeds (m := m) hq ht hw hs hu hreach hdir
  refine ⟨w', ?_, he⟩
  have hlift : (liftM (removeAll (q.joins top)) : Attempt CacheError _).run.run m w =
      some (.ok (.ok ()), w') := by
    show (removeAll (q.joins top) >>= _).run m w = _
    rw [run_bind, hrun]
    rfl
  show ((liftM (removeAll (q.joins top)) : Attempt CacheError _).run >>= _).run m w = _
  rw [run_bind, hlift]
  rfl

end Removing

theorem plain_models : IsPlain ModelIdentity.modelNamespace := by decide

theorem proper_models : IsProper ModelIdentity.modelNamespace := by decide

theorem stat_error {t : Tree} {cwd : Location} {follow : Bool} {e : FileError}
    (h : t.resolve cwd follow p = .error e) : t.stat cwd follow p = .error e := by
  rw [Tree.stat, h]
  rfl

theorem stat_none {t : Tree} {cwd l : Location} {follow : Bool}
    (h : t.resolve cwd follow p = .ok l) (hn : t.get? l = none) :
    t.stat cwd follow p = .error (.os .noEntry) := by
  rw [Tree.stat, h]
  simp only [Bind.bind, Except.bind, hn]
  rfl

section Entries

variable (hS : S.Serves w.environment c.root) (hw : S.Stands w.files) (hm : w.files.Spot S.models)
include hS hw hm

theorem stat_absent (hid : IsProper id.name ∧ Tree.Short (c.entryDirectory id))
    (hnone : w.files.get? (S.entry id) = none) :
    w.files.stat w.directory false (c.entryDirectory id) = .error (.os .noEntry) := by
  rw [Cache.entryDirectory_eq]
  have hshort : Tree.Short (c.root.joins [ModelIdentity.modelNamespace, id.name]) :=
    Cache.entryDirectory_eq c id ▸ hid.2
  rcases hm with hm | hm
  · exact stat_error ((hS.leads _ hw).resolve_missing proper_models hm
      ⟨id.name, by simp, id.isPlain⟩ hshort)
  · refine stat_none ((hS.leads _ hw).resolve_joins_to hw.wellFormed (by simp)
      (by simp [proper_models, hid.1]) (Tree.unlinked_pair.mpr (Tree.Spot.noLink (.inr hm))) ?_ hshort)
      hnone
    exact hm

theorem delete_succeeds (hid : IsProper id.name ∧ Tree.Short (c.entryDirectory id))
    (hspot : w.files.Spot (S.entry id))
    (hreach : S.Reaches c.root [ModelIdentity.modelNamespace, id.name] w.files) :
    ∃ w', (c.delete id).run.run m w = some (.ok (), w') ∧ Emptied S (S.entry id) w w' := by
  have habsent := stat_absent hS hw hm hid
  rw [Cache.delete, Cache.entryDirectory_eq]
  rw [Cache.entryDirectory_eq] at habsent
  exact removeDirectory_succeeds hS.leads (by simp) hw (by simp [plain_models, id.isPlain])
    (Tree.unlinked_pair.mpr hm.noLink) hreach hspot habsent

omit hm in
theorem removeTop_succeeds {d : String} (hd : IsProper d) (hshort : Tree.Short (c.root.join d))
    (hspot : w.files.Spot (S.root ++ [d])) (hreach : S.Reaches c.root [d] w.files) :
    ∃ w', (Cache.removeDirectory (c.root.join d)).run.run m w = some (.ok (), w') ∧
      Emptied S (S.root ++ [d]) w w' := by
  have hu (follow : Bool) : w.files.Unlinked follow S.root [d] :=
    Tree.unlinked_singleton fun _ => hspot.noLink
  refine removeDirectory_succeeds hS.leads (by simp) hw (by simpa using hd.1) (hu false) hreach hspot
    fun hnone => ?_
  refine stat_none ((hS.leads _ hw).resolve_joins_to hw.wellFormed (by simp) (by simpa using hd)
    (hu false) ?_ hshort) hnone
  simpa using hw.root

end Entries

/-- What is left where an entry was published whose module was at `place`. -/
structure Replaced (S : Site) (id : ModelIdentity) (place : Location)
    (fs : List (String × Content × Bool)) (w w' : World) : Prop where
  stands : S.Stands w'.files
  environment : w'.environment = w.environment
  entry : w'.files.Folder (S.entry id) fs
  source : w'.files.get? place = none
  staging : w'.files.Spot S.staging
  others : ∀ l, l ≠ S.staging → l ≠ S.models → l ≠ place → ¬S.entry id <+: l →
    w'.files.get? l = w.files.get? l

structure Prepared (S : Site) (c : Cache) (id : ModelIdentity) (names : List String) (w : World) :
    Prop where
  fits : Fits c (Path.inDirectory w.environment.directory c.root) id names
  staged : ∀ s, w.files.get? (S.stagedAt (stagedName id s)) = none
  retired : ∀ s, w.files.get? (S.retiredAt (retiredName id (stagedName id s))) = none
  spot : w.files.Spot (S.entry id)
  reaches : ∀ seed rest, w.files.get? (S.entry id ++ rest) ≠ none →
    Tree.Short ((c.retiredPath id (stagedName id (World.drawSuffix seed).1)).joins rest)

theorem store_succeeds {module : Path} {name output warnings : String} {content : Content}
    {executable : Bool} {manifest : Manifest} {place : Location} {number : Nat}
    (h : Publishable S c module name content executable w)
    (hl : w.files.resolve w.directory false module = .ok place)
    (hfile : w.files.get? place = some (.file number content executable))
    (hout : ¬S.models <+: place)
    (hp : Prepared S c id (name :: (Cache.texts output warnings manifest).map (·.1)) w) :
    ∃ w', (c.store id module output warnings manifest).run.run m w =
        some (.ok ((c.entryDirectory id).join name), w') ∧
      Replaced S id place
        (entryFiles name content executable (Cache.texts output warnings manifest)) w w' := by
  have hbare (s : String) := h.stands.wellFormed.bare (hp.retired s)
  have hsafe := Publishable.store_stored (Cache.texts output warnings manifest) h hl hfile hout rfl
    (fun _ => hp.fits) (fun _ => hp.staged)
    (fun seed => ⟨False.elim, fun _ => hp.spot, fun _ => hbare _, fun _ => hp.reaches seed⟩)
    (Ground.sound m S)
  have hatomic := hsafe.withInvariant Atomic.start (Rules.alone_stable _ _ _)
    fun y z hk hy => hy.publishing hout hk
  obtain ⟨r, w', past, hrun, ⟨⟨⟨hst, hsp⟩, har, hpath⟩, hend⟩, hat⟩ := store_brief.finishes hatomic
    h.stands.wellFormed rfl fun y z (hk : Publishing _ _ _ _ y z) => hk.changes
  obtain ⟨n, hbeside, ⟨s, hn⟩, hstaged, hsure⟩ := hend.resolve_left fun h => h.2.2 trivial
  obtain ⟨⟨file, rfl⟩, hretired, hsource⟩ := hsure trivial
  obtain rfl := hpath file rfl
  have hgone := hstaged.resolve_right fun h => h.2 trivial
  refine ⟨w', hrun, hst.stands, hst.environment, hat.folder (har.mp ⟨_, rfl⟩), hsource, hsp,
    fun l hls hlm hlp hle => ?_⟩
  by_cases hb : S.bench id False place n l
  · rcases hb with hb | ⟨rest, rfl⟩ | ⟨-, rest, rfl⟩ | hb
    · exact absurd hb hlm
    · have hfree := h.stands.wellFormed.bare (hn ▸ hp.staged s)
      exact (hgone rest).trans (hfree rest).symm
    · exact (hretired rest).trans (hn ▸ hbare s rest).symm
    · exact absurd hb hlp
  · exact hbeside l hls hb hle

end CompiledModels
