import CompiledModels.Proofs.History

/-!
Publishing an entry in the place of an earlier one. The name that the earlier one is moved to holds
that of the model twice: it is too long for some models all of whose other names are not.
-/

namespace CompiledModels

open Files Program

namespace Files.Tree

variable {t : Tree} {cwd l : Location} {p q : Path}

theorem rename_error {e : FileError} (ha : t.resolve cwd false p = .ok l)
    (hb : t.resolve cwd false q = .error e) : t.rename cwd p q = .error e := by
  simp only [rename, ha, hb]
  rfl

theorem Folder.not_above (h : t.Folder l []) {k : Location} {number : Nat} {content : Content}
    {executable : Bool} (hk : t.get? k = some (.file number content executable)) : ¬l <+: k := by
  rintro ⟨rest, rfl⟩
  by_cases hrest : rest = []
  · rw [hrest, List.append_nil, h.directory] at hk
    simp at hk
  · obtain ⟨f, hf, -⟩ := h.only rest hrest (by rw [hk]; simp)
    simp at hf

end Files.Tree

variable {m : Machine} {S : Site} {c : Cache} {id : ModelIdentity} {module : Path} {r : Record}
  {place : Location} {w w' : World} {Z Z' : Location → Prop} {n : String}

structure Adjusted (S : Site) (Z : Location → Prop) (w w' : World) : Prop where
  stands : S.Stands w'.files
  environment : w'.environment = w.environment
  others : ∀ l, ¬Z l → w'.files.get? l = w.files.get? l

namespace Adjusted

theorem mono (h : Adjusted S Z w w') (hz : ∀ l, Z l → Z' l) : Adjusted S Z' w w' :=
  ⟨h.stands, h.environment, fun l hl => h.others l (mt (hz l) hl)⟩

theorem trans {w'' : World} (h : Adjusted S Z w w') (h' : Adjusted S Z w' w'') :
    Adjusted S Z w w'' :=
  ⟨h'.stands, h'.environment.trans h.environment, fun l hl => (h'.others l hl).trans (h.others l hl)⟩

theorem of_changes {past : List Taken} (hw : S.Stands w'.files) (h : Changes Z ⟨w, []⟩ ⟨w', past⟩) :
    Adjusted S Z w w' := ⟨hw, h.environment, h.files⟩

end Adjusted

theorem Changes.refl (x : Moment) : Changes Z x x := ⟨fun _ _ => rfl, fun h => h, rfl⟩

theorem Changes.trans {x y z : Moment} (h : Changes Z x y) (h' : Changes Z y z) : Changes Z x z :=
  ⟨fun l hl => (h'.files l hl).trans (h.files l hl), fun hx => h'.wellFormed (h.wellFormed hx),
    h'.environment.trans h.environment⟩

theorem Program.Only.succeeds {ε α : Type} {p : Program (Except ε α)} {K : Moment → Moment → Prop}
    {post : Except ε α → Moment → Prop} (ho : p.Brief w.environment)
    (hs : (Rules.alone (Step.answers m) K).Safe post p ⟨w, []⟩) (hw : w.files.WellFormed)
    (hk : ∀ y z, K y z → Changes Z y z) (herr : ∀ e y, ¬post (.error e) y) :
    ∃ a w' past, p.run m w = some (.ok a, w') ∧ post (.ok a) ⟨w', past⟩ ∧
      Changes Z ⟨w, []⟩ ⟨w', past⟩ := by
  have hs' := hs.withInvariant (J := Changes Z ⟨w, []⟩) (.refl _) (Rules.alone_stable _ _ _)
    fun y z h hy => hy.trans (hk y z h)
  obtain ⟨r, w', past, hrun, hpost, hc⟩ := ho.finishes hs' hw rfl hk
  cases r with
  | ok a => exact ⟨a, w', past, hrun, hpost, hc⟩
  | error e => exact absurd hpost (herr e _)

section Pieces

variable (hS : S.Serves w.environment c.root) (hw : S.Stands w.files)
include hS hw

theorem createTop_succeeds {d : String} (hd : IsProper d) (hshort : Tree.Short (c.root.join d))
    (hspot : w.files.Spot (S.root ++ [d])) :
    ∃ w', (createAll (c.root.join d)).run m w = some (.ok (), w') ∧
      Adjusted S (· = S.root ++ [d]) w w' ∧ w'.files.get? (S.root ++ [d]) = some .directory := by
  have hsafe := createAll_made (R := .alone (Step.answers m) (Adds (· = S.root ++ [d])))
    (x := ⟨w, []⟩) (Ground.sound m S _) (fun _ _ h => h) hS.leads hd.1 .alone (fun _ => ⟨hd, hshort⟩)
    hS.held ⟨hw, rfl⟩ hspot
  obtain ⟨_, w', past, hrun, ⟨⟨hst, -⟩, hok, -⟩, hc⟩ := createAll_brief.succeeds hsafe hw.wellFormed
    (fun y z h => h.toChanges) fun e y h => h.2.2 e rfl trivial
  exact ⟨w', hrun, .of_changes hst.stands hc, hok rfl⟩

theorem makeStaged_succeeds (id : ModelIdentity) (hdir : w.files.get? S.staging = some .directory)
    (hfit : ∀ seed, IsProper (stagedName id (World.drawSuffix seed).1) ∧
      Tree.Short ((Path.inDirectory w.environment.directory c.root).joins
        [".staging", stagedName id (World.drawSuffix seed).1]))
    (hfree : ∀ s, w.files.get? (S.stagedAt (stagedName id s)) = none) :
    ∃ n w', (∃ seed, n = stagedName id (World.drawSuffix seed).1) ∧
      (makeTemporary ("entry_" ++ id.name ++ "_") c.stagingDirectory).run m w =
        some (.ok ((Path.inDirectory w.environment.directory c.root).joins [".staging", n]), w') ∧
      Adjusted S (· = S.stagedAt n) w w' ∧ w'.files.Folder (S.stagedAt n) [] := by
  have hat (s : String) : S.root ++ [".staging"] ++ ["entry_" ++ id.name ++ "_" ++ s] =
      S.stagedAt (stagedName id s) := by simp [Site.stagedAt, stagedName]
  let Others (n : String) (y : Moment) : Prop := ∀ l, l ≠ S.stagedAt n → y.files.get? l = w.files.get? l
  let K := Adds fun l => ∃ s, l = S.root ++ [".staging"] ++ ["entry_" ++ id.name ++ "_" ++ s]
  have hsafe : (Rules.alone (Step.answers m) K).Safe _
      (makeTemporary ("entry_" ++ id.name ++ "_") (c.root.joins [".staging"])) ⟨w, []⟩ := makeTemporary_fresh
    (P := fun y => ∀ l, y.files.get? l = w.files.get? l)
    (M := fun s y => y.files.Folder (S.stagedAt (stagedName id s)) [] ∧ Others (stagedName id s) y)
    (Ground.sound m S _) (show (Rules.alone _ K).Allows K from fun _ _ h => h) hS.full
    (plain_stagedName id) (Rules.alone_stable _ _ _)
    (.alone fun y z h hy l => (h.files l not_false).trans (hy l)) (fun _ => Rules.alone_stable _ _ _)
    (fun s y z hy h _ hf => by
      rw [hat] at h hf
      exact ⟨hf, fun l hl => (h.files l hl).trans (hy l)⟩)
    (fun _ => Rules.alone_stable _ _ _) (fun _ => hfit) rfl ⟨hw, rfl⟩ hdir (fun _ => rfl)
    fun _ s => by rw [hat]; exact hfree s
  have hbrief : (makeTemporary ("entry_" ++ id.name ++ "_") c.stagingDirectory).Brief w.environment :=
    (prompt_only brief_prompt rfl).next fun _ _ =>
      (makeFresh_only brief_prompt maxTries fun _ => rfl).weaken fun _ _ => trivial
  obtain ⟨p, w', past, hrun, ⟨⟨hst, -⟩, hok, -⟩, hc⟩ := hbrief.succeeds hsafe hw.wellFormed
    (fun y z h => h.toChanges) fun e y h => (h.2.2 e rfl).2 trivial
  obtain ⟨seed, _, rfl, rfl, -, hf, ho⟩ := hok p rfl
  exact ⟨_, w', ⟨seed, rfl⟩, hrun, ⟨hst.stands, hc.environment, ho⟩, hf⟩

variable {q : Path} (hq : S.Leads w.environment.location q)
include hq

omit hS in
theorem moveFile_succeeds {number : Nat} {content : Content} {executable : Bool} {name : String}
    (hf : w.files.Folder (S.stagedAt n) [])
    (hl : w.files.resolve w.directory false module = .ok place)
    (hfile : w.files.get? place = some (.file number content executable))
    (hz : S.Apart (· = place)) (hn : IsProper name)
    (hshort : Tree.Short ((q.joins [".staging", n]).join name)) :
    ∃ w', (Cache.moveFile module ((q.joins [".staging", n]).join name)).run.run m w =
        some (.ok (), w') ∧ Adjusted S (fun l => S.stagedAt n <+: l ∨ l = place) w w' ∧
      w'.files.Folder (S.stagedAt n) [(name, content, executable)] ∧ w'.files.get? place = none := by
  let K := Changes fun l => S.stagedAt n <+: l ∨ l = place
  have hfound : Found w.environment module place (.file number content executable) ⟨w, []⟩ :=
    Publishable.found hl hfile
  have hsafe : (Rules.alone (Step.answers m) K).Safe _
      (Cache.moveFile module ((q.joins [".staging", n]).join name)).run ⟨w, []⟩ := moveFile_working
    (Ground.sound m S K) hq .alone (.found (Rules.alone_stable _ _ _)) (hf.not_above hfile)
    ((apart_under (by simp)).or hz) (fun _ _ h => h.toChanges) hn.1 (fun _ => ⟨hn, hshort⟩)
    (fun _ y hy _ => ⟨hy.leads false, _, _, _, hy.there⟩) (fun _ => Rules.alone_stable _ _ _)
    (fun _ _ h _ => h) ⟨⟨hw, rfl⟩, hf⟩ hfound
  obtain ⟨_, w', past, hrun, ⟨⟨hst, -⟩, hok, -⟩, hc⟩ := moveFile_brief.succeeds hsafe hw.wellFormed
    (fun y z h => h) fun e y h => h.2.2 e rfl trivial
  obtain ⟨⟨_, _, ⟨rfl, rfl⟩, hwork⟩, hgone⟩ := hok rfl
  exact ⟨w', hrun, .of_changes hst.stands hc, hwork.folder, hgone trivial⟩

omit hS in
theorem writeTexts_succeeds {fs : List (String × Content × Bool)} (texts : List (String × String))
    (hf : w.files.Folder (S.stagedAt n) fs) (hn : (fs.map (·.1) ++ texts.map (·.1)).Nodup)
    (hfit : ∀ text ∈ texts, IsProper text.1 ∧ Tree.Short ((q.joins [".staging", n]).join text.1)) :
    ∃ w', (Cache.writeTexts (q.joins [".staging", n]) texts).run.run m w = some (.ok (), w') ∧
      Adjusted S (S.stagedAt n <+: ·) w w' ∧
      w'.files.Folder (S.stagedAt n) (fs ++ texts.map textFile) := by
  have hsafe := writeTexts_written (R := .alone (Step.answers m) (Within (S.root ++ [".staging", n] <+: ·)))
    (x := ⟨w, []⟩) (Ground.sound m S _) (fun _ _ h => h) hq (by simp) .alone
    (fun text ht => (hfit text ht).1.1) (fun _ => hfit) hn ⟨⟨hw, rfl⟩, hf⟩
    (show Written _ [] _ by simp [Written])
  obtain ⟨_, w', past, hrun, ⟨⟨hst, -⟩, hok, -⟩, hc⟩ := (writeTexts_brief texts).succeeds hsafe
    hw.wellFormed (fun y z h => h.toChanges) fun e y h => h.2.2 e rfl trivial
  exact ⟨w', hrun, .of_changes hst.stands hc, (hok rfl).1.folder⟩

end Pieces

def Cache.stagedPath (c : Cache) (w : World) (n : String) : Path :=
  (Path.inDirectory w.environment.directory c.root).joins [".staging", n]

def Cache.install (c : Cache) (id : ModelIdentity) (staged : Path) (name : String) :
    Attempt CacheError Path := do
  c.retire id staged
  Attempt.of (perform (.rename staged (c.entryDirectory id))) (.io (c.entryDirectory id))
  return (c.entryDirectory id).join name

/-- A module of `id`, with a build number of twelve bytes, that can be stored with `r`. No path to
the cache is so long that the names in it matter, and what is used in passing is free. -/
structure Offered (S : Site) (c : Cache) (id : ModelIdentity) (module : Path) (r : Record)
    (place : Location) (w : World) : Prop where
  publishable : Publishable S c module r.name r.content r.executable w
  build : ∃ number, number.utf8ByteSize = 12 ∧ r.name = ModuleFile.name id number
  leads : w.files.resolve w.directory false module = .ok place
  file : ∃ number, w.files.get? place = some (.file number r.content r.executable)
  outside : ¬S.models <+: place
  proper : IsProper r.name
  root : c.root.text.utf8ByteSize ≤ 2000
  full : (Path.inDirectory w.environment.directory c.root).text.utf8ByteSize ≤ 2000
  staged : ∀ s, w.files.get? (S.stagedAt (stagedName id s)) = none
  retired : ∀ s, w.files.get? (S.retiredAt s) = none

structure Laid (S : Site) (fs : List (String × Content × Bool)) (n : String) (place : Location)
    (w w' : World) : Prop extends
    Adjusted S (fun l => l = S.staging ∨ l = S.models ∨ S.stagedAt n <+: l ∨ l = place) w w' where
  staging : w'.files.get? S.staging = some .directory
  models : w'.files.get? S.models = some .directory
  folder : w'.files.Folder (S.stagedAt n) fs
  source : w'.files.get? place = none

namespace Offered

theorem size_name (h : Offered S c id module r place w) :
    r.name.utf8ByteSize = id.name.utf8ByteSize + 31 := by
  obtain ⟨number, hsize, hname⟩ := h.build
  have h₁ : ModuleFile.start.utf8ByteSize = 15 := by decide
  have h₂ : "_".utf8ByteSize = 1 := by decide
  have h₃ : ".".utf8ByteSize = 1 := by decide
  have h₄ : Compiler.moduleExtension.utf8ByteSize = 2 := by decide
  simp only [hname, ModuleFile.name, String.utf8ByteSize_append, h₁, h₂, h₃, h₄, hsize]
  omega

theorem size_id (h : Offered S c id module r place w) : id.name.utf8ByteSize ≤ 224 := by
  have hsize := h.proper.2
  rw [h.size_name, Tree.maxNameLength] at hsize
  omega

theorem proper_id (h : Offered S c id module r place w) : IsProper id.name := by
  have hsize := h.size_id
  refine ⟨id.isPlain, ?_⟩
  rw [Tree.maxNameLength]
  omega

theorem staged_fits (h : Offered S c id module r place w)
    (hn : ∃ seed, n = stagedName id (World.drawSuffix seed).1) :
    IsProper n ∧ Tree.Short (c.stagedPath w n) ∧
      ∀ s, IsProper s → Tree.Short ((c.stagedPath w n).join s) := by
  obtain ⟨seed, rfl⟩ := hn
  have hid := h.size_id
  have hsize : (stagedName id (World.drawSuffix seed).1).utf8ByteSize ≤ Tree.maxNameLength := by
    rw [size_stagedName, Tree.maxNameLength]
    omega
  exact ⟨⟨plain_stagedName id _, hsize⟩, short_joins h.full (by decide) hsize,
    fun s hs => short_joins_join h.full (by decide) hsize hs.2⟩

theorem resolve_staged {x : Moment} (h : Offered S c id module r place w)
    (hn : ∃ seed, n = stagedName id (World.drawSuffix seed).1) (hx : Standing S w.environment x)
    (hs : x.files.get? S.staging = some .directory) :
    x.files.resolve x.world.directory false (c.stagedPath w n) = .ok (S.stagedAt n) := by
  obtain ⟨hproper, hshort, -⟩ := h.staged_fits hn
  have hpair := hx.resolve_pair h.publishable.serves.full hs hproper hshort
    fun hf => absurd hf Bool.false_ne_true
  exact hpair

structure Opened (S : Site) (id : ModelIdentity) (module : Path) (r : Record) (place : Location)
    (n : String) (w w' : World) : Prop extends
    Adjusted S (fun l => l = S.staging ∨ l = S.stagedAt n) w w' where
  staging : w'.files.get? S.staging = some .directory
  folder : w'.files.Folder (S.stagedAt n) []
  leads : w'.files.resolve w'.directory false module = .ok place
  file : ∃ number, w'.files.get? place = some (.file number r.content r.executable)

theorem opens (h : Offered S c id module r place w) : ∃ seed w₁ w₂,
    c.openStaging.run.run m w = some (.ok c.stagingDirectory, w₁) ∧
    (makeTemporary ("entry_" ++ id.name ++ "_") c.stagingDirectory).run m w₁ =
      some (.ok (c.stagedPath w (stagedName id (World.drawSuffix seed).1)), w₂) ∧
    Opened S id module r place (stagedName id (World.drawSuffix seed).1) w w₂ := by
  obtain ⟨number, hfile⟩ := h.file
  have hp := h.publishable
  obtain ⟨w₁, hopen, h₁, hdir⟩ := createTop_succeeds (m := m) hp.serves hp.stands (d := ".staging")
    (by decide) (short_join h.root (by decide)) hp.staging
  have hfree (s : String) : w₁.files.get? (S.stagedAt (stagedName id s)) = none :=
    (h₁.others _ (by simp [Site.stagedAt])).trans (h.staged s)
  obtain ⟨_, w₂, ⟨seed, rfl⟩, hmake, h₂, hempty⟩ := makeStaged_succeeds (m := m)
    (h₁.environment ▸ hp.serves) h₁.stands id hdir
    (fun seed => by rw [h₁.environment]; exact (h.staged_fits ⟨seed, rfl⟩).imp_right (·.1)) hfree
  have hext : w₂.files.Extends w.files := fun l hl => by
    have hstaged : l ≠ S.stagedAt (stagedName id (World.drawSuffix seed).1) := fun he =>
      hl (he ▸ h.staged _)
    refine (h₂.others l hstaged).trans ?_
    by_cases he : l = S.staging
    · subst he
      exact hdir.trans (hp.staging.resolve_left hl).symm
    · exact h₁.others l he
  have hsome : w.files.get? place ≠ none := by rw [hfile]; simp
  have hd : w₂.directory = w.directory := by
    rw [World.directory, World.directory, h₂.environment, h₁.environment]
  rw [h₁.environment] at hmake
  refine ⟨seed, w₁, w₂, Attempt.run_ofThen_ok hopen, hmake,
    ⟨(h₁.mono fun _ => .inl).trans (h₂.mono fun _ => .inr), ?_, hempty, ?_, number, ?_⟩⟩
  · exact (h₂.others _ (by simp [Site.staging, Site.stagedAt])).trans hdir
  · rw [hd]
    exact Tree.resolve_extends hext h.leads hsome
  · exact (hext place hsome).trans hfile

theorem assembles (h : Offered S c id module r place w)
    (hn : ∃ seed, n = stagedName id (World.drawSuffix seed).1) (h₀ : Opened S id module r place n w w') :
    ∃ w₁, Laid S r.files n place w w₁ ∧
      (c.assemble id module r.output r.warnings r.manifest (c.stagedPath w n)).run.run m w' =
        (c.install id (c.stagedPath w n) r.name).run.run m w₁ := by
  obtain ⟨number, hfile⟩ := h₀.file
  have hp := h.publishable
  obtain ⟨-, -, hshorts⟩ := h.staged_fits hn
  have hplace : S.Apart (· = place) ∧ place ≠ S.staging := by
    obtain ⟨number, hfile⟩ := h.file
    exact hp.place_ne hfile
  have hproper {s : String} (hs : s ∈ r.names) : IsProper s :=
    r.proper_of_mem_names hp.isName h.proper.2 hs
  have hleads {w₁ : World} (he : w₁.environment = w.environment) :
      S.Leads w₁.environment.location (Path.inDirectory w.environment.directory c.root) := by
    rw [he]
    exact hp.serves.full
  obtain ⟨w₁, hmove, h₁, hmoved, hgone⟩ := moveFile_succeeds (m := m) h₀.stands (hleads h₀.environment)
    h₀.folder h₀.leads hfile hplace.1 h.proper (hshorts _ h.proper)
  have he₁ := h₁.environment.trans h₀.environment
  obtain ⟨w₂, hwrite, h₂, hfolder⟩ := writeTexts_succeeds (m := m) h₁.stands (hleads he₁)
    r.texts hmoved (ModuleFile.nodup_of_isName hp.isName _ _ _) fun text ht =>
      have hs := hproper (List.mem_cons_of_mem _ (List.mem_map_of_mem ht))
      ⟨hs, hshorts _ hs⟩
  have he₂ := h₂.environment.trans he₁
  have hout : ¬S.stagedAt n <+: place := h₀.folder.not_above hfile
  have hbefore : Adjusted S (fun l => l = S.staging ∨ S.stagedAt n <+: l ∨ l = place) w w₂ :=
    ((h₀.mono fun l hl => hl.imp_right fun hl => .inl (hl ▸ List.prefix_refl _)).trans
      (h₁.mono fun l hl => .inr hl)).trans (h₂.mono fun l hl => .inr (.inl hl))
  have hsame {l : Location} (hl : ¬S.stagedAt n <+: l) (hp : l ≠ place) :
      w₂.files.get? l = w'.files.get? l := (h₂.others l hl).trans (h₁.others l (not_or.mpr ⟨hl, hp⟩))
  have hmodels : w₂.files.get? S.models = w.files.get? S.models :=
    hbefore.others _ <| not_or.mpr ⟨by simp [Site.models, Site.staging, ModelIdentity.modelNamespace],
      not_or.mpr ⟨S.not_staged_models n, fun he => h.outside (he ▸ List.prefix_refl _)⟩⟩
  obtain ⟨w₃, hcreate, h₃, hdir⟩ := createTop_succeeds (m := m) (he₂ ▸ hp.serves) h₂.stands
    (d := ModelIdentity.modelNamespace) (by decide) (short_join h.root (by decide))
    (by simpa only [Tree.Spot, Site.models] using hmodels ▸ hp.models)
  have hlater {l : Location} (hl : l ≠ S.models) : w₃.files.get? l = w₂.files.get? l := h₃.others l hl
  refine ⟨w₃, ⟨(hbefore.mono ?_).trans (h₃.mono fun l hl => .inr (.inl hl)), ?_, hdir, ?_, ?_⟩, ?_⟩
  · exact fun l hl => hl.imp_right .inr
  · refine (hlater (by simp [Site.models, Site.staging, ModelIdentity.modelNamespace])).trans
      ((hsame (S.not_staged_staging n) (Ne.symm hplace.2)).trans h₀.staging)
  · exact hfolder.congr fun rest => hlater (by simp [Site.stagedAt, Site.models])
  · refine (hlater fun he => h.outside (he ▸ List.prefix_refl _)).trans ((h₂.others _ hout).trans hgone)
  · simp only [Cache.assemble, hp.fileName]
    exact (Attempt.run_bind_ok hmove).trans
      ((Attempt.run_bind_ok hwrite).trans (Attempt.run_ofThen_ok hcreate))

theorem lays (h : Offered S c id module r place w) : ∃ n w',
    (∃ seed, n = stagedName id (World.drawSuffix seed).1) ∧ Laid S r.files n place w w' ∧
    (c.storeRecord id module r).run.run m w = ((c.install id (c.stagedPath w n) r.name).andThen
      (do let _ ← removeAll (c.stagedPath w n))).run.run m w' := by
  obtain ⟨seed, w₁, w₂, hopen, hmake, h₂⟩ := h.opens (m := m)
  obtain ⟨w₃, hlaid, hrun⟩ := h.assembles (m := m) ⟨seed, rfl⟩ h₂
  refine ⟨_, w₃, ⟨seed, rfl⟩, hlaid, ?_⟩
  rw [Cache.storeRecord, Cache.store_eq, Attempt.run_bind_ok hopen, Attempt.inTemporary, Attempt.run_ofThen_ok hmake,
    Attempt.run_andThen, Attempt.run_andThen, hrun]

end Offered

namespace Laid

theorem standing (hl : Laid S r.files n place w w') : Standing S w.environment ⟨w', []⟩ :=
  ⟨hl.stands, hl.environment⟩

theorem same_entry (hl : Laid S r.files n place w w') (h : Offered S c id module r place w) :
    w.files.Same w'.files (S.entry id) := by
  refine fun rest => hl.others _ ?_
  rintro (he | he | he | rfl)
  · simp [Site.entry, Site.staging, ModelIdentity.modelNamespace] at he
  · simp [Site.entry, Site.models] at he
  · exact S.not_staged_entry n rest he
  · exact h.outside ⟨id.name :: rest, by simp [Site.models, Site.entry]⟩

variable (hl : Laid S r.files n place w w') (h : Offered S c id module r place w)
  (hn : ∃ seed, n = stagedName id (World.drawSuffix seed).1)
include hl h

theorem resolve_entry {follow : Bool} (hspot : w.files.Spot (S.entry id)) :
    w'.files.resolve w'.directory follow (c.entryDirectory id) = .ok (S.entry id) := by
  have hroot := hl.same_entry h []
  rw [List.append_nil] at hroot
  have hspot' : w'.files.Spot (S.entry id) := hspot.imp hroot.trans hroot.trans
  have hpair := hl.standing.resolve_pair h.publishable.serves.leads hl.models h.proper_id
    (short_joins h.root (by decide) h.proper_id.2) fun _ : follow = true => hspot'.noLink
  rw [Cache.entryDirectory_eq]
  exact hpair

include hn

theorem install_ok_of_absent (hnone : w.files.get? (S.entry id) = none) :
    ∃ w'', ((c.install id (c.stagedPath w n) r.name).andThen
        (do let _ ← removeAll (c.stagedPath w n))).run.run m w' =
      some (.ok ((c.entryDirectory id).join r.name), w'') ∧
      Adjusted S (fun l => S.stagedAt n <+: l ∨ S.entry id <+: l) w' w'' ∧
      w''.files.Folder (S.entry id) r.files ∧ w''.files.Bare (S.stagedAt n) := by
  have hwf := hl.stands.wellFormed
  have hentry : w'.files.get? (S.entry id) = none := by
    have hroot := hl.same_entry h []
    rw [List.append_nil] at hroot
    exact hroot.trans hnone
  have hto {follow : Bool} : w'.files.resolve w'.directory follow (c.entryDirectory id) =
      .ok (S.entry id) := hl.resolve_entry h (.inl hnone)
  have hfrom := h.resolve_staged hn hl.standing hl.staging
  have hm : w'.files.Movable (S.stagedAt n) (S.entry id) :=
    hwf.movable (by rw [hl.folder.directory]; simp) (by simp [Site.stagedAt]) hentry
      (by simpa using S.not_staged_entry n [])
  let t := w'.files.move (S.stagedAt n) (S.entry id)
  have hmove : w'.files.rename w'.directory (c.stagedPath w n) (c.entryDirectory id) = .ok t := by
    refine Tree.rename_free hfrom hto hm hentry ?_
    rw [Cache.entryDirectory_eq]
    exact Tree.demandsDirectory_joins (by simp)
  obtain ⟨hwf', hfolder, -, hbare, hsame⟩ := Tree.rename_folder hwf hl.folder
    (fun a ha => Except.ok.inj (ha.symm.trans hfrom))
    (fun b hb => ⟨(Except.ok.inj (hb.symm.trans hto)).trans (S.entry_eq id), h.proper_id, hl.models⟩)
    (by simp [Site.stagedAt, Site.models, ModelIdentity.modelNamespace]) hmove
  rw [← S.entry_eq] at hfolder hsame
  have hothers (l : Location) (hout : ¬(S.stagedAt n <+: l ∨ S.entry id <+: l)) :
      t.get? l = w'.files.get? l := hsame l (not_or.mp hout).1 (not_or.mp hout).2
  have hstands := hl.stands.change hwf' (S.apart_staged_entry n id) hothers
  have hlook : (pathExists (c.entryDirectory id)).Sees m w' false := by
    have hstat : (perform (.stat (c.entryDirectory id) true)).Sees m w' (.error (.os .noEntry)) := by
      rw [← stat_none hto hentry]
      rfl
    exact hstat.next .pure
  have hretire : (c.retire id (c.stagedPath w n)).run.Sees m w' (.ok ()) := hlook.lift.attempt .pure
  have hrename : (perform (.rename (c.stagedPath w n) (c.entryDirectory id))).run m w' =
      some (.ok (), { w' with files := t }) := by
    show some (Step.onFiles w' (w'.files.rename w'.directory _ _)) = _
    rw [hmove]
    rfl
  have hstaging : t.get? S.staging = some .directory :=
    (hsame _ (S.not_staged_staging n) (S.not_entry_staging id)).trans hl.staging
  have hgone : (removeAll (c.stagedPath w n)).Sees m { w' with files := t } (.error (.os .noEntry)) := by
    have hempty : t.get? (S.stagedAt n) = none := by simpa using hbare []
    have hstat : (perform (.stat (c.stagedPath w n) false)).Sees m { w' with files := t }
        (.error (.os .noEntry)) := by
      rw [← stat_none (h.resolve_staged (x := ⟨{ w' with files := t }, []⟩) hn ⟨hstands, hl.environment⟩
        hstaging) hempty]
      rfl
    exact hstat.next .pure
  refine ⟨{ w' with files := t }, ?_, ⟨hstands, rfl, hothers⟩, hfolder, hbare⟩
  have hinstall : (c.install id (c.stagedPath w n) r.name).run.run m w' =
      some (.ok ((c.entryDirectory id).join r.name), { w' with files := t }) :=
    hretire.run_attempt.trans (Attempt.run_ofThen_ok hrename)
  rw [Attempt.run_andThen, hinstall, Option.bind_some, hgone.run_next]
  rfl

theorem install_error_of_long (hdir : w.files.get? (S.entry id) = some .directory)
    (hlong : 116 < id.name.utf8ByteSize) :
    ∃ w'', ((c.install id (c.stagedPath w n) r.name).andThen
        (do let _ ← removeAll (c.stagedPath w n))).run.run m w' =
      some (.error (.io (c.entryDirectory id) (.os .nameTooLong)), w'') ∧
      Emptied S (S.stagedAt n) w' w'' := by
  have hentry : w'.files.get? (S.entry id) = some .directory := by
    have hroot := hl.same_entry h []
    rw [List.append_nil] at hroot
    exact hroot.trans hdir
  have hto {follow : Bool} : w'.files.resolve w'.directory follow (c.entryDirectory id) =
      .ok (S.entry id) := hl.resolve_entry h (.inr hdir)
  have hlook : (pathExists (c.entryDirectory id)).Sees m w' true := by
    have hstat : (perform (.stat (c.entryDirectory id) true)).Sees m w' (.ok .directory) := by
      rw [← Tree.stat_eq_ok.mpr ⟨_, hto, hentry⟩]
      rfl
    exact hstat.next .pure
  have hlead (q : Path) (hq : S.Leads w.environment.location q) : S.Leads w'.environment.location q := by
    rw [hl.environment]
    exact hq
  have hretired : w'.files.resolve w'.directory false (c.retiredPath id n) =
      .error (.os .nameTooLong) := by
    have hsize : Tree.maxNameLength < ("retired_" ++ retiredName id n).utf8ByteSize := by
      obtain ⟨seed, rfl⟩ := hn
      rw [size_retiredName, Tree.maxNameLength]
      omega
    exact (hlead _ h.publishable.serves.leads _ hl.stands).resolve_tooLong (by decide) hl.staging
      (plain_of_start (by decide) _) hsize
  have hname : c.stagingDirectory.join ("retired_" ++ id.name ++ "_" ++
      (c.stagedPath w n).fileName?.getD "entry") = c.retiredPath id n := by
    rw [Cache.stagedPath, Path.fileName?_pair, Option.getD_some]
    simp [Cache.retiredPath, retiredName, Cache.stagingDirectory, Path.join, Path.joins,
      String.append_assoc]
  have hrename : (perform (.rename (c.entryDirectory id) (c.stagingDirectory.join ("retired_" ++ id.name ++
      "_" ++ (c.stagedPath w n).fileName?.getD "entry")))).Sees m w' (.error (.os .nameTooLong)) := by
    rw [hname]
    show some (Step.onFiles w' (w'.files.rename w'.directory _ _)) = _
    rw [Tree.rename_error hto hretired]
    rfl
  have hretire : (c.retire id (c.stagedPath w n)).run.Sees m w'
      (.error (.io (c.entryDirectory id) (.os .nameTooLong))) :=
    hlook.lift.attempt (hrename.of _).fail
  obtain ⟨hproper, hshort, hshorts⟩ := h.staged_fits hn
  have hreaches : S.Reaches (Path.inDirectory w.environment.directory c.root) [".staging", n] w'.files := by
    intro rest hrest
    rcases eq_or_ne rest [] with rfl | hne
    · rw [List.append_nil]
      exact hshort
    · obtain ⟨f, -, rfl⟩ := hl.folder.only rest hne hrest
      have hf := hl.stands.wellFormed.proper_of_get? hrest f.1 (by simp)
      rw [← Path.joins_join]
      exact hshorts _ hf
  obtain ⟨w'', hremove, hempty⟩ := removeAll_succeeds (m := m) (hlead _ h.publishable.serves.full)
    (by simp) hl.stands (by simp [hproper.1, show IsPlain ".staging" by decide])
    (Tree.unlinked_pair.mpr (Tree.Spot.noLink (.inr hl.staging))) hreaches hl.folder.directory
  refine ⟨w'', ?_, hempty⟩
  have hinstall : (c.install id (c.stagedPath w n) r.name).run.run m w' =
      some (.error (.io (c.entryDirectory id) (.os .nameTooLong)), w') := hretire.fail
  have hremove' : (removeAll (c.stagedPath w n)).run m w' = some (.ok (), w'') := hremove
  rw [Attempt.run_andThen, hinstall, Option.bind_some, run_bind, hremove']
  rfl

end Laid

namespace Offered

theorem bare_staged (h : Offered S c id module r place w)
    (hn : ∃ seed, n = stagedName id (World.drawSuffix seed).1) : w.files.Bare (S.stagedAt n) := by
  obtain ⟨seed, rfl⟩ := hn
  exact h.publishable.stands.wellFormed.bare (h.staged _)

theorem not_staged_place (h : Offered S c id module r place w)
    (hn : ∃ seed, n = stagedName id (World.drawSuffix seed).1) : ¬S.stagedAt n <+: place := by
  obtain ⟨number, hfile⟩ := h.file
  rintro ⟨rest, rfl⟩
  exact absurd (hfile.symm.trans (h.bare_staged hn rest)) (by simp)

theorem store_new (h : Offered S c id module r place w) (hnone : w.files.get? (S.entry id) = none) :
    ∃ w', (c.storeRecord id module r).run.run m w =
        some (.ok ((c.entryDirectory id).join r.name), w') ∧ Replaced S id place r.files w w' := by
  obtain ⟨n, w₁, hn, hl, hrun⟩ := h.lays (m := m)
  obtain ⟨w₂, hrest, hadjust, hfolder, hbare⟩ := hl.install_ok_of_absent (m := m) h hn hnone
  have hfree := h.bare_staged hn
  have hplace := h.not_staged_place hn
  have hentry : ¬S.entry id <+: place := fun hp =>
    h.outside ((show S.models <+: S.entry id from S.entry_eq id ▸ List.prefix_append _ _).trans hp)
  refine ⟨w₂, hrun.trans hrest, hadjust.stands, hadjust.environment.trans hl.environment, hfolder,
    (hadjust.others _ (not_or.mpr ⟨hplace, hentry⟩)).trans hl.source, .inr ?_, fun l hs hm hp he => ?_⟩
  · exact (hadjust.others _ (not_or.mpr ⟨S.not_staged_staging n, S.not_entry_staging id⟩)).trans hl.staging
  · by_cases hin : S.stagedAt n <+: l
    · obtain ⟨rest, rfl⟩ := hin
      exact (hbare rest).trans (hfree rest).symm
    · refine (hadjust.others l (not_or.mpr ⟨hin, he⟩)).trans (hl.others l ?_)
      simp [hs, hm, hin, hp]

theorem store_replaces (h : Offered S c id module r place w) {old : Record}
    (hold : w.files.Folder (S.entry id) old.files) (hid : id.name.utf8ByteSize ≤ 116) :
    ∃ w', (c.storeRecord id module r).run.run m w =
        some (.ok ((c.entryDirectory id).join r.name), w') ∧ Replaced S id place r.files w w' := by
  have hp := h.publishable
  obtain ⟨number, hfile⟩ := h.file
  have hsuits : r.Suits c w.environment id :=
    r.suits_of_size hp.isName h.proper.2 hid h.root h.full
  refine store_succeeds hp h.leads hfile h.outside ⟨hsuits.store, h.staged, fun s => h.retired _,
    .inr hold.directory, fun seed rest hne => ?_⟩
  rcases eq_or_ne rest [] with rfl | hrest
  · rw [Path.joins_nil]
    exact (hsuits.store.builds seed).retired.2
  · obtain ⟨f, -, rfl⟩ := hold.only rest hrest hne
    exact short_joins_join h.root (by decide) (hsuits.store.builds seed).retired.1.2
      (hp.stands.wellFormed.proper_of_get? hne f.1 (by simp)).2

theorem store_refused (h : Offered S c id module r place w)
    (hdir : w.files.get? (S.entry id) = some .directory) (hid : 116 < id.name.utf8ByteSize) :
    ∃ w', (c.storeRecord id module r).run.run m w =
        some (.error (.io (c.entryDirectory id) (.os .nameTooLong)), w') ∧
      w'.files.get? place = none ∧ Adjusted S (fun l => l = S.staging ∨ l = place) w w' := by
  obtain ⟨n, w₁, hn, hl, hrun⟩ := h.lays (m := m)
  obtain ⟨w₂, hrest, hempty⟩ := hl.install_error_of_long (m := m) h hn hdir hid
  have hfree := h.bare_staged hn
  have hmodels : w.files.get? S.models = some .directory := by
    rw [S.entry_eq] at hdir
    exact h.publishable.stands.wellFormed.get?_parent (by rw [hdir]; simp)
  have hplace := h.not_staged_place hn
  refine ⟨w₂, hrun.trans hrest, (hempty.others _ hplace).trans hl.source,
    hempty.stands, hempty.environment.trans hl.environment, fun l hout => ?_⟩
  obtain ⟨hs, hp⟩ := not_or.mp hout
  by_cases hin : S.stagedAt n <+: l
  · obtain ⟨rest, rfl⟩ := hin
    exact (hempty.bare rest).trans (hfree rest).symm
  refine (hempty.others l hin).trans ?_
  by_cases hm : l = S.models
  · rw [hm, hl.models, hmodels]
  · exact hl.others l (by simp [hs, hm, hin, hp])

end Offered

/-- What becomes of storing a module. Where there is no entry yet it is stored, however long the
name of its model, as long as the module itself can have its name. But an entry is replaced only if
the model has at most 116 bytes in its name; else the call fails, the entry stays as it was, and the
module that was to replace it is gone. -/
theorem store_by_length (h : Offered S c id module r place w)
    (hspot : w.files.get? (S.entry id) = none ∨ ∃ old : Record, w.files.Folder (S.entry id) old.files) :
    (w.files.get? (S.entry id) = none ∨ id.name.utf8ByteSize ≤ 116 →
      ∃ w', (c.storeRecord id module r).run.run m w =
          some (.ok ((c.entryDirectory id).join r.name), w') ∧ Replaced S id place r.files w w') ∧
    (w.files.get? (S.entry id) ≠ none → 116 < id.name.utf8ByteSize →
      ∃ w', (c.storeRecord id module r).run.run m w =
          some (.error (.io (c.entryDirectory id) (.os .nameTooLong)), w') ∧
        w.files.Same w'.files (S.entry id) ∧ w'.files.get? place = none ∧
        ∀ l, l ≠ S.staging → l ≠ place → w'.files.get? l = w.files.get? l) := by
  refine ⟨fun hor => ?_, fun hsome hid => ?_⟩
  · rcases hspot with hnone | ⟨old, hold⟩
    · exact h.store_new hnone
    · exact h.store_replaces hold (hor.resolve_left (by rw [hold.directory]; simp))
  · obtain ⟨old, hold⟩ := hspot.resolve_left hsome
    obtain ⟨w', hrun, hgone, hadjust⟩ := h.store_refused (m := m) hold.directory hid
    refine ⟨w', hrun, fun rest => hadjust.others _ ?_, hgone, fun l hs hp => hadjust.others l (by simp [hs, hp])⟩
    rintro (he | rfl)
    · simp [Site.entry, Site.staging, ModelIdentity.modelNamespace] at he
    · exact h.outside ⟨id.name :: rest, by simp [Site.models, Site.entry]⟩

def ModelIdentity.long : ModelIdentity := ⟨String.ofList (List.replicate 117 'a'), by decide +kernel⟩

def Record.long (number : String) : Record :=
  ⟨ModuleFile.name .long number, ⟨[1, 2], 0⟩, true, "built", "warned", .small⟩

def World.long : World :=
  .initial ⟨[(["c"], .directory), (["c", ModelIdentity.modelNamespace], .directory),
      (["c", ModelIdentity.modelNamespace, ModelIdentity.long.name], .directory)] ++
    (Record.long "000000000001").files.map (fun f =>
      (["c", ModelIdentity.modelNamespace, ModelIdentity.long.name, f.1], .file 0 f.2.1 f.2.2)) ++
    [([(Record.long "000000000002").name], .file 1 ⟨[1, 2], 0⟩ true)], 2⟩ ⟨[], Site.path [], none, 1⟩ 0

theorem World.long_stands : Site.top.Stands World.long.files :=
  ⟨⟨by decide +kernel, by decide +kernel, by decide +kernel, by decide +kernel⟩, by decide +kernel,
    by simp [Site.top]⟩

theorem World.long_offered : Offered Site.top ⟨Site.path ["c"]⟩ .long
    (Site.path [(Record.long "000000000002").name]) (.long "000000000002")
    [(Record.long "000000000002").name] World.long where
  publishable := ⟨Site.serves_path Site.top _, long_stands, .inl (by decide +kernel),
    .inr (by decide +kernel), by decide +kernel, by decide +kernel,
    [(Record.long "000000000002").name], 1, by decide +kernel, by decide +kernel, by decide +kernel⟩
  build := ⟨"000000000002", by decide, rfl⟩
  leads := by decide +kernel
  file := ⟨1, by decide +kernel⟩
  outside := by decide +kernel
  proper := by decide +kernel
  root := by decide +kernel
  full := by decide +kernel
  staged s := long_stands.wellFormed.bare
    (show World.long.files.get? Site.top.staging = none by decide +kernel) [stagedName .long s]
  retired s := long_stands.wellFormed.bare
    (show World.long.files.get? Site.top.staging = none by decide +kernel) ["retired_" ++ s]

theorem World.long_folder :
    World.long.files.Folder (Site.top.entry .long) (Record.long "000000000001").files where
  directory := by decide +kernel
  files f hf := ⟨0, by
    revert f
    decide +kernel⟩
  only rest hne hsome := by
    have hall : ∀ e ∈ World.long.files.entries, Site.top.entry .long <+: e.1 →
        e.1 = Site.top.entry .long ∨ ∃ f ∈ (Record.long "000000000001").files,
          e.1 = Site.top.entry .long ++ [f.1] := by decide +kernel
    obtain ⟨node, hnode⟩ := Option.ne_none_iff_exists'.mp hsome
    have hmem := (long_stands.wellFormed.get?_iff (by simp [Site.entry])).mp hnode
    rcases hall _ hmem (List.prefix_append _ _) with he | ⟨f, hf, he⟩
    · exact absurd (List.append_right_eq_self.mp he) hne
    · exact ⟨f, hf, List.append_cancel_left he⟩

theorem store_by_length_long : ∃ w',
    (Cache.storeRecord ⟨Site.path ["c"]⟩ .long (Site.path [(Record.long "000000000002").name])
      (.long "000000000002")).run.run .idle World.long = some (.error (.io
        (Cache.entryDirectory ⟨Site.path ["c"]⟩ .long) (.os .nameTooLong)), w') ∧
    w'.files.Folder (Site.top.entry .long) (Record.long "000000000001").files ∧
    w'.files.get? [(Record.long "000000000002").name] = none := by
  obtain ⟨w', hrun, hsame, hgone, -⟩ := (store_by_length (m := .idle) World.long_offered
    (.inr ⟨_, World.long_folder⟩)).2 (by rw [World.long_folder.directory]; simp) (by decide +kernel)
  exact ⟨w', hrun, World.long_folder.congr hsame, hgone⟩

/-- A world with an empty directory for a cache, and with two modules of `id`, by build number. -/
def World.offering (id : ModelIdentity) (first second : String) : World :=
  .initial ⟨[(["c"], .directory), ([ModuleFile.name id first], .file 1 ⟨[1], 0⟩ true),
    ([ModuleFile.name id second], .file 2 ⟨[2], 0⟩ true)], 3⟩ ⟨[], Site.path [], none, 1⟩ 0

def storeNumbered (id : ModelIdentity) (number : String) : Program (Except CacheError Path) :=
  (Cache.store ⟨Site.path ["c"]⟩ id (Site.path [ModuleFile.name id number]) "built" "warned"
    .small).run

/-- A name with which a module can be stored is not always one with which it can be replaced. -/
theorem stored_not_replaced : ¬∀ (id : ModelIdentity) (first second : String),
    first.utf8ByteSize = 12 → second.utf8ByteSize = 12 → ∀ file w,
      (storeNumbered id first).run .idle (.offering id first second) = some (.ok file, w) →
      ∃ file' w', (storeNumbered id second).run .idle w = some (.ok file', w') := by
  intro hall
  have hruns : ((storeNumbered .long "000000000001").run .idle
      (.offering .long "000000000001" "000000000002")).any (fun r => r.1.isOk &&
        !((storeNumbered .long "000000000002").run .idle r.2).any (·.1.isOk)) = true := by
    decide +kernel
  obtain ⟨⟨r, w⟩, hrun, hr⟩ := Option.any_eq_true _ _ |>.mp hruns
  cases r with
  | error e => simp [Except.isOk, Except.toBool] at hr
  | ok file =>
    obtain ⟨file', w', hrun'⟩ := hall .long "000000000001" "000000000002" (by decide) (by decide) file w hrun
    simp [hrun', Except.isOk, Except.toBool] at hr

end CompiledModels
