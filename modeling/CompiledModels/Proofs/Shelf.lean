import CompiledModels.Proofs.Files.Folder
import CompiledModels.Proofs.Hit
import CompiledModels.Proofs.ManifestText
import CompiledModels.Proofs.Site
import CompiledModels.Proofs.Success

/-!
The entry of a model as paths lead to it: what can be seen of it is what the tree has there.
-/

namespace CompiledModels

open Files Program

variable {S : Site} {c : Cache} {id : ModelIdentity} {w w' : World} {s t : String} {n : Node}

structure Reached (S : Site) (c : Cache) (id : ModelIdentity) (w : World) : Prop where
  leads : S.Leads w.environment.location c.root
  stands : S.Stands w.files
  directory : w.files.get? (S.entry id) = some .directory
  clean : ∀ s, w.files.NoLink (S.entry id ++ [s])
  short : Tree.Short (c.entryDirectory id)

theorem Except.toOption_congr {ε α : Type} {r r' : Except ε α} (h : ∀ a, r = .ok a ↔ r' = .ok a) :
    r.toOption = r'.toOption := by
  cases r with
  | ok a => rw [(h a).mp rfl]
  | error e =>
    cases r' with
    | ok a => exact absurd ((h a).mpr rfl) (by simp)
    | error e' => rfl

theorem World.toOption_text {p : Path} : (w.text p).toOption =
    (w.files.read w.directory p).toOption.bind Text.decode? := by
  rw [text]
  cases w.files.read w.directory p with
  | error e => rfl
  | ok bytes => cases h : Text.decode? bytes <;> simp [Except.toOption, h]

namespace Reached

theorem proper (h : Reached S c id w) : IsProper id.name :=
  h.stands.wellFormed.proper_of_get? (by rw [h.directory]; simp) _ (by simp [Site.entry])

theorem models (h : Reached S c id w) : w.files.get? S.models = some .directory := by
  have hd := h.directory
  rw [S.entry_eq] at hd
  exact h.stands.wellFormed.get?_parent (by rw [hd]; simp)

theorem unlinked (h : Reached S c id w) :
    w.files.Unlinked true S.root [ModelIdentity.modelNamespace, id.name] :=
  h.stands.wellFormed.unlinked h.directory

theorem resolve (h : Reached S c id w) {follow : Bool} :
    w.files.resolve w.directory follow (c.entryDirectory id) = .ok (S.entry id) := by
  have hshort := h.short
  rw [Cache.entryDirectory_eq] at hshort ⊢
  refine (h.leads _ h.stands).resolve_joins_to h.stands.wellFormed (by simp) ?_ h.unlinked.weaken h.models hshort
  simpa [h.proper] using (show IsProper ModelIdentity.modelNamespace by decide)

theorem list (h : Reached S c id w) :
    w.files.list w.directory (c.entryDirectory id) = .ok (w.files.children (S.entry id)) :=
  Tree.list_eq_ok.mpr ⟨_, h.resolve, h.directory, rfl⟩

theorem isDirectory (h : Reached S c id w) : w.isDirectory (c.entryDirectory id) = true := by
  rw [World.isDirectory, Tree.stat_eq_ok.mpr ⟨_, h.resolve, h.directory⟩]
  rfl

theorem mem_names (h : Reached S c id w) :
    s ∈ w.names (c.entryDirectory id) ↔ w.files.get? (S.entry id ++ [s]) ≠ none := by
  rw [World.names, h.list, Option.ne_none_iff_exists']
  simp only [Except.toOption, Option.getD_some, List.mem_map, h.stands.wellFormed.mem_children]
  constructor
  · rintro ⟨e, ⟨n, hn, -⟩, rfl⟩
    exact ⟨n, hn⟩
  · rintro ⟨n, hn⟩
    exact ⟨⟨s, n.isDirectory⟩, ⟨n, hn, rfl⟩, rfl⟩

theorem stat_iff (h : Reached S c id w) (hs : IsPlain s) :
    w.files.stat w.directory true ((c.entryDirectory id).join s) = .ok n ↔
      Tree.Short ((c.entryDirectory id).join s) ∧ w.files.get? (S.entry id ++ [s]) = some n := by
  have hnames : S.entry id ++ [s] = S.root ++ [ModelIdentity.modelNamespace, id.name, s] := by
    simp [Site.entry]
  have hunlinked : w.files.Unlinked true S.root ([ModelIdentity.modelNamespace, id.name] ++ [s]) :=
    h.unlinked.concat fun _ => h.clean s
  rw [Tree.stat_eq_ok, Cache.entryDirectory_eq, Path.joins_join, hnames]
  constructor
  · rintro ⟨l, hl, hn⟩
    obtain ⟨rfl, -, -, hshort⟩ := h.leads.resolve_ok h.stands (by simp)
      (by simpa [id.isPlain, hs] using (show IsPlain ModelIdentity.modelNamespace by decide)) hunlinked hl
    exact ⟨hshort, hn⟩
  · rintro ⟨hshort, hn⟩
    have hproper := h.stands.wellFormed.proper_of_get? (l := S.root ++
      ([ModelIdentity.modelNamespace, id.name] ++ [s])) (by rw [List.cons_append, List.cons_append, List.nil_append, hn]; simp)
    refine ⟨_, (h.leads _ h.stands).resolve_joins_to h.stands.wellFormed (by simp) ?_ hunlinked
      h.directory hshort, hn⟩
    exact fun s' hs' => hproper s' (List.mem_append_right _ hs')

theorem of_mem_names (hleads : S.Leads w.environment.location c.root) (hstands : S.Stands w.files)
    (hclean : ∀ rest, w.files.NoLink (S.root ++ rest)) (hs : s ∈ w.names (c.entryDirectory id)) :
    Reached S c id w := by
  rw [World.names] at hs
  cases hl : w.files.list w.directory (c.entryDirectory id) with
  | error e => simp [hl, Except.toOption] at hs
  | ok es =>
    obtain ⟨l, hr, hd, -⟩ := Tree.list_eq_ok.mp hl
    have hunlinked : w.files.Unlinked true S.root [ModelIdentity.modelNamespace, id.name] :=
      fun pre _ _ _ => hclean pre
    rw [Cache.entryDirectory_eq] at hr
    obtain ⟨rfl, -, -, hshort⟩ := hleads.resolve_ok hstands (by simp)
      (by simpa [id.isPlain] using (show IsPlain ModelIdentity.modelNamespace by decide)) hunlinked hr
    refine ⟨hleads, hstands, hd, fun s => ?_, Cache.entryDirectory_eq c id ▸ hshort⟩
    rw [Site.entry, List.append_assoc]
    exact hclean _

section Same

variable (h : Reached S c id w) (hs : w.files.Same w'.files (S.entry id))
include h hs

theorem same (hw : S.Stands w'.files) (he : w'.environment = w.environment) : Reached S c id w' := by
  have hd := hs []
  rw [List.append_nil] at hd
  exact ⟨he ▸ h.leads, hw, hd.trans h.directory, fun s target => hs [s] ▸ h.clean s target, h.short⟩

variable (h' : Reached S c id w') (hplain : IsPlain s)
include h' hplain

theorem stat_same : w'.files.stat w'.directory true ((c.entryDirectory id).join s) = .ok n ↔
    w.files.stat w.directory true ((c.entryDirectory id).join s) = .ok n := by
  rw [h.stat_iff hplain, h'.stat_iff hplain, hs [s]]

theorem isFile_same : w'.isFile ((c.entryDirectory id).join s) =
    w.isFile ((c.entryDirectory id).join s) := by
  rw [World.isFile, World.isFile, Except.toOption_congr fun _ => h.stat_same hs h' hplain]

theorem text_same : (w'.text ((c.entryDirectory id).join s)).toOption =
    (w.text ((c.entryDirectory id).join s)).toOption := by
  rw [World.toOption_text, World.toOption_text, Except.toOption_congr fun bytes => ?_]
  rw [Tree.read_eq_ok, Tree.read_eq_ok]
  exact exists_congr fun n => and_congr_left' (h.stat_same hs h' hplain)

end Same

end Reached

theorem World.Hit.same {diagnostics warnings : String} (h : w.Hit c id diagnostics warnings)
    (hr : Reached S c id w) (hr' : Reached S c id w') (hs : w.files.Same w'.files (S.entry id)) :
    w'.Hit c id diagnostics warnings := by
  have hok {r : Except FileError String} {t : String} : r = .ok t ↔ r.toOption = some t := by
    cases r <;> simp [Except.toOption]
  obtain ⟨⟨name, hname, hm, hf⟩, hout, hwarn, hadm⟩ := h
  have hplain : IsPlain name := by
    have hn := hr.mem_names.mp hname
    exact (hr.stands.wellFormed.proper_of_get? hn name (by simp)).1
  refine ⟨⟨name, ?_, hm, (hr.isFile_same hs hr' hplain).trans hf⟩, ?_, ?_, fun text m ht hm => ?_⟩
  · rw [hr'.mem_names, hs]
    exact hr.mem_names.mp hname
  · rw [hok, hr.text_same hs hr' (by decide), ← hok]
    exact hout
  · rw [hwarn, hr.text_same hs hr' (by decide)]
  · rw [hok, hr.text_same hs hr' (by decide), ← hok] at ht
    exact hadm text m ht hm

end CompiledModels

namespace CompiledModels

open Files Program

namespace ModelIdentity

theorem mem_insertSorted {a b : ModelIdentity} {ids : List ModelIdentity} :
    b ∈ insertSorted a ids ↔ b = a ∨ b ∈ ids := by
  induction ids with
  | nil => simp [insertSorted]
  | cons c ids ih =>
    rw [insertSorted]
    split
    · rw [List.mem_cons, ih, List.mem_cons, or_left_comm]
    · rw [List.mem_cons]

theorem mem_sort {a : ModelIdentity} {ids : List ModelIdentity} : a ∈ sort ids ↔ a ∈ ids := by
  induction ids with
  | nil => exact Iff.rfl
  | cons b ids ih => rw [sort, List.foldr_cons, mem_insertSorted, List.mem_cons, ← sort, ih]

theorem insertSorted_ascending {a : ModelIdentity} {ids : List ModelIdentity}
    (h : ids.Pairwise (·.name < ·.name)) (ha : a ∉ ids) :
    (insertSorted a ids).Pairwise (·.name < ·.name) := by
  induction ids with
  | nil => simp [insertSorted]
  | cons b ids ih =>
    obtain ⟨hb, hids⟩ := List.pairwise_cons.mp h
    have hne : a ≠ b := fun he => ha (he ▸ List.mem_cons_self)
    rw [insertSorted]
    split
    case isTrue hlt =>
      refine List.pairwise_cons.mpr ⟨fun c hc => ?_, ih hids fun hm => ha (List.mem_cons_of_mem _ hm)⟩
      rcases mem_insertSorted.mp hc with rfl | hc
      · exact of_decide_eq_true hlt
      · exact hb c hc
    case isFalse hlt =>
      have hle : a.name ≤ b.name := String.not_lt.mp fun hba => hlt (decide_eq_true hba)
      have hab : a.name < b.name := by
        apply Classical.byContradiction
        intro hba
        exact hne (eq_of_name (String.le_antisymm hle (String.not_lt.mp hba)))
      refine List.pairwise_cons.mpr ⟨fun c hc => ?_, h⟩
      rcases List.mem_cons.mp hc with rfl | hc
      · exact hab
      · exact String.lt_trans hab (hb c hc)

theorem sort_ascending {ids : List ModelIdentity} (h : ids.Nodup) :
    (sort ids).Pairwise (·.name < ·.name) := by
  induction ids with
  | nil => exact .nil
  | cons a ids ih =>
    obtain ⟨ha, hids⟩ := List.nodup_cons.mp h
    exact insertSorted_ascending (ih hids) fun hm => ha (mem_sort.mp hm)

theorem identityOfName_eq_some {n : String} {id : ModelIdentity} :
    Cache.identityOfName? n = some id ↔ n = id.name := by
  rw [Cache.identityOfName?, ofName]
  constructor
  · intro h
    split at h
    · exact congrArg ModelIdentity.name (Option.some.inj h)
    · split at h <;> simp [Except.toOption] at h
  · rintro rfl
    rw [dif_pos id.safe]
    rfl

end ModelIdentity

section Lengths

theorem size_drawSuffix (seed : Nat) : (World.drawSuffix seed).1.utf8ByteSize = 6 := by
  have hchar (i : Nat) : (World.nameChars[i]?.getD 'A').utf8Size = 1 := by
    have hall : ∀ c ∈ World.nameChars, (c.utf8Size == 1) = true :=
      List.all_eq_true.mp (by decide)
    cases hc : World.nameChars[i]? with
    | none => decide
    | some c => exact eq_of_beq (hall c (List.mem_of_getElem? hc))
  simp [World.drawSuffix, List.range_succ, hchar]

variable (id : ModelIdentity) (seed : Nat)

theorem size_stagedName :
    (stagedName id (World.drawSuffix seed).1).utf8ByteSize = id.name.utf8ByteSize + 13 := by
  have h₁ : "entry_".utf8ByteSize = 6 := by decide
  have h₂ : "_".utf8ByteSize = 1 := by decide
  simp only [stagedName, String.utf8ByteSize_append, h₁, h₂, size_drawSuffix]
  omega

theorem size_retiredName : ("retired_" ++ retiredName id
    (stagedName id (World.drawSuffix seed).1)).utf8ByteSize = 2 * id.name.utf8ByteSize + 22 := by
  have h₁ : "retired_".utf8ByteSize = 8 := by decide
  have h₂ : "_".utf8ByteSize = 1 := by decide
  simp only [retiredName, String.utf8ByteSize_append, h₁, h₂, size_stagedName]
  omega

variable {p : Path} {s s' n : String} (hp : p.text.utf8ByteSize ≤ 2000) (hs : s.utf8ByteSize ≤ 8)
include hp hs

theorem short_join : Tree.Short (p.join s) := by
  have h := Path.size_join_le p s
  rw [Tree.Short, Tree.maxPathLength]
  omega

variable (hs' : s'.utf8ByteSize ≤ Tree.maxNameLength)
include hs'

theorem short_joins : Tree.Short (p.joins [s, s']) := by
  have h₁ := Path.size_join_le p s
  have h₂ := Path.size_join_le (p.join s) s'
  rw [show (p.join s).join s' = p.joins [s, s'] by simp [Path.join, Path.joins]] at h₂
  rw [Tree.maxNameLength] at hs'
  rw [Tree.Short, Tree.maxPathLength]
  omega

theorem short_joins_join (hn : n.utf8ByteSize ≤ Tree.maxNameLength) :
    Tree.Short ((p.joins [s, s']).join n) := by
  have h₁ := Path.size_join_le p s
  have h₂ := Path.size_join_le (p.join s) s'
  have h₃ := Path.size_join_le (p.joins [s, s']) n
  rw [show (p.join s).join s' = p.joins [s, s'] by simp [Path.join, Path.joins]] at h₂
  rw [Tree.maxNameLength] at hs' hn
  rw [Tree.Short, Tree.maxPathLength]
  omega

end Lengths

/-- What is kept under an identity: a module and the texts beside it. -/
structure Record where
  name : String
  content : Content
  executable : Bool
  output : String
  warnings : String
  manifest : Manifest

namespace Record

variable (r : Record)

def texts : List (String × String) := Cache.texts r.output r.warnings r.manifest

def files : List (String × Content × Bool) := entryFiles r.name r.content r.executable r.texts

def names : List String := r.name :: r.texts.map (·.1)

/-- The module has a name by which it is found, and all paths to the entry of `id` and in it are
short enough: where it is put together, where it is read, and where it is removed in the end. -/
structure Suits (c : Cache) (env : Environment) (id : ModelIdentity) : Prop where
  isName : ModuleFile.isName r.name = true
  store : Fits c (Path.inDirectory env.directory c.root) id r.names
  read : ∀ s ∈ r.names, Tree.Short ((c.entryDirectory id).join s)
  retire : ∀ seed, ∀ s ∈ r.names,
    Tree.Short ((c.retiredPath id (stagedName id (World.drawSuffix seed).1)).join s)

theorem names_eq : r.files.map (·.1) = r.names := by
  simp [files, names, entryFiles, textFile, Function.comp_def]

theorem proper_of_mem_names (hn : ModuleFile.isName r.name = true)
    (hsize : r.name.utf8ByteSize ≤ Tree.maxNameLength) {s : String} (hs : s ∈ r.names) : IsProper s := by
  have htext : ∀ s ∈ r.texts.map (·.1), IsProper s := by
    simp only [texts, Cache.texts, List.map_cons, List.map_nil]
    decide
  rcases List.mem_cons.mp hs with rfl | hs
  · exact ⟨ModuleFile.plain_of_isName hn, hsize⟩
  · exact htext s hs

theorem suits_of_size {c : Cache} {env : Environment} {id : ModelIdentity}
    (hn : ModuleFile.isName r.name = true) (hsize : r.name.utf8ByteSize ≤ Tree.maxNameLength)
    (hid : id.name.utf8ByteSize ≤ 116) (hroot : c.root.text.utf8ByteSize ≤ 2000)
    (hfull : (Path.inDirectory env.directory c.root).text.utf8ByteSize ≤ 2000) :
    r.Suits c env id := by
  have hproper {s : String} (hs : s ∈ r.names) : IsProper s := r.proper_of_mem_names hn hsize hs
  have hid' : id.name.utf8ByteSize ≤ Tree.maxNameLength := Nat.le_trans hid (by decide)
  have hstaged (seed : Nat) := size_stagedName id seed
  have hretired (seed : Nat) : ("retired_" ++ retiredName id
      (stagedName id (World.drawSuffix seed).1)).utf8ByteSize ≤ Tree.maxNameLength := by
    rw [size_retiredName, Tree.maxNameLength]
    omega
  have hstaged' (seed : Nat) : (stagedName id (World.drawSuffix seed).1).utf8ByteSize ≤
      Tree.maxNameLength := by
    rw [hstaged, Tree.maxNameLength]
    omega
  refine ⟨hn, ⟨short_join hroot (by decide), short_join hroot (by decide), ⟨⟨id.isPlain, hid'⟩, ?_⟩,
    fun seed => ⟨⟨⟨plain_stagedName id _, hstaged' seed⟩, short_joins hfull (by decide) (hstaged' seed)⟩,
      fun s hs => ⟨hproper hs, short_joins_join hfull (by decide) (hstaged' seed) (hproper hs).2⟩,
      ⟨plain_of_start (by decide) _, hretired seed⟩, short_joins hroot (by decide) (hretired seed)⟩⟩,
    fun s hs => ?_, fun seed s hs => short_joins_join hroot (by decide) (hretired seed) (hproper hs).2⟩
  · rw [Cache.entryDirectory_eq]
    exact short_joins hroot (by decide) hid'
  · rw [Cache.entryDirectory_eq]
    exact short_joins_join hroot (by decide) hid' (hproper hs).2

end Record

structure Stocked (S : Site) (c : Cache) (id : ModelIdentity) (r : Record) (w : World) : Prop extends
    Reached S c id w where
  folder : w.files.Folder (S.entry id) r.files
  isName : ModuleFile.isName r.name = true
  files : ∀ s ∈ r.names, Tree.Short ((c.entryDirectory id).join s)

namespace Stocked

variable {S : Site} {c : Cache} {id : ModelIdentity} {r : Record} {w w' : World}

theorem of_folder (hleads : S.Leads w.environment.location c.root) (hstands : S.Stands w.files)
    (hfolder : w.files.Folder (S.entry id) r.files) (hname : ModuleFile.isName r.name = true)
    (hshort : Tree.Short (c.entryDirectory id))
    (hfiles : ∀ s ∈ r.names, Tree.Short ((c.entryDirectory id).join s)) : Stocked S c id r w := by
  refine ⟨⟨hleads, hstands, hfolder.directory, fun s target hlink => ?_, hshort⟩, hfolder, hname, hfiles⟩
  obtain ⟨f, hf, hs⟩ := hfolder.only [s] (by simp) (by rw [hlink]; simp)
  obtain ⟨number, hget⟩ := hfolder.files f hf
  rw [← hs, hlink] at hget
  simp at hget

theorem proper_names (h : Stocked S c id r w) {s : String} (hs : s ∈ r.names) : IsProper s := by
  rw [← r.names_eq] at hs
  obtain ⟨f, hf, rfl⟩ := List.mem_map.mp hs
  obtain ⟨number, hget⟩ := h.folder.files f hf
  exact h.stands.wellFormed.proper_of_get? (by rw [hget]; simp) f.1 (by simp)

theorem stat_file (h : Stocked S c id r w) {f : String × Content × Bool} (hfile : f ∈ r.files) :
    ∃ number, w.files.stat w.directory true ((c.entryDirectory id).join f.1) =
      .ok (.file number f.2.1 f.2.2) := by
  have hname : f.1 ∈ r.names := r.names_eq ▸ List.mem_map_of_mem hfile
  obtain ⟨number, hget⟩ := h.folder.files f hfile
  exact ⟨number, (h.stat_iff (h.proper_names hname).1).mpr ⟨h.files _ hname, hget⟩⟩

theorem isName_names (h : Stocked S c id r w) :
    (w.names (c.entryDirectory id)).filter ModuleFile.isName = [r.name] := by
  have hnodup : (w.names (c.entryDirectory id)).Nodup := by
    rw [World.names, h.list]
    exact h.stands.wellFormed.nodup_children
  refine List.perm_singleton.mp ((List.perm_ext_iff_of_nodup (hnodup.filter _) (List.nodup_singleton _)).mpr
    fun n => ?_)
  rw [List.mem_filter, h.mem_names, List.mem_singleton]
  constructor
  · rintro ⟨hn, hm⟩
    obtain ⟨f, hfile, hname⟩ := h.folder.only [n] (by simp) hn
    obtain rfl : n = f.1 := List.singleton_inj.mp hname
    have hmem : f.1 ∈ r.names := r.names_eq ▸ List.mem_map_of_mem hfile
    rcases List.mem_cons.mp hmem with hmem | hmem
    · exact hmem
    · exact absurd hm (ModuleFile.not_isName_of_mem_texts hmem)
  · rintro rfl
    obtain ⟨number, hget⟩ := h.folder.files (r.name, r.content, r.executable) List.mem_cons_self
    exact ⟨by rw [hget]; simp, h.isName⟩

theorem moduleNames (h : Stocked S c id r w) : w.moduleNames (c.entryDirectory id) = [r.name] := by
  obtain ⟨number, hstat⟩ := h.stat_file (f := (r.name, r.content, r.executable)) List.mem_cons_self
  have hfile : w.isFile ((c.entryDirectory id).join r.name) = true := by
    rw [World.isFile, hstat]
    rfl
  rw [World.moduleNames, h.isName_names]
  simp [hfile]

theorem text_file (h : Stocked S c id r w) {name text : String} (ht : (name, text) ∈ r.texts) :
    w.text ((c.entryDirectory id).join name) = .ok text := by
  have hfile : textFile (name, text) ∈ r.files := List.mem_cons_of_mem _ (List.mem_map_of_mem ht)
  obtain ⟨number, hstat⟩ := h.stat_file hfile
  have hread : w.files.read w.directory ((c.entryDirectory id).join name) = .ok (Text.encode text) :=
    Tree.read_eq_ok.mpr ⟨_, hstat, by simp, by simp [textFile, Content.all]⟩
  rw [World.text, hread]
  simp [Text.decode_encode]

theorem artifact (h : Stocked S c id r w) {name text : String} (ht : (name, text) ∈ r.texts)
    (what : String) : w.artifact c id name what = .ok text := by
  rw [World.artifact, if_pos h.isDirectory, h.text_file ht]
  rfl

theorem hit (h : Stocked S c id r w) (habi : r.manifest.abi.toNat = abiVersion) :
    w.Hit c id r.output r.warnings := by
  have hmodule : (w.moduleNames (c.entryDirectory id)).isEmpty = false := by
    rw [h.moduleNames]
    rfl
  have hout : w.text ((c.entryDirectory id).join Cache.buildOutputFile) = .ok r.output :=
    h.text_file (by simp [Record.texts, Cache.texts])
  have hwarn : w.text ((c.entryDirectory id).join Cache.warningsFile) = .ok r.warnings :=
    h.text_file (by simp [Record.texts, Cache.texts])
  have hmanifest : w.text ((c.entryDirectory id).join Cache.manifestFile) = .ok r.manifest.text :=
    h.text_file (by simp [Record.texts, Cache.texts])
  refine ⟨World.module_iff.mpr hmodule, hout, by rw [hwarn]; rfl, fun text m ht hm => ?_⟩
  obtain rfl : r.manifest.text = text := Except.ok.inj (hmanifest.symm.trans ht)
  rw [Manifest.ofText_text] at hm
  exact Except.ok.inj hm ▸ habi

end Stocked

abbrev Shelf := ModelIdentity → Option Record

namespace Shelf

def empty : Shelf := fun _ => none

def put (M : Shelf) (id : ModelIdentity) (r : Record) : Shelf :=
  fun other => if other = id then some r else M other

def erase (M : Shelf) (id : ModelIdentity) : Shelf :=
  fun other => if other = id then none else M other

end Shelf

structure Keeps (S : Site) (c : Cache) (M : Shelf) (w : World) : Prop where
  serves : S.Serves w.environment c.root
  stands : S.Stands w.files
  short : Tree.Short c.modelsDirectory
  models : w.files.Spot S.models
  staging : w.files.Spot S.staging
  entry : ∀ id r, M id = some r → w.files.Folder (S.entry id) r.files ∧ r.Suits c w.environment id
  absent : ∀ id, M id = none → w.files.get? (S.entry id) = none
  staged : ∀ id s, w.files.get? (S.stagedAt (stagedName id s)) = none
  retired : ∀ s, w.files.get? (S.retiredAt s) = none

namespace Keeps

variable {S : Site} {c : Cache} {M : Shelf} {w : World} {m : Machine} {id : ModelIdentity} {r : Record}

theorem stocked (h : Keeps S c M w) (hr : M id = some r) : Stocked S c id r w := by
  obtain ⟨hf, hs⟩ := h.entry id r hr
  exact Stocked.of_folder h.serves.leads h.stands hf hs.isName hs.store.entry.2 hs.read

theorem isDirectory_entry (h : Keeps S c M w) (id : ModelIdentity) :
    w.isDirectory (c.entryDirectory id) = (M id).isSome := by
  cases hr : M id with
  | none =>
    have hnone := h.absent id hr
    rw [World.isDirectory]
    cases hstat : w.files.stat w.directory true (c.entryDirectory id) with
    | error e => rfl
    | ok n =>
      obtain ⟨l, hl, hn⟩ := Tree.stat_eq_ok.mp hstat
      have hu : w.files.Unlinked true S.root [ModelIdentity.modelNamespace, id.name] := by
        have hm : w.files.Unlinked true S.root [ModelIdentity.modelNamespace] :=
          Tree.unlinked_singleton fun _ => h.models.noLink
        refine hm.concat fun _ => ?_
        rw [show S.root ++ [ModelIdentity.modelNamespace] ++ [id.name] = S.entry id by
          simp [Site.entry]]
        exact Tree.Spot.noLink (.inl hnone)
      rw [Cache.entryDirectory_eq] at hl
      obtain ⟨rfl, -⟩ := h.serves.leads.resolve_ok h.stands (by simp)
        (by simp [plain_models, id.isPlain]) hu hl
      exact absurd (hnone.symm.trans hn) (by simp)
  | some r => exact (h.stocked hr).isDirectory

theorem moduleNames_none (h : Keeps S c M w) (hr : M id = none) :
    w.moduleNames (c.entryDirectory id) = [] := by
  have hdir := h.isDirectory_entry id
  rw [hr] at hdir
  have hnames : w.names (c.entryDirectory id) = [] := by
    by_contra hne
    obtain ⟨s, hs⟩ := List.exists_mem_of_ne_nil _ hne
    rw [World.isDirectory_of_mem_names hs] at hdir
    simp at hdir
  rw [World.moduleNames, hnames]
  rfl

theorem artifact_none (h : Keeps S c M w) (hr : M id = none) (name what : String) :
    w.artifact c id name what = .error (.entry id.key) := by
  rw [World.artifact, h.isDirectory_entry, hr]
  rfl

end Keeps

end CompiledModels
