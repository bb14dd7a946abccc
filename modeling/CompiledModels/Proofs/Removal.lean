import CompiledModels.Proofs.Directories
import CompiledModels.Proofs.Files.Folder

/-!
Removing directories with all that is in them: nothing else is touched, and where others leave a
directory alone nothing of it is left, unless a step has failed.
-/

namespace CompiledModels

open Files Program

variable {R : Rules} {m : Machine} {S : Site} {env : Environment} {p q : Path} {x y : Moment}
  {F G : Prop} {top more names : List String} {es : List DirectoryEntry}

structure Erases (l : Location) (x y : Moment) : Prop where
  within : Within (l <+: ·) x y
  gone : ∀ k, y.files.get? k = x.files.get? k ∨ y.files.get? k = none

namespace Erases

variable {l k : Location}

theorem noLink (h : Erases l x y) (hn : x.files.NoLink k) : y.files.NoLink k := by
  intro target
  rcases h.gone k with he | he
  · exact he ▸ hn target
  · simp [he]

theorem stays (h : Erases l x y) (hk : y.files.get? k ≠ none) : x.files.get? k ≠ none := by
  rcases h.gone k with he | he
  · rwa [← he]
  · exact absurd he hk

theorem mono (h : Erases k x y) (hp : l <+: k) : Erases l x y :=
  ⟨h.within.mono fun _ hk => hp.trans hk, h.gone⟩

theorem of_unmoved (h : Unmoved x y) : Erases l x y :=
  ⟨h.mono fun _ h => h.elim, fun k => .inl (h.files k not_false)⟩

theorem of_tree {s : Step} {r : s.Reply} {t : Tree} (hn : ¬(Taken.mk s r).Moves)
    (hw : t.WellFormed) (hget : ∀ k, t.get? k = if k = l then none else x.files.get? k) :
    Erases l x (x.after s r { x.world with files := t }) := by
  refine ⟨.of_tree hn hw fun k hk => (hget k).trans (if_neg ?_), fun k => ?_⟩
  · rintro rfl
    exact hk (List.prefix_refl _)
  · show t.get? k = _ ∨ t.get? k = none
    rw [hget]
    split <;> simp

theorem apart (h : Erases l x y) (hk : ¬l <+: k) : y.files.get? k = x.files.get? k :=
  h.within.files k hk

theorem bare (h : Erases l x y) (hb : x.files.Bare k) : y.files.Bare k := by
  intro rest
  by_contra hne
  exact h.stays hne (hb rest)

end Erases

/-- A step of removing `p` that failed. -/
inductive Taken.Stumbles (p : Path) : Taken → Prop
  | stat (e : FileError) : Stumbles p ⟨.stat p false, .error e⟩
  | list (names : List String) (e : FileError) : Stumbles p ⟨.list (p.joins names), .error e⟩
  | removeFile (names : List String) (e : FileError) :
      Stumbles p ⟨.removeFile (p.joins names), .error e⟩
  | removeDirectory (names : List String) (e : FileError) :
      Stumbles p ⟨.removeDirectory (p.joins names), .error e⟩

def Taken.stumble? : Taken → Option Path
  | ⟨.stat p false, .error _⟩ | ⟨.list p, .error _⟩ | ⟨.removeFile p, .error _⟩
  | ⟨.removeDirectory p, .error _⟩ => some p
  | _ => none

theorem Taken.stumble?_of_stumbles {t : Taken} {p : Path} (h : t.Stumbles p) :
    ∃ names, t.stumble? = some (p.joins names) := by
  cases h with
  | stat e => exact ⟨[], by simp [stumble?, Path.joins]⟩
  | list names e => exact ⟨names, rfl⟩
  | removeFile names e => exact ⟨names, rfl⟩
  | removeDirectory names e => exact ⟨names, rfl⟩

def Tripped (F : Prop) (p : Path) (x : Moment) : Prop := (∃ s ∈ x.past, s.Stumbles p) ∧ ¬F

theorem Tripped.taken {s : Taken} (h : y.past = s :: x.past) (hx : Tripped F p x) :
    Tripped F p y := by
  obtain ⟨⟨t, ht, hs⟩, hF⟩ := hx
  exact ⟨⟨t, h ▸ List.mem_cons_of_mem _ ht, hs⟩, hF⟩

theorem Tripped.stable (hR : Ground R m S F) : R.Stable (Tripped F p) := fun _ _ h hx =>
  ⟨hR.past h ▸ hx.1, hx.2⟩

theorem Tripped.here {s : Step} {r : s.Reply} {w : World} (hs : Taken.Stumbles p ⟨s, r⟩)
    (hF : ¬F) : Tripped F p (x.after s r w) :=
  ⟨⟨_, List.mem_cons_self, hs⟩, hF⟩

def Site.Reaches (S : Site) (q : Path) (top : List String) (t : Tree) : Prop :=
  ∀ rest, t.get? (S.root ++ top ++ rest) ≠ none → Tree.Short (q.joins (top ++ rest))

theorem Site.Reaches.erases {l : Location} (h : Erases l x y) (hx : S.Reaches q top x.files) :
    S.Reaches q top y.files := fun rest hr => hx rest (h.stays hr)

theorem Site.Reaches.private (hpriv : Private R (S.root ++ top)) (h : R.rely x y)
    (hx : S.Reaches q top x.files) : S.Reaches q top y.files := fun rest hr =>
  hx rest (by rwa [← hpriv _ _ h])

structure Removing (S : Site) (env : Environment) (top more : List String) (x : Moment) : Prop where
  standing : Standing S env x
  plain : ∀ s ∈ top ++ more, IsPlain s
  way : x.files.Unlinked false S.root top
  below : ∀ rest, rest <+: more → x.files.NoLink (S.root ++ top ++ rest)

theorem Removing.unlinked (h : Removing S env top more x) :
    x.files.Unlinked true S.root (top ++ more) := by
  have htop : x.files.Unlinked true S.root top := h.way.through (by simpa using h.below [] (by simp))
  intro pre hne hp _
  rcases List.prefix_or_prefix_of_prefix hp (List.prefix_append top more) with hp' | ⟨rest, rfl⟩
  · exact htop pre hne hp' (.inr rfl)
  · rw [← List.append_assoc]
    exact h.below rest ((List.prefix_append_right_inj top).mp hp)

theorem Removing.erases (ht : top ≠ []) (h : Erases (S.root ++ top) x y)
    (hx : Removing S env top more x) : Removing S env top more y := by
  refine ⟨hx.standing.within h.within (apart_under ht), hx.plain, fun pre hne hp hf => ?_,
    fun rest hr => h.noLink (hx.below rest hr)⟩
  exact h.noLink (hx.way pre hne hp hf)

structure Listed (S : Site) (env : Environment) (top more : List String) (es : List DirectoryEntry)
    (x : Moment) : Prop where
  removing : Removing S env top more x
  plain : ∀ e ∈ es, IsPlain e.name
  below : ∀ e ∈ es, e.isDirectory = true → x.files.NoLink (S.root ++ top ++ more ++ [e.name])

theorem Listed.of_children (h : Removing S env top more x) :
    Listed S env top more (x.files.children (S.root ++ top ++ more)) x := by
  have hwf := h.standing.wellFormed
  refine ⟨h, fun e he => ?_, fun e he hd => ?_⟩
  · obtain ⟨n, hn, _⟩ := hwf.mem_children.mp he
    exact (hwf.proper_name (by rw [hn]; simp)).1
  · obtain ⟨n, hn, hnd⟩ := hwf.mem_children.mp he
    intro target htarget
    obtain rfl : n = .link target := Option.some.inj (hn.symm.trans htarget)
    simp [hd, Node.isDirectory] at hnd

theorem Listed.erases (ht : top ≠ []) (h : Erases (S.root ++ top) x y)
    (hx : Listed S env top more es x) : Listed S env top more es y :=
  ⟨hx.removing.erases ht h, hx.plain, fun e he hd => h.noLink (hx.below e he hd)⟩

theorem Listed.tail {e : DirectoryEntry} (h : Listed S env top more (e :: es) x) :
    Listed S env top more es x :=
  ⟨h.removing, fun e he => h.plain e (by simp [he]), fun e he => h.below e (by simp [he])⟩

theorem Listed.entry (h : Listed S env top more es x) {e : DirectoryEntry} (he : e ∈ es)
    (hd : e.isDirectory = true) : Removing S env top (more ++ [e.name]) x := by
  refine ⟨h.removing.standing, ?_, h.removing.way, fun rest hr => ?_⟩
  · intro s hs
    rw [← List.append_assoc, List.mem_append, List.mem_singleton] at hs
    rcases hs with hs | rfl
    · exact h.removing.plain s hs
    · exact h.plain e he
  · rcases List.prefix_concat_iff.mp hr with rfl | hr
    · rw [← List.append_assoc]
      exact h.below e he hd
    · exact h.removing.below rest hr

structure Left (l : Location) (es : List DirectoryEntry) (t : Tree) : Prop where
  directory : t.get? l = some .directory
  entries : ∀ e ∈ es, ∃ n, t.get? (l ++ [e.name]) = some n ∧ n.isDirectory = e.isDirectory
  only : ∀ s rest, t.get? (l ++ s :: rest) ≠ none → ∃ e ∈ es, e.name = s
  nodup : (es.map (·.name)).Nodup

namespace Left

variable {l : Location} {t t' : Tree} {e : DirectoryEntry}

theorem children (hw : t.WellFormed) (hd : t.get? l = some .directory) :
    Left l (t.children l) t := by
  refine ⟨hd, fun e he => ?_, fun s rest hn => ?_, hw.nodup_children⟩
  · exact hw.mem_children.mp he
  · have hs : t.get? (l ++ [s]) ≠ none := by
      by_cases hr : rest = []
      · rwa [hr] at hn
      · rw [List.append_cons] at hn
        rw [hw.get?_above hr hn]
        simp
    obtain ⟨n, hn⟩ := Option.ne_none_iff_exists'.mp hs
    exact ⟨⟨s, n.isDirectory⟩, hw.mem_children.mpr ⟨n, hn, rfl⟩, rfl⟩

theorem empty (h : Left l [] t) (hw : t.WellFormed) : t.children l = [] := by
  refine hw.children_eq_nil.mpr fun s => ?_
  by_contra hne
  obtain ⟨e, he, _⟩ := h.only s [] hne
  simp at he

theorem congr (h : Left l es t) (hs : t.Same t' l) : Left l es t' := by
  refine ⟨?_, fun e he => ?_, fun s rest hn => ?_, h.nodup⟩
  · have hl := hs []
    rw [List.append_nil] at hl
    rw [hl, h.directory]
  · rw [hs]
    exact h.entries e he
  · rw [hs] at hn
    exact h.only s rest hn

def Beside (l : Location) (e : DirectoryEntry) (t t' : Tree) : Prop :=
  ∀ rest, ¬[e.name] <+: rest → t'.get? (l ++ rest) = t.get? (l ++ rest)

theorem tail (h : Left l (e :: es) t) (hb : t'.Bare (l ++ [e.name])) (hs : Beside l e t t') :
    Left l es t' := by
  have hdir := hs [] (by simp)
  rw [List.append_nil] at hdir
  have hnodup : e.name ∉ es.map (·.name) ∧ (es.map (·.name)).Nodup := by simpa using h.nodup
  refine ⟨hdir.trans h.directory, fun e' he => ?_, fun s rest hn => ?_, hnodup.2⟩
  · have hne : e.name ≠ e'.name := fun heq => hnodup.1 (heq ▸ List.mem_map_of_mem he)
    rw [hs [e'.name] (by simpa using hne)]
    exact h.entries e' (by simp [he])
  · have hne : e.name ≠ s := by
      rintro rfl
      rw [List.append_cons] at hn
      exact hn (hb rest)
    rw [hs _ (by simpa using hne)] at hn
    obtain ⟨e', he, rfl⟩ := h.only s rest hn
    rcases List.mem_cons.mp he with rfl | he
    · exact absurd rfl hne
    · exact ⟨e', he, rfl⟩

end Left

theorem removeEach_ends {J : List DirectoryEntry → Moment → Prop} {T : Moment → Prop}
    (hJ : ∀ es, R.Stable (J es)) (hT : R.Stable T)
    {remove : DirectoryEntry → Program (Except FileError Unit)}
    (h : ∀ e es x, J (e :: es) x →
      R.Safe (fun r y => J es y ∧ ∀ err, r = .error err → T y) (remove e) x) (hx : J es x) :
    R.Safe (fun r y => (r = .ok () → J [] y) ∧ ∀ err, r = .error err → (∃ es, J es y) ∧ T y)
      (removeEach remove es) x := by
  induction es generalizing x with
  | nil => exact .pure fun y hy => ⟨fun _ => hJ [] x y hy hx, by simp⟩
  | cons e es ih =>
    simp only [removeEach]
    refine (h e es x hx).next fun r y hy => ?_
    cases r with
    | ok _ => exact ih hy.1
    | error err =>
      simp only
      split
      · exact ih hy.1
      · exact .pure fun z hz => ⟨by simp, fun _ _ =>
          ⟨⟨es, hJ es y z hz hy.1⟩, hT y z hz (hy.2 err rfl)⟩⟩

section Removal

variable (hR : Ground R m S F) (hq : S.Leads env.location q) (ht : top ≠ [])
  (hstay : R.Stable (·.files.Unlinked false S.root top))
  (hlinks : ∀ rest, R.Stable (·.files.NoLink (S.root ++ top ++ rest)))
  (hpriv : G → Private R (S.root ++ top))

include hR hstay hlinks in
theorem Removing.stable : R.Stable (Removing S env top more) := fun _ _ h hx =>
  ⟨Standing.stable hR _ _ h hx.standing, hx.plain, hstay _ _ h hx.way,
    fun rest hr => hlinks rest _ _ h (hx.below rest hr)⟩

include hR hstay hlinks in
theorem Listed.stable : R.Stable (Listed S env top more es) :=
  fun y z h hy => ⟨Removing.stable hR hstay hlinks y z h hy.removing, hy.plain, fun e he hd => by
    have hnl := hlinks (more ++ [e.name]) y z h
    rw [← List.append_assoc] at hnl
    exact hnl (hy.below e he hd)⟩

include hpriv in
theorem Left.stable (hG : G) : R.Stable fun y => Left (S.root ++ top ++ more) es y.files :=
  fun y z h hy => hy.congr fun rest => by
    rw [List.append_assoc, hpriv hG y z h]

def Clearing (S : Site) (q : Path) (top : List String) (F G : Prop) (P : Tree → Prop) (x : Moment) :
    Prop := G → (F → S.Reaches q top x.files) ∧ (P x.files ∨ Tripped F (q.joins top) x)

theorem Private.stable {l : Location} (h : Private R l) (P : Option Node → Prop) (rest : Location) :
    R.Stable fun y => P (y.files.get? (l ++ rest)) := by
  intro y z hyz hy
  show P _
  rw [h y z hyz]
  exact hy

include hR hpriv in
theorem Clearing.stable {P : Tree → Prop} (hP : G → R.Stable fun y => P y.files) :
    R.Stable (Clearing S q top F G P) := by
  intro y z h hy hG
  obtain ⟨hreach, hp⟩ := hy hG
  exact ⟨fun hF => (hreach hF).private (hpriv hG) h,
    hp.imp (hP hG y z h) (Tripped.stable hR y z h)⟩

theorem Clearing.erases {P P' : Tree → Prop} {l : Location} (h : Erases l x y)
    (hP : P x.files → P' y.files) (hx : Clearing S q top F G P x) : Clearing S q top F G P' y := by
  intro hG
  obtain ⟨hreach, hp⟩ := hx hG
  obtain ⟨s, hs, _⟩ := h.within.taken
  exact ⟨fun hF => (hreach hF).erases h, hp.imp hP (·.taken hs)⟩

include hstay hlinks in
theorem unlinked_stable (extra : List String) :
    R.Stable (·.files.Unlinked false S.root (top ++ extra)) := by
  intro y z h hy pre hne hp hf
  have hproper : pre ≠ top ++ extra := by simpa using hf
  rcases List.prefix_or_prefix_of_prefix hp (List.prefix_append top extra) with hp' | ⟨rest, rfl⟩
  · by_cases he : pre = top
    · subst he
      have hnl := hlinks [] y z h
      rw [List.append_nil] at hnl
      exact hnl (hy pre hne hp (.inl hproper))
    · refine hstay y z h (fun pre' hne' hp'' hf' => ?_) pre hne hp' (.inl he)
      refine hy pre' hne' (hp''.trans (List.prefix_append _ _)) (.inl fun he' => ?_)
      have hlen := hp''.length_le
      rw [he', List.length_append] at hlen
      have hext : extra = [] := List.length_eq_zero_iff.mp (by omega)
      simp [he', hext] at hf'
  · have hnl := hlinks rest y z h
    rw [List.append_assoc] at hnl
    exact hnl (hy _ hne hp (.inl hproper))

include hq ht in
theorem Site.Reaches.resolve {extra : List String} {follow : Bool} (hx : Standing S env x)
    (hl : x.files.Unlinked follow S.root (top ++ extra)) (hreach : S.Reaches q top x.files)
    (hn : x.files.get? (S.root ++ top ++ extra) ≠ none) :
    x.files.resolve x.world.directory follow (q.joins (top ++ extra)) =
      .ok (S.root ++ top ++ extra) := by
  have hshort := hreach extra hn
  rw [List.append_assoc] at hn ⊢
  have hne : top ++ extra ≠ [] := by simp [ht]
  have hproper : ∀ s ∈ top ++ extra, IsProper s := fun s hs =>
    hx.wellFormed.proper_of_get? hn s (List.mem_append_right _ hs)
  have hpar : x.files.get? (S.root ++ (top ++ extra).dropLast) = some .directory := by
    obtain ⟨init, s, he⟩ := (List.eq_nil_or_concat' (top ++ extra)).resolve_left hne
    rw [he, ← List.append_assoc] at hn
    rw [he, List.dropLast_concat]
    exact hx.wellFormed.get?_parent hn
  rw [hx.directory]
  exact (hq _ hx.stands).resolve_joins_to hx.wellFormed hne hproper hl hpar hshort

include hR hq ht hstay hlinks hpriv in
theorem removeFile_bare {extra : List String} (hnames : names = top ++ extra) (hx : Standing S env x)
    (hs : ∀ s ∈ top ++ extra, IsPlain s) (hl : x.files.Unlinked false S.root (top ++ extra))
    (hc : Clearing S q top F G (fun t => ∃ n, t.get? (S.root ++ top ++ extra) = some n ∧
      n.isDirectory = false) x) :
    (R.keeping (Erases (S.root ++ top ++ extra))).Safe
      (fun r y => G → r = .ok () ∧ y.files.Bare (S.root ++ top ++ extra) ∨ Tripped F (q.joins top) y)
      (Program.perform (.removeFile (q.joins names))) x := by
  subst hnames
  have hcs := Clearing.stable (q := q) hR hpriv (P := fun t => ∃ n,
    t.get? (S.root ++ top ++ extra) = some n ∧ n.isDirectory = false) fun hG =>
      (hpriv hG).stable (fun o => ∃ n, o = some n ∧ n.isDirectory = false) extra
  apply Rules.Safe.perform
  intro y hy r w hr
  have hy' := Standing.stable hR _ _ hy hx
  have hly := unlinked_stable hstay hlinks extra _ _ hy hl
  have hcy := hcs _ _ hy hc
  rcases (hR.act hr).removeFile with ⟨e, rfl, rfl⟩ | ⟨rfl, t, hrm, rfl⟩
  · refine ⟨.of_unmoved (.of_eq (by rintro ⟨_, _, ⟨⟩⟩) rfl rfl), fun z hz hG => .inr ?_⟩
    obtain ⟨hreach, hp⟩ := hcy hG
    refine Tripped.stable hR _ _ hz ?_
    rw [← Path.joins_joins] at hr ⊢
    rcases hp with ⟨n, hn, hd⟩ | htrip
    · refine Tripped.here (.removeFile extra e) fun hF => ?_
      have herr := Step.eq_error_of_onFiles (Option.some.inj (hR.sure hF hr))
      have hres := (hreach hF).resolve hq ht hy' hly (by rw [hn]; simp)
      rw [Path.joins_joins, Tree.removeFile_eq_ok.mpr ⟨_, hres, n, hn, hd, rfl⟩] at herr
      simp at herr
    · exact htrip.taken rfl
  · rw [hy'.directory] at hrm
    obtain ⟨_, hwf, hget⟩ := Tree.removeFile_joins (hq _ hy'.stands) hy'.wellFormed
      (by simp [ht]) hs hly hrm
    rw [← List.append_assoc] at hget
    refine ⟨.of_tree (by rintro ⟨_, _, ⟨⟩⟩) hwf hget, fun z hz hG => .inl ⟨rfl, fun rest => ?_⟩⟩
    rw [List.append_assoc, hpriv hG _ _ hz, ← List.append_assoc]
    exact Tree.WellFormed.bare hwf (by simp [hget]) rest

include hR hq ht hstay hlinks hpriv in
theorem removeDirectory_bare {extra : List String} (hx : Standing S env x)
    (hs : ∀ s ∈ top ++ extra, IsPlain s) (hl : x.files.Unlinked false S.root (top ++ extra))
    (hc : Clearing S q top F G (Left (S.root ++ top ++ extra) []) x) :
    (R.keeping (Erases (S.root ++ top ++ extra))).Safe
      (fun r y => G → r = .ok () ∧ y.files.Bare (S.root ++ top ++ extra) ∨ Tripped F (q.joins top) y)
      (Program.perform (.removeDirectory (q.joins (top ++ extra)))) x := by
  have hcs := Clearing.stable (q := q) hR hpriv (P := Left (S.root ++ top ++ extra) [])
    fun hG => Left.stable hpriv hG
  apply Rules.Safe.perform
  intro y hy r w hr
  have hy' := Standing.stable hR _ _ hy hx
  have hly := unlinked_stable hstay hlinks extra _ _ hy hl
  have hcy := hcs _ _ hy hc
  rcases (hR.act hr).removeDirectory with ⟨e, rfl, rfl⟩ | ⟨rfl, t, hrm, rfl⟩
  · refine ⟨.of_unmoved (.of_eq (by rintro ⟨_, _, ⟨⟩⟩) rfl rfl), fun z hz hG => .inr ?_⟩
    obtain ⟨hreach, hp⟩ := hcy hG
    refine Tripped.stable hR _ _ hz ?_
    rw [← Path.joins_joins] at hr ⊢
    rcases hp with hleft | htrip
    · refine Tripped.here (.removeDirectory extra e) fun hF => ?_
      have herr := Step.eq_error_of_onFiles (Option.some.inj (hR.sure hF hr))
      have hres := (hreach hF).resolve hq ht hy' hly (by rw [hleft.directory]; simp)
      rw [Path.joins_joins, Tree.removeDirectory_eq_ok.mpr ⟨_, hres, hleft.directory, by simp [ht],
        hleft.empty hy'.wellFormed, rfl⟩] at herr
      simp at herr
    · exact htrip.taken rfl
  · rw [hy'.directory] at hrm
    obtain ⟨_, hwf, hget⟩ := Tree.removeDirectory_joins (hq _ hy'.stands) hy'.wellFormed
      (by simp [ht]) hs hly hrm
    rw [← List.append_assoc] at hget
    refine ⟨.of_tree (by rintro ⟨_, _, ⟨⟩⟩) hwf hget, fun z hz hG => .inl ⟨rfl, fun rest => ?_⟩⟩
    rw [List.append_assoc, hpriv hG _ _ hz, ← List.append_assoc]
    exact Tree.WellFormed.bare hwf (by simp [hget]) rest

include hR hq ht hstay hlinks hpriv in
theorem list_listed (hx : Removing S env top more x)
    (hc : Clearing S q top F G (·.get? (S.root ++ top ++ more) = some .directory) x) :
    (R.keeping (Erases (S.root ++ top ++ more))).Safe (fun r y => Removing S env top more y ∧
        (∀ es, r = .ok es → Tree.Short (q.joins (top ++ more)) ∧ Listed S env top more es y ∧
          Clearing S q top F G (Left (S.root ++ top ++ more) es) y) ∧
        ∀ e, r = .error e → G → Tripped F (q.joins top) y)
      (Program.perform (.list (q.joins (top ++ more)))) x := by
  have hcs := Clearing.stable (q := q) hR hpriv
    (P := (·.get? (S.root ++ top ++ more) = some .directory)) fun hG => (hpriv hG).stable (· = some .directory) more
  apply Rules.Safe.perform
  intro y hy r w hr
  have hy' := Removing.stable hR hstay hlinks _ _ hy hx
  have hcy := hcs _ _ hy hc
  have hwf := hy'.standing.wellFormed
  obtain ⟨rfl, hes⟩ := (hR.act hr).list
  have he : Erases (S.root ++ top ++ more) y (y.after (.list (q.joins (top ++ more))) r y.world) :=
    .of_unmoved (.of_eq (by rintro ⟨_, _, ⟨⟩⟩) rfl rfl)
  have hz' := hy'.erases ht (he.mono (List.prefix_append _ _))
  refine ⟨he, fun z hz => ⟨Removing.stable hR hstay hlinks _ _ hz hz', ?_, ?_⟩⟩
  · rintro es rfl
    obtain ⟨l, hl, hdir, hch⟩ := Tree.list_eq_ok.mp (hes _ rfl)
    rw [hy'.standing.directory] at hl
    obtain ⟨hk, _, _, hshort⟩ := (hq _ hy'.standing.stands).resolve_joins_ok (by simp [ht])
      hy'.plain hy'.unlinked hl
    rw [← List.append_assoc] at hk
    subst hk hch
    refine ⟨hshort, Listed.stable hR hstay hlinks _ _ hz (.of_children hz'), ?_⟩
    refine Clearing.stable hR hpriv (fun hG => Left.stable hpriv hG) _ _ hz fun hG => ?_
    exact ⟨(hcy hG).1, .inl (Left.children hwf hdir)⟩
  · rintro e rfl hG
    obtain ⟨hreach, hp⟩ := hcy hG
    refine Tripped.stable hR _ _ hz ?_
    rw [← Path.joins_joins] at hr ⊢
    rcases hp with hdir | htrip
    · refine Tripped.here (.list more e) fun hF => ?_
      have herr : y.files.list y.world.directory _ = .error e :=
        (Prod.mk.inj (Option.some.inj (hR.sure hF hr))).1
      have hres := (hreach hF).resolve hq ht hy'.standing hy'.unlinked (by rw [hdir]; simp)
      rw [Path.joins_joins, Tree.list_eq_ok.mpr ⟨_, hres, hdir, rfl⟩] at herr
      simp at herr
    · exact htrip.taken rfl

include hR ht hstay hlinks hpriv in
theorem removeEntry_listed {e : DirectoryEntry} {p : Program (Except FileError Unit)}
    (h : (R.keeping (Erases (S.root ++ top ++ more ++ [e.name]))).Safe (fun r y => G →
      r = .ok () ∧ y.files.Bare (S.root ++ top ++ more ++ [e.name]) ∨ Tripped F (q.joins top) y) p x)
    (hx : Listed S env top more (e :: es) x)
    (hc : Clearing S q top F G (Left (S.root ++ top ++ more) (e :: es)) x) :
    (R.keeping (Erases (S.root ++ top ++ more))).Safe (fun r y =>
      (Listed S env top more es y ∧ Clearing S q top F G (Left (S.root ++ top ++ more) es) y) ∧
        ∀ err, r = .error err → G → Tripped F (q.joins top) y) p x := by
  let Rest (t : Tree) : Prop := ∃ t₀, Left (S.root ++ top ++ more) (e :: es) t₀ ∧
    Left.Beside (S.root ++ top ++ more) e t₀ t
  have hrest : G → R.Stable fun y => Rest y.files := fun hG y z hyz ⟨t₀, hleft, hb⟩ => by
    refine ⟨t₀, hleft, fun rest hr => ?_⟩
    rw [List.append_assoc, hpriv hG y z hyz, ← List.append_assoc]
    exact hb rest hr
  have hstart : Clearing S q top F G Rest x := fun hG =>
    ⟨(hc hG).1, (hc hG).2.imp_left fun hleft => ⟨_, hleft, fun _ _ => rfl⟩⟩
  have hdone := Rules.Safe.keepInvariant
    (R := R.keeping (Erases (S.root ++ top ++ more)))
    (J := fun y => Listed S env top more (e :: es) y ∧ Clearing S q top F G Rest y) h
    (fun y z hyz => hyz.mono (List.prefix_append _ _)) ⟨hx, hstart⟩
    (fun y z hyz hy => ⟨Listed.stable hR hstay hlinks y z hyz hy.1,
      Clearing.stable hR hpriv hrest y z hyz hy.2⟩)
    (fun y z hyz hy => ⟨hy.1.erases ht (hyz.mono (by simp)), hy.2.erases hyz ?_⟩)
  · refine hdone.weaken fun r y ⟨hpost, hl, hcl⟩ => ⟨⟨hl.tail, fun hG => ?_⟩, ?_⟩
    · obtain ⟨hreach, hr⟩ := hcl hG
      refine ⟨hreach, ?_⟩
      rcases hpost hG with ⟨_, hbare⟩ | htrip
      · exact hr.imp_left fun ⟨t₀, hleft, hb⟩ => hleft.tail hbare hb
      · exact .inr htrip
    · rintro err rfl hG
      exact (hpost hG).resolve_left (by simp)
  · rintro ⟨t₀, hleft, hb⟩
    refine ⟨t₀, hleft, fun rest hr => (hyz.apart ?_).trans (hb rest hr)⟩
    rwa [List.prefix_append_right_inj]

include hR hq ht hstay hlinks hpriv in
theorem removeEntry_bare {nesting : Nat} {e : DirectoryEntry} (hl : Listed S env top more (e :: es) x)
    (hc : Clearing S q top F G (Left (S.root ++ top ++ more) (e :: es)) x)
    (hbelow : e.isDirectory = true →
      Clearing S q top F G (·.get? (S.root ++ top ++ (more ++ [e.name])) = some .directory) x →
      (R.keeping (Erases (S.root ++ top ++ (more ++ [e.name])))).Safe (fun r y =>
        Removing S env top (more ++ [e.name]) y ∧
          (G → r = .ok () ∧ y.files.Bare (S.root ++ top ++ (more ++ [e.name])) ∨ Tripped F (q.joins top) y))
        (removeBelow nesting (q.joins (top ++ (more ++ [e.name])))) x) :
    (R.keeping (Erases (S.root ++ top ++ more ++ [e.name]))).Safe (fun r y => G →
        r = .ok () ∧ y.files.Bare (S.root ++ top ++ more ++ [e.name]) ∨ Tripped F (q.joins top) y)
      (if e.isDirectory then removeBelow nesting ((q.joins (top ++ more)).join e.name)
        else perform (.removeFile ((q.joins (top ++ more)).join e.name))) x := by
  rw [Path.joins_join, List.append_assoc (S.root ++ top)]
  have hhead {n : Node → Prop} (hn : ∀ a, a.isDirectory = e.isDirectory → n a) :
      Clearing S q top F G
        (fun t => ∃ a, t.get? (S.root ++ top ++ (more ++ [e.name])) = some a ∧ n a) x :=
    fun hG => ⟨(hc hG).1, (hc hG).2.imp_left fun h => by
      obtain ⟨a, ha, had⟩ := h.entries e (by simp)
      rw [List.append_assoc] at ha
      exact ⟨a, ha, hn a had⟩⟩
  split
  case isTrue hd =>
    have hdir := hhead (n := (· = .directory)) fun a ha => by
      cases a <;> simp_all [Node.isDirectory]
    rw [List.append_assoc top]
    exact (hbelow hd (by simpa using hdir)).weaken fun _ _ h => h.2
  case isFalse hd =>
    refine removeFile_bare hR hq ht hstay hlinks hpriv (List.append_assoc top _ _)
      hl.removing.standing ?_ ?_
      (hhead fun a ha => by simpa [ha] using hd)
    · intro s hs
      rw [← List.append_assoc, List.mem_append, List.mem_singleton] at hs
      rcases hs with hs | rfl
      · exact hl.removing.plain s hs
      · exact hl.plain e (by simp)
    · rw [← List.append_assoc]
      exact hl.removing.unlinked.concat (by simp)

include ht in
theorem Removing.length_lt (hx : Removing S env top more x)
    (hshort : Tree.Short (q.joins (top ++ more.dropLast))) : more.length < maxNesting := by
  have hsub : ∀ s ∈ top ++ more.dropLast, s ∈ top ++ more := fun s hs =>
    ((List.Sublist.refl top).append (List.dropLast_sublist more)).subset hs
  have hsize := q.length_le_size fun s hs => (hx.plain s (hsub s hs)).1
  have htop : 0 < top.length := List.length_pos_of_ne_nil ht
  simp only [Tree.Short, maxNesting, List.length_append, List.length_dropLast] at *
  omega

include hR hq ht hstay hlinks hpriv in
theorem removeBelow_bare (nesting : Nat) (hdeep : maxNesting ≤ nesting + more.length)
    (hshort : more ≠ [] → Tree.Short (q.joins (top ++ more.dropLast)))
    (hx : Removing S env top more x)
    (hc : Clearing S q top F G (·.get? (S.root ++ top ++ more) = some .directory) x) :
    (R.keeping (Erases (S.root ++ top ++ more))).Safe (fun r y => Removing S env top more y ∧
        (G → r = .ok () ∧ y.files.Bare (S.root ++ top ++ more) ∨ Tripped F (q.joins top) y))
      (removeBelow nesting (q.joins (top ++ more))) x := by
  induction nesting generalizing more x with
  | zero =>
    have hlen : maxNesting ≤ more.length := by simpa using hdeep
    have hne : more ≠ [] := List.ne_nil_of_length_pos (Nat.lt_of_lt_of_le (by decide) hlen)
    exact absurd (hx.length_lt ht (hshort hne)) (Nat.not_lt_of_le hlen)
  | succ nesting ih =>
    simp only [removeBelow]
    refine (list_listed hR hq ht hstay hlinks hpriv hx hc).next fun r y hy => ?_
    cases r with
    | error e => exact .pure fun z hz => ⟨Removing.stable hR hstay hlinks y z hz hy.1, fun hG =>
        .inr (Tripped.stable hR y z hz (hy.2.2 e rfl hG))⟩
    | ok es =>
      obtain ⟨hsh, hlisted, hleft⟩ := hy.2.1 es rfl
      have hJ : ∀ es, R.Stable fun y => Listed S env top more es y ∧
          Clearing S q top F G (Left (S.root ++ top ++ more) es) y := fun es y z h hy =>
        ⟨Listed.stable hR hstay hlinks y z h hy.1,
          Clearing.stable hR hpriv (fun hG => Left.stable hpriv hG) y z h hy.2⟩
      have hT : R.Stable fun y => G → Tripped F (q.joins top) y := fun y z h hy hG =>
        Tripped.stable hR y z h (hy hG)
      refine (removeEach_ends (R := R.keeping (Erases (S.root ++ top ++ more))) hJ hT
        (fun e es z hz => removeEntry_listed hR ht hstay hlinks hpriv
          (removeEntry_bare hR hq ht hstay hlinks hpriv hz.1 hz.2 fun hd hdir =>
            ih (by simp; omega) (fun _ => by simpa using hsh) (hz.1.entry (by simp) hd) hdir) hz.1 hz.2)
        ⟨hlisted, hleft⟩).next fun r z hz => ?_
      have hst : R.Stable (Removing S env top more) := Removing.stable hR hstay hlinks
      cases r with
      | error e =>
        obtain ⟨⟨es, hl, _⟩, htrip⟩ := hz.2 e rfl
        exact .pure fun u hu => ⟨hst z u hu hl.removing, fun hG => .inr (hT z u hu htrip hG)⟩
      | ok _ =>
        obtain ⟨hl, hcz⟩ := hz.1 rfl
        have hrm := removeDirectory_bare hR hq ht hstay hlinks hpriv hl.removing.standing
          hl.removing.plain hl.removing.unlinked.weaken hcz
        refine (hrm.settled.withInvariant hl.removing hst fun y z h hy =>
          hy.erases ht (h.mono (List.prefix_append _ _))).next fun r u hu => ?_
        cases r with
        | ok _ => exact .pure fun v hv => ⟨hst u v hv hu.2, hu.1 v hv⟩
        | error e =>
          have htrip : ∀ v, R.rely u v → G → Tripped F (q.joins top) v := fun v hv hG =>
            (hu.1 v hv hG).resolve_left (by simp)
          simp only
          split <;> exact .pure fun v hv => ⟨hst u v hv hu.2, fun hG => .inr (htrip v hv hG)⟩

def Removable (l : Location) (t : Tree) : Prop :=
  t.Bare l ∨ ∃ n, t.get? l = some n ∧ (n = .directory ∨ n.isLink = true)

theorem Removable.of_spot {l : Location} {t : Tree} (hw : t.WellFormed) (h : t.Spot l) :
    Removable l t := by
  rcases h with h | h
  · exact .inl (hw.bare h)
  · exact .inr ⟨_, h, .inl rfl⟩

include hpriv in
theorem Removable.stable (hG : G) : R.Stable fun y => Removable (S.root ++ top) y.files := by
  intro y z h hy
  have hsame := hpriv hG y z h
  rcases hy with hy | ⟨n, hn, hd⟩
  · exact .inl fun rest => (hsame rest).trans (hy rest)
  · have hroot := hsame []
    rw [List.append_nil] at hroot
    exact .inr ⟨n, hroot.trans hn, hd⟩

include hR hq ht hstay hlinks hpriv in
theorem statTop_clearing (hx : Standing S env x) (hs : ∀ s ∈ top, IsPlain s)
    (hl : x.files.Unlinked false S.root top) (hc : Clearing S q top F G (Removable (S.root ++ top)) x) :
    (R.keeping (Erases (S.root ++ top))).Safe (fun r y =>
        (Standing S env y ∧ y.files.Unlinked false S.root top) ∧
        (∀ n, r = .ok n → (n.isLink = false → y.files.NoLink (S.root ++ top)) ∧
          Clearing S q top F G (fun t => t.get? (S.root ++ top) = some n ∧
            (n = .directory ∨ n.isLink = true)) y) ∧
        ∀ e, r = .error e → G → x.files.get? (S.root ++ top) = none ∧ y.files.Bare (S.root ++ top) ∨
          Tripped F (q.joins top) y)
      (Program.perform (.stat (q.joins top) false)) x := by
  refine Rules.Safe.perform (s := .stat (q.joins top) false) fun y hy r w hr => ?_
  have hy' := Standing.stable hR _ _ hy hx
  have hly := hstay _ _ hy hl
  have hcy := Clearing.stable hR hpriv (fun hG => Removable.stable hpriv hG) _ _ hy hc
  obtain ⟨rfl, hn⟩ := (hR.act hr).stat
  have he : Erases (S.root ++ top) y (y.after (.stat (q.joins top) false) r y.world) :=
    .of_unmoved (.of_eq (by rintro ⟨_, _, ⟨⟩⟩) rfl rfl)
  have hz' := hy'.within he.within (apart_under ht)
  refine ⟨he, fun z hz => ⟨⟨Standing.stable hR _ _ hz hz', hstay _ _ hz hly⟩, ?_, ?_⟩⟩
  · rintro n rfl
    obtain ⟨l, hres, hg⟩ := Tree.stat_eq_ok.mp (hn _ rfl)
    rw [hy'.directory] at hres
    obtain ⟨rfl, _⟩ := (hq _ hy'.stands).resolve_joins_ok ht hs hly hres
    refine ⟨fun hnl => ?_, ?_⟩
    · have hstays := hlinks [] _ _ hz
      rw [List.append_nil] at hstays
      refine hstays fun target htarget => ?_
      obtain rfl : n = .link target := Option.some.inj (hg.symm.trans htarget)
      simp [Node.isLink] at hnl
    · have hnow : Clearing S q top F G (fun t => t.get? (S.root ++ top) = some n ∧
          (n = .directory ∨ n.isLink = true)) (y.after (.stat (q.joins top) false) (.ok n) y.world) := by
        refine hcy.erases he fun hrem => ⟨hg, ?_⟩
        rcases hrem with hbare | ⟨n', hn', hd⟩
        · have hnone := hbare []
          rw [List.append_nil] at hnone
          exact absurd (hg.symm.trans hnone) (by simp)
        · obtain rfl : n = n' := Option.some.inj (hg.symm.trans hn')
          exact hd
      refine Clearing.stable hR hpriv (fun hG => ?_) _ _ hz hnow
      have hst := (hpriv hG).stable (fun o => o = some n ∧ (n = .directory ∨ n.isLink = true)) []
      rwa [List.append_nil] at hst
  · rintro e rfl hG
    obtain ⟨hreach, (hbare | ⟨n, hg, _⟩) | htrip⟩ := hcy hG
    · have hnone := (hpriv hG _ _ hy []).symm.trans (hbare [])
      rw [List.append_nil] at hnone
      exact .inl ⟨hnone, fun rest => (hpriv hG _ _ hz rest).trans (hbare rest)⟩
    · refine .inr (Tripped.stable hR _ _ hz (.here (.stat e) fun hF => ?_))
      have herr : y.files.stat y.world.directory false _ = .error e :=
        (Prod.mk.inj (Option.some.inj (hR.sure hF hr))).1
      have hres : y.files.resolve _ false (q.joins (top ++ [])) = _ :=
        (hreach hF).resolve hq ht hy' (by simpa using hly) (by simp [hg])
      rw [List.append_nil, List.append_nil] at hres
      rw [Tree.stat_eq_ok.mpr ⟨_, hres, hg⟩] at herr
      simp at herr
    · exact .inr (Tripped.stable hR _ _ hz (htrip.taken rfl))

include hR hq ht hstay hlinks hpriv in
theorem removeAll_bare (hx : Standing S env x) (hs : ∀ s ∈ top, IsPlain s)
    (hl : x.files.Unlinked false S.root top)
    (hc : Clearing S q top F G (Removable (S.root ++ top)) x) :
    (R.keeping (Erases (S.root ++ top))).Safe (fun r y => Standing S env y ∧
        (G → (r = .ok () ∨ x.files.get? (S.root ++ top) = none) ∧ y.files.Bare (S.root ++ top) ∨
          Tripped F (q.joins top) y))
      (removeAll (q.joins top)) x := by
  have hst : R.Stable (Standing S env) := Standing.stable hR
  refine (statTop_clearing hR hq ht hstay hlinks hpriv hx hs hl hc).settled.next fun r y hy => ?_
  obtain ⟨⟨hy', hly⟩, hok, -⟩ := hy y (R.refl y)
  cases r with
  | error e =>
    refine .pure fun z hz => ⟨hst y z hz hy', fun hG => ?_⟩
    exact ((hy z hz).2.2 e rfl hG).imp_left fun h => ⟨.inr h.1, h.2⟩
  | ok n =>
    obtain ⟨hnl, hcy⟩ := hok n rfl
    have hplain : ∀ s ∈ top ++ [], IsPlain s := by simpa using hs
    have hother (hn : ¬(n = .directory ∨ n.isLink = true)) {e : FileError} :
        (R.keeping (Erases (S.root ++ top))).Safe (fun r y => Standing S env y ∧
          (G → (r = .ok () ∨ x.files.get? (S.root ++ top) = none) ∧ y.files.Bare (S.root ++ top) ∨
            Tripped F (q.joins top) y))
          (Pure.pure (.error e : Except FileError Unit)) y := by
      refine .pure fun z hz => ⟨hst y z hz hy', fun hG => .inr ?_⟩
      exact Tripped.stable hR y z hz ((hcy hG).2.resolve_left fun h => hn h.2)
    cases n with
    | link target =>
      have hrm := removeFile_bare hR hq ht hstay hlinks hpriv top.append_nil.symm hy' hplain
        (by simpa using hly) (fun hG => ⟨(hcy hG).1, (hcy hG).2.imp_left fun h =>
          ⟨_, by simpa using h.1, rfl⟩⟩)
      simp only [List.append_nil] at hrm
      refine (hrm.settled.withInvariant hy' hst fun y z h hy => hy.within h.within
        (apart_under ht)).weaken fun r z hz => ⟨hz.2, fun hG => ?_⟩
      exact (hz.1 z (R.refl z) hG).imp_left fun h => ⟨.inl h.1, h.2⟩
    | directory =>
      have hr : Removing S env top [] y := by
        refine ⟨hy', hplain, hly, fun rest hr => ?_⟩
        rw [List.prefix_nil.mp hr, List.append_nil]
        exact hnl rfl
      have hrm := removeBelow_bare (G := G) hR hq ht hstay hlinks hpriv maxNesting (by simp)
        (by simp) hr fun hG => ⟨(hcy hG).1, (hcy hG).2.imp_left fun h => by simpa using h.1⟩
      simp only [List.append_nil] at hrm
      exact hrm.weaken fun r z hz => ⟨hz.1.standing, fun hG => (hz.2 hG).imp_left fun h =>
        ⟨.inl h.1, h.2⟩⟩
    | file => exact hother (by simp [Node.isLink])
    | other => exact hother (by simp [Node.isLink])

end Removal

end CompiledModels
