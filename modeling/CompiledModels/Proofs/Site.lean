import CompiledModels.Cache
import CompiledModels.Proofs.Faults
import CompiledModels.Proofs.Files.Operations

/-!
The directory of a cache in the file tree: how paths lead to it, and what steps change in it.
-/

namespace CompiledModels

open Files

namespace Cache

theorem entryDirectory_eq (c : Cache) (id : ModelIdentity) :
    c.entryDirectory id = c.root.joins [ModelIdentity.modelNamespace, id.name] := by
  simp [entryDirectory, modelsDirectory, Path.join, Path.joins]

end Cache

theorem ModelIdentity.isPlain (id : ModelIdentity) : IsPlain id.name := by
  obtain ⟨hne, hall⟩ := id.safe
  refine ⟨hne, ?_, ?_⟩ <;> intro h <;> rw [h] at hall <;> revert hall <;> decide

theorem ModelIdentity.eq_of_name {a b : ModelIdentity} (h : a.name = b.name) : a = b := by
  cases a
  cases b
  congr

abbrev Moment.files (x : Moment) : Tree := x.world.files

/-- The location of a directory, and the nodes that the paths to it lead through. -/
structure Site where
  root : Location
  pins : List (Location × Node)
  outside : ∀ e ∈ pins, ¬root <+: e.1
  solid : ∀ e ∈ pins, e.2.isFile = false

inductive Above (p : Path) : Path → Prop
  | self : Above p p
  | parent {q q' : Path} (h : Above p q) (hq : q.parent? = some q') : Above p q'

namespace Site

variable {S : Site} {t t' : Tree} {cwd : Location} {p q : Path} {names : List String}
  {k l : Location} {follow : Bool}

/-- The directory is there, and so is all that leads to it. -/
structure Stands (S : Site) (t : Tree) : Prop where
  wellFormed : t.WellFormed
  root : t.get? S.root = some .directory
  pins : ∀ e ∈ S.pins, t.get? e.1 = some e.2

def Leads (S : Site) (cwd : Location) (p : Path) : Prop :=
  ∀ t, S.Stands t → t.Leads cwd p S.root

def Held (S : Site) (cwd : Location) (p : Path) : Prop :=
  ∀ q, Above p q → ∀ t, S.Stands t → ∀ l, t.resolve cwd false q = .ok l → t.get? l ≠ none

/-- The paths that a cache at `p` uses all lead to the directory, and its parents are there. -/
structure Serves (S : Site) (env : Environment) (p : Path) : Prop where
  leads : S.Leads env.location p
  full : S.Leads env.location (Path.inDirectory env.directory p)
  held : S.Held env.location p

def staging (S : Site) : Location := S.root ++ [".staging"]

def models (S : Site) : Location := S.root ++ [ModelIdentity.modelNamespace]

def entry (S : Site) (id : ModelIdentity) : Location :=
  S.root ++ [ModelIdentity.modelNamespace, id.name]

theorem entry_eq (S : Site) (id : ModelIdentity) : S.entry id = S.models ++ [id.name] := by
  simp [entry, models]

def Apart (S : Site) (Z : Location → Prop) : Prop :=
  ¬Z S.root ∧ ∀ e ∈ S.pins, ¬Z e.1

theorem Apart.mono {Z Z' : Location → Prop} (h : S.Apart Z') (hz : ∀ l, Z l → Z' l) : S.Apart Z :=
  ⟨fun hl => h.1 (hz _ hl), fun e he hl => h.2 e he (hz _ hl)⟩

theorem Apart.or {Z Z' : Location → Prop} (h : S.Apart Z) (h' : S.Apart Z') :
    S.Apart fun l => Z l ∨ Z' l :=
  ⟨not_or.mpr ⟨h.1, h'.1⟩, fun e he => not_or.mpr ⟨h.2 e he, h'.2 e he⟩⟩

theorem Stands.change {Z : Location → Prop} (h : S.Stands t) (hw : t'.WellFormed)
    (hz : S.Apart Z) (hs : ∀ l, ¬Z l → t'.get? l = t.get? l) : S.Stands t' := by
  refine ⟨hw, ?_, fun e he => ?_⟩
  · rw [hs _ hz.1, h.root]
  · rw [hs _ (hz.2 e he), h.pins e he]

theorem apart_below {Z : Location → Prop} (h : ∀ l, Z l → ∃ rest, rest ≠ [] ∧ l = S.root ++ rest) :
    S.Apart Z := by
  constructor
  · intro hz
    obtain ⟨rest, hr, he⟩ := h _ hz
    exact hr (List.append_right_eq_self.mp he.symm)
  · intro e he hz
    obtain ⟨rest, _, hl⟩ := h _ hz
    exact S.outside e he (hl ▸ List.prefix_append _ _)

theorem Leads.resolve_ok (h : S.Leads cwd p) (ht : S.Stands t) (hn : names ≠ [])
    (hs : ∀ s ∈ names, IsPlain s) (hl : t.Unlinked follow S.root names)
    (hk : t.resolve cwd follow (p.joins names) = .ok k) :
    k = S.root ++ names ∧ t.get? (S.root ++ names.dropLast) = some .directory ∧
      (∀ s ∈ names, IsProper s) ∧ Tree.Short (p.joins names) :=
  (h t ht).resolve_joins_ok hn hs hl hk

theorem Stands.above (h : S.Stands t) {pre : Location} (hp : pre <+: S.root) :
    t.get? pre = some .directory := by
  obtain ⟨rest, hr⟩ := hp
  have hroot := h.root
  rw [← hr] at hroot
  by_cases he : rest = []
  · simpa [he] using hroot
  · exact h.wellFormed.get?_above he (by rw [hroot]; simp)

section Absolute

def path (l : Location) : Path := ⟨"/", l⟩

theorem isAbsolute_path (l : Location) : (path l).isAbsolute = true :=
  show "/".startsWith "/" = true by decide +kernel

theorem segments_path (l : Location) : Path.segments (path l).base = ["", ""] :=
  show Path.segments "/" = ["", ""] by decide

theorem plain_path (l : Location) : (path l).base.toList.any (· == '\x00') = false :=
  show "/".toList.any (· == '\x00') = false by decide

theorem leads_top (t : Tree) (cwd : Location) : t.Leads cwd (path []) [] := by
  refine ⟨rfl, plain_path [], Tree.maxLinks, fun follow names _ => ?_⟩
  rw [isAbsolute_path, segments_path]
  simp only [path, List.append_nil, List.cons_append, List.nil_append, if_true]
  rw [Tree.resolveFrom_empty, Tree.resolveFrom_empty]

theorem resolve_path (ht : t.WellFormed) (hl : t.get? l = some .directory)
    (hk : t.resolve cwd false (path l) = .ok k) : k = l := by
  by_cases h : l = []
  · subst h
    have hf : t.resolveFrom true Tree.maxLinks [] ["", ""] = .ok [] := rfl
    have hd : Tree.demandsDirectory (path []) = true := by decide
    have hz : (path []).base.isEmpty = false := by decide
    have ht : (path []).text.utf8ByteSize = 1 := by decide
    simp only [Tree.resolve, hd, segments_path, isAbsolute_path, plain_path, hz, ht, if_true, Bool.false_or] at hk
    simp only [path, List.append_nil, hf] at hk
    simpa [Tree.maxPathLength] using hk.symm
  · have hp : ∀ s ∈ l, IsPlain s := fun s hs => (ht.proper_of_get? (by rw [hl]; simp) s hs).1
    exact ((leads_top t cwd).resolve_joins_ok h hp (ht.unlinked (show t.get? ([] ++ l) = _ from hl)).weaken hk).1

theorem above_path {l : Location} {q : Path} (h : Above (path l) q) : ∃ pre, pre <+: l ∧ q = path pre := by
  induction h with
  | self => exact ⟨l, List.prefix_refl _, rfl⟩
  | @parent q q' _ hq ih =>
    obtain ⟨pre, hp, rfl⟩ := ih
    cases pre with
    | nil =>
      rw [show (path []).parent? = none by decide +kernel] at hq
      simp at hq
    | cons s pre =>
      refine ⟨(s :: pre).dropLast, (List.dropLast_prefix _).trans hp, ?_⟩
      simpa [Path.parent?, path] using hq.symm

theorem serves_path (S : Site) (env : Environment) : S.Serves env (path S.root) := by
  have hleads : S.Leads env.location (path S.root) := by
    intro t ht
    refine ⟨ht.root, plain_path S.root, Tree.maxLinks, fun follow names hn => ?_⟩
    rw [isAbsolute_path, segments_path]
    simp only [path, List.cons_append, List.nil_append, if_true]
    rw [Tree.resolveFrom_empty, Tree.resolveFrom_empty, Tree.resolveFrom_directories]
    · rfl
    · exact ht.wellFormed.proper_of_get? (by rw [ht.root]; simp)
    · exact fun pre hp _ => by simpa using ht.above hp
  refine ⟨hleads, ?_, fun q hq t ht l hl => ?_⟩
  · rwa [Path.inDirectory, if_pos (isAbsolute_path S.root)]
  · obtain ⟨pre, hp, rfl⟩ := above_path hq
    rw [resolve_path ht.wellFormed (ht.above hp) hl, ht.above hp]
    simp

end Absolute

end Site

structure Changes (Z : Location → Prop) (x y : Moment) : Prop where
  files : ∀ l, ¬Z l → y.files.get? l = x.files.get? l
  wellFormed : x.files.WellFormed → y.files.WellFormed
  environment : y.world.environment = x.world.environment

def Taken.Moves (s : Taken) : Prop := ∃ a b, s = ⟨.rename a b, .ok ()⟩

structure Within (Z : Location → Prop) (x y : Moment) : Prop extends Changes Z x y where
  taken : ∃ s, y.past = s :: x.past ∧ ¬s.Moves

structure Adds (Z : Location → Prop) (x y : Moment) : Prop extends Within Z x y where
  added : ∀ l, y.files.get? l = x.files.get? l ∨ x.files.get? l = none ∧ y.files.NoLink l

section Changes

variable {Z Z' : Location → Prop} {x y : Moment} {S : Site}

theorem Changes.mono (h : Changes Z x y) (hz : ∀ l, Z l → Z' l) : Changes Z' x y :=
  ⟨fun l hl => h.files l fun hz' => hl (hz l hz'), h.wellFormed, h.environment⟩

theorem Changes.stands (h : Changes Z x y) (hz : S.Apart Z) (hs : S.Stands x.files) :
    S.Stands y.files :=
  hs.change (h.wellFormed hs.wellFormed) hz h.files

theorem Within.mono (h : Within Z x y) (hz : ∀ l, Z l → Z' l) : Within Z' x y :=
  ⟨h.toChanges.mono hz, h.taken⟩

theorem Within.of_eq {s : Step} {r : s.Reply} {w : World} (hn : ¬(Taken.mk s r).Moves)
    (hf : w.files = x.world.files) (he : w.environment = x.world.environment) :
    Within Z x (x.after s r w) :=
  ⟨⟨fun _ _ => by simp only [Moment.files, Moment.after_world, hf],
    fun h => by simpa only [Moment.files, Moment.after_world, hf] using h, he⟩, _, rfl, hn⟩

theorem Within.of_tree {s : Step} {r : s.Reply} {t : Tree} (hn : ¬(Taken.mk s r).Moves)
    (hw : t.WellFormed) (hf : ∀ l, ¬Z l → t.get? l = x.files.get? l) :
    Within Z x (x.after s r { x.world with files := t }) :=
  ⟨⟨hf, fun _ => hw, rfl⟩, _, rfl, hn⟩

theorem Adds.mono (h : Adds Z x y) (hz : ∀ l, Z l → Z' l) : Adds Z' x y :=
  ⟨h.toWithin.mono hz, h.added⟩

theorem Adds.extends (h : Adds Z x y) : y.files.Extends x.files := fun l hl =>
  (h.added l).resolve_right fun hn => hl hn.1

theorem Adds.noLink (h : Adds Z x y) {l : Location} (hl : x.files.NoLink l) : y.files.NoLink l := by
  rcases h.added l with he | he
  · exact fun target => he ▸ hl target
  · exact he.2

theorem Adds.of_tree {s : Step} {r : s.Reply} {t : Tree} {l : Location} {n : Node}
    (hn : ¬(Taken.mk s r).Moves) (hw : t.WellFormed) (hl : Z l) (hnone : x.files.get? l = none)
    (hlink : n.isLink = false) (hf : ∀ k, t.get? k = if k = l then some n else x.files.get? k) :
    Adds Z x (x.after s r { x.world with files := t }) := by
  refine ⟨.of_tree hn hw fun k hk => (hf k).trans (if_neg ?_), fun k => ?_⟩
  · rintro rfl
    exact hk hl
  · by_cases hk : k = l
    · subst hk
      refine .inr ⟨hnone, fun target ht => ?_⟩
      have ht : t.get? k = some (.link target) := ht
      rw [hf, if_pos rfl, Option.some.injEq] at ht
      simp [ht, Node.isLink] at hlink
    · exact .inl ((hf k).trans (if_neg hk))

end Changes

def Site.top : Site := ⟨["c"], [], by simp, by simp⟩

def ModelIdentity.small : ModelIdentity := ⟨"m", by decide⟩

end CompiledModels
