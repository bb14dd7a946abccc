import CompiledModels.Proofs.Errands
import CompiledModels.Proofs.Lookups
import CompiledModels.Proofs.Locking

/-!
An evaluation runs the module that is in the entry when it looks for it.
-/

namespace CompiledModels

open Files Program
open Estate (Alike)

theorem Estate.Alike.trans {a b c : Option Node} (h : Alike a b) (h' : Alike b c) : Alike a c := by
  rcases h with rfl | ⟨number, x, y, x', y', rfl, rfl⟩
  · exact h'
  · rcases h' with rfl | ⟨number', x₁, y₁, x₂, y₂, hb, rfl⟩
    · exact .inr ⟨_, _, _, _, _, rfl, rfl⟩
    · obtain ⟨rfl, -, -⟩ := Node.file.inj (Option.some.inj hb)
      exact .inr ⟨_, _, _, _, _, rfl, rfl⟩

theorem Files.Tree.Short.of_join {p : Path} {name : String} (h : Tree.Short (p.join name)) : Tree.Short p := by
  have htext : (p.join name).text = Path.joinText p.text name := by simp [Path.text, Path.join]
  rw [Tree.Short, htext, Path.joinText] at h
  rw [Tree.Short]
  split at h <;> simp only [String.utf8ByteSize_append] at h <;> omega

section Looking

variable {E : Estate} {w : World} {e : Engine} {id : ModelIdentity} {name : String} (hw : E.Calm w)
  (hS : E.cache.Serves w.environment e.cache.root) (hn : ModuleFile.isName name = true)
include hw hS

theorem reached_of_names (hmem : name ∈ w.names (e.cache.entryDirectory id)) : Reached E.cache e.cache id w :=
  .of_mem_names hS.leads hw.sound.cache (fun _ => hw.sound.clean _ (.inl (List.prefix_append _ _))) hmem

theorem reached_of_get? (hget : w.files.get? (E.cache.entry id ++ [name]) ≠ none)
    (hshort : Tree.Short ((e.cache.entryDirectory id).join name)) : Reached E.cache e.cache id w :=
  ⟨hS.leads, hw.sound.cache, hw.sound.cache.wellFormed.get?_parent hget,
    fun s => by rw [Site.entry, List.append_assoc]; exact hw.sound.clean _ (.inl (List.prefix_append _ _)),
    hshort.of_join⟩

include hn

theorem short_of_isFile (h : w.isFile ((e.cache.entryDirectory id).join name) = true) :
    Tree.Short ((e.cache.entryDirectory id).join name) := by
  rw [World.isFile] at h
  cases hstat : w.files.stat w.directory true ((e.cache.entryDirectory id).join name) with
  | error err => simp [hstat, Except.toOption] at h
  | ok node =>
    obtain ⟨l, hl, -⟩ := Tree.stat_eq_ok.mp hstat
    rw [Cache.entryDirectory_eq, Path.joins_join] at hl ⊢
    have hplain : ∀ s ∈ [ModelIdentity.modelNamespace, id.name, name], IsPlain s :=
      List.forall_mem_cons.mpr ⟨by decide, List.forall_mem_cons.mpr ⟨id.isPlain,
        List.forall_mem_singleton.mpr (ModuleFile.plain_of_isName hn)⟩⟩
    exact (hS.leads.resolve_ok hw.sound.cache (by simp) hplain
      (fun pre _ _ _ => hw.sound.clean _ (.inl (List.prefix_append _ _))) hl).2.2.2

theorem modulePath_of_tidy {m : Machine} (ht : E.Tidy w.files)
    (hmem : name ∈ w.names (e.cache.entryDirectory id))
    (hshort : Tree.Short ((e.cache.entryDirectory id).join name)) :
    (e.cache.modulePath id).run m w = some (some ((e.cache.entryDirectory id).join name), w) := by
  have hr := reached_of_names hw hS hmem
  have hget := hr.mem_names.mp hmem
  have hfile : w.isFile ((e.cache.entryDirectory id).join name) = true := by
    obtain ⟨number, c, x, hnode⟩ := (ht.files _ name (.entry id) hn).resolve_left hget
    rw [World.isFile, (hr.stat_iff (ModuleFile.plain_of_isName hn)).mpr ⟨hshort, hnode⟩]
    rfl
  have hnodup : (w.names (e.cache.entryDirectory id)).Nodup := by
    rw [World.names, hr.list]
    exact hr.stands.wellFormed.nodup_children
  have honly : (w.names (e.cache.entryDirectory id)).filter ModuleFile.isName = [name] := by
    refine List.perm_singleton.mp ((List.perm_ext_iff_of_nodup (hnodup.filter _) (List.nodup_singleton _)).mpr
      fun n => ?_)
    rw [List.mem_filter, List.mem_singleton]
    constructor
    · rintro ⟨hmem', hn'⟩
      exact ht.single id n name hn' hn (hr.mem_names.mp hmem') hget
    · rintro rfl
      exact ⟨hmem, hn⟩
  have hsees := Cache.modulePath_sees e.cache id (m := m) (w := w)
  rw [World.moduleNames, honly, List.filter_cons, if_pos hfile] at hsees
  exact hsees

omit hn in
theorem list_of_absent (hnone : w.files.get? (E.cache.entry id) = none) :
    ∃ err, w.files.list w.directory (e.cache.entryDirectory id) = .error err := by
  cases hlist : w.files.list w.directory (e.cache.entryDirectory id) with
  | error err => exact ⟨err, rfl⟩
  | ok es =>
    obtain ⟨l, hl, hdir, -⟩ := Tree.list_eq_ok.mp hlist
    have hplain : ∀ s ∈ [ModelIdentity.modelNamespace, id.name], IsPlain s :=
      List.forall_mem_cons.mpr ⟨by decide, List.forall_mem_singleton.mpr id.isPlain⟩
    rw [Cache.entryDirectory_eq] at hl
    obtain ⟨rfl, -⟩ := hS.leads.resolve_ok hw.sound.cache (by simp) hplain
      (fun pre _ _ _ => hw.sound.clean _ (.inl (List.prefix_append _ _))) hl
    exact nomatch hnone.symm.trans hdir

end Looking

section Scenes

variable {ι : Type} [DecidableEq ι] {E : Estate} {m : Machine} {S S' T T' : Scene ι Errand.Result} {i j k : ι}
  {errand : ι → Errand} {id : ModelIdentity} {n : String} {t : Taken}

def Scene.Without (Q : ι → Taken → Prop) (S S' : Scene ι Errand.Result) : Prop :=
  ∃ later, S'.history = later ++ S.history ∧ ∀ x ∈ later, ¬Q x.1 x.2

/-- What an evaluation looks for: `p` is the path of the module at the time at which it lists the entry. -/
def Scene.Finds (m : Machine) (S S' : Scene ι Errand.Result) (i : ι) (e : Engine) (id : ModelIdentity) (p : Path) :
    Prop :=
  ∃ T T' es, S.Reaches m T ∧ T.past i = [] ∧ T.Takes m i ⟨.list (e.cache.entryDirectory id), .ok es⟩ T' ∧
    T'.Reaches m S' ∧
    (e.cache.modulePath id).run m (T.world (T.process i)) = some (some p, T.world (T.process i))

def Scene.Runs (S : Scene ι Errand.Result) (i : ι) (a : LoadedModule) : Prop :=
  ∃ d q answer, ⟨.ask a d q, answer⟩ ∈ S.past i

/-- The name `n` of a module that the caller `k` builds is a new one: there was no such module in the
entry and in the tables in the beginning, and no one else builds one. -/
structure Scene.Novel (E : Estate) (S S' : Scene ι Errand.Result) (k : ι) (id : ModelIdentity) (n : String) :
    Prop where
  entry : S.files.get? (E.cache.entry id ++ [n]) = none
  tables : ∀ p r a, ((S.worlds p).registry r).get? id.key = some a → a.path.fileName? ≠ some n
  builds : ∀ i, (∃ t ∈ S'.past i, t.Builds id n) → i = k

/-- What an evaluation has come to that began after the module `n` was published in the scene `P`. That
module stays, and the evaluation runs no other, nor one that was loaded before. It asks for it unless its
path is too long. -/
structure Scene.Renewed (m : Machine) (E : Estate) (P S : Scene ι Errand.Result) (j : ι) (e : Engine)
    (id : ModelIdentity) (n : String) : Prop where
  stands : ∀ U, P.Reaches m U → U.Reaches m S →
    Alike (P.files.get? (E.cache.entry id ++ [n])) (U.files.get? (E.cache.entry id ++ [n]))
  runs : ∀ a, S.Runs j a → a.path.same ((e.cache.entryDirectory id).join n) = true ∧
    P.Fetched m S (P.process j) e.registry id.key a
  asks : Tree.Short ((e.cache.entryDirectory id).join n) → ∀ r, S.program j = .done r →
    ∃ r', ⟨.getOrLoad e.registry id.key ((e.cache.entryDirectory id).join n), r'⟩ ∈ S.past j

section Without

variable {Q : ι → Taken → Prop}

omit [DecidableEq ι] in
theorem Scene.Without.refl : S.Without Q S := ⟨[], rfl, by simp⟩

theorem Scene.Without.split (h : S.Without Q S') (hT : S.Reaches m T) (hT' : T.Reaches m S') :
    S.Without Q T ∧ T.Without Q S' := by
  obtain ⟨later, hh, hnot⟩ := h
  obtain ⟨a, ha⟩ := hT.history
  obtain ⟨b, hb⟩ := hT'.history
  rw [ha, ← List.append_assoc] at hb
  obtain rfl := List.append_cancel_right (hh.symm.trans hb)
  refine ⟨⟨a, ha, fun x hx => hnot x (List.mem_append_right _ hx)⟩, b, ?_,
    fun x hx => hnot x (List.mem_append_left _ hx)⟩
  rw [hh, ha, List.append_assoc]

theorem Scene.Without.induct {P : Scene ι Errand.Result → Prop} (h : S.Without Q S') (hr : S.Reaches m S')
    (h₀ : P S) (hstep : ∀ T T', S.Reaches m T → T.Moves m T' → T'.history = T.history ∨
      (∃ i t, T'.history = (i, t) :: T.history ∧ ¬Q i t) → P T → P T') : P S' := by
  induction hr with
  | refl => exact h₀
  | @tail T T' hT hm ih =>
    obtain ⟨hbefore, later, hlater, hnot⟩ := h.split hT (.single hm)
    refine hstep T T' hT hm ?_ (ih hbefore)
    rcases hm.taken with hsame | ⟨i, t, htakes⟩
    · exact .inl hsame
    · have hcons := htakes.history
      rw [hlater, ← List.singleton_append] at hcons
      obtain rfl := List.append_cancel_right hcons
      exact .inr ⟨i, t, htakes.history, hnot _ List.mem_cons_self⟩

end Without

theorem Scene.Posts.built {env : Nat → Environment} (h : T.Posts E errand env i id n t) :
    ModuleFile.isName n = true ∧ ∃ u ∈ T.past i, u.Builds id n := by
  obtain ⟨rfl, s, htrail, -⟩ := h
  exact htrail.built (.inl rfl)

namespace Estate.Bears

variable (h : E.Bears m S errand)
include h

theorem unbegun (i : ι) : S.past i = [] := by simp [Scene.past, h.opens.history]

theorem known (hr : S.Reaches m S') : S'.Guarded E errand (fun p => (S.worlds p).environment) ∧
    S'.Kept E errand (fun p => (S.worlds p).environment) ∧ S'.process = S.process := by
  have hguarded : S.Guarded E errand fun p => (S.worlds p).environment :=
    h.opens.ordered h.sound h.tame fun i => Errand.program_courteous (h.settled i) (by simp [h.unbegun, held])
  have hkept : S.Kept E errand fun p => (S.worlds p).environment := by
    refine ⟨h.tidy, fun i => ?_, fun i => ⟨.blank, h.unbegun i ▸ .nil⟩, fun i _ d hd => ?_⟩
    · rw [h.opens.program]
      exact Errand.program_drafting (h.settled i) (h.unbegun i)
    · rw [h.unbegun] at hd
      cases hd
      trivial
  induction hr with
  | refl => exact ⟨hguarded, hkept, rfl⟩
  | tail _ hm ih =>
    obtain ⟨hg, hk, hp⟩ := ih
    have horderly (i : ι) := hp ▸ h.orderly i
    have hsettled (i : ι) := hp ▸ h.settled i
    refine ⟨?_, (hk.moves horderly hsettled hg hm).1, hm.process.trans hp⟩
    have hmoved := hg.moves horderly hm
    rwa [← hm.process] at hmoved

theorem turns (hr : S.Reaches m T) (hm : T.Moves m T') :
    T.Turns E errand (fun p => (S.worlds p).environment) T' := by
  obtain ⟨hg, hk, hp⟩ := h.known hr
  exact (hk.moves (fun i => hp ▸ h.orderly i) (fun i => hp ▸ h.settled i) hg hm).2

theorem absent (hT : S.Reaches m T) (hr : T.Reaches m T')
    (hpub : T.Without (fun i t => t.Publishes (errand i).engine.cache id) T')
    (hnone : T.files.get? (E.cache.entry id) = none) : T'.files.get? (E.cache.entry id) = none := by
  refine hpub.induct (P := fun U => U.files.get? (E.cache.entry id) = none) hr hnone
    fun U U' hU hm hstep hnone => ?_
  refine ((h.turns (hT.trans hU) hm).entry id hnone).resolve_right fun hturn => ?_
  obtain ⟨i, t, hcons, -, hpublishes⟩ := hturn
  rcases hstep with hsame | ⟨i', t', hcons', hnot⟩
  · simp [hsame] at hcons
  · obtain ⟨hit, -⟩ := List.cons.inj (hcons'.symm.trans hcons)
    obtain ⟨rfl, rfl⟩ := Prod.mk.inj hit
    exact hnot hpublishes

theorem stands (hT : S.Reaches m T) (hr : T.Reaches m T')
    (hquiet : T.Without (fun i t => t.step.Disturbs E (S.worlds (S.process i)).environment id) T')
    (hn : ModuleFile.isName n = true) :
    Alike (T.files.get? (E.cache.entry id ++ [n])) (T'.files.get? (E.cache.entry id ++ [n])) := by
  refine hquiet.induct (P := fun U => Alike (T.files.get? (E.cache.entry id ++ [n]))
    (U.files.get? (E.cache.entry id ++ [n]))) hr (.refl _) fun U U' hU hm hstep ha => ha.trans ?_
  refine ((h.turns (hT.trans hU) hm).modules id n hn).resolve_right fun hturn => ?_
  obtain ⟨i, t, hcons, hdisturbs, -⟩ := hturn
  rw [(h.known (hT.trans hU)).2.2] at hdisturbs
  rcases hstep with hsame | ⟨i', t', hcons', hnot⟩
  · simp [hsame] at hcons
  · obtain ⟨hit, -⟩ := List.cons.inj (hcons'.symm.trans hcons)
    obtain ⟨rfl, rfl⟩ := Prod.mk.inj hit
    exact hnot hdisturbs

theorem calm (hT : S.Reaches m T) (i : ι) : E.Calm (T.world (T.process i)) ∧
    E.cache.Serves (T.world (T.process i)).environment (errand i).engine.cache.root := by
  obtain ⟨hg, -, hp⟩ := h.known hT
  refine ⟨hg.calm.calm _, ?_⟩
  rw [hg.calm.environment, hp]
  exact (h.settled i).serves

theorem origin (hr : S.Reaches m T) (hn : ModuleFile.isName n = true)
    (hg : T.files.get? (E.cache.entry id ++ [n]) ≠ none) : S.files.get? (E.cache.entry id ++ [n]) ≠ none ∨
      ∃ U U' i t, S.Reaches m U ∧ U.Takes m i t U' ∧ U'.Reaches m T ∧
        U.Posts E errand (fun p => (S.worlds p).environment) i id n t := by
  induction hr with
  | refl => exact .inl hg
  | @tail U T hU hm ih =>
    rcases (h.turns hU hm).modules id n hn with ha | ⟨i, t, hcons, -, hposts⟩
    · refine (ih fun hnone => hg (ha.eq_none_iff.mpr hnone)).imp_right fun hp => ?_
      obtain ⟨V, V', i, t, hV, htakes, hV', hposts⟩ := hp
      exact ⟨V, V', i, t, hV, htakes, hV'.tail hm, hposts⟩
    · rcases hm.taken with hsame | ⟨i', t', htakes⟩
      · simp [hsame] at hcons
      · obtain ⟨hit, -⟩ := List.cons.inj (htakes.history.symm.trans hcons)
        obtain ⟨rfl, rfl⟩ := Prod.mk.inj hit
        exact .inr ⟨U, T, i', t', hU, htakes, .refl, hposts hg⟩

theorem brings (hT : S.Reaches m T) (ht : T.Takes m i t T')
    (hposts : T.Posts E errand (fun p => (S.worlds p).environment) i id n t) :
    T'.files.get? (E.cache.entry id ++ [n]) ≠ none := by
  obtain ⟨hg, hk, hp⟩ := h.known hT
  obtain ⟨rfl, s, htrail, rfl⟩ := hposts
  have hS : (errand i).engine.Settled E (S.worlds (T.process i)).environment := hp ▸ h.settled i
  have henv := hg.calm.environment (T.process i)
  cases ht with
  | @mk next w hi hprogram hr =>
    have hheld : (Draft.filled s n).Holds E (errand i).identity T.files := hk.holds i hi _ htrail
    rcases Step.settles_of_onFiles (Option.some.inj hr) with ⟨err, herr, -⟩ | ⟨-, T', hT', rfl⟩
    · exact nomatch herr
    · have hrename : T.files.rename (S.worlds (T.process i)).environment.location
          ((errand i).engine.cache.stagedDirectory (S.worlds (T.process i)).environment (errand i).identity s)
          ((errand i).engine.cache.entryDirectory (errand i).identity) = .ok T' := by
        rw [World.directory, henv] at hT'
        exact hT'
      have hentry := (posted_get? hS.serves (hg.calm.calm (T.process i)).sound hheld.1 hrename).1 [n]
      exact fun hnone => hheld.1 (hentry.symm.trans hnone)

section Evaluations

variable {F : Scene ι Errand.Result} {e : Engine} {v : Visit} {past before : List Taken} {p : Path}

omit [DecidableEq ι] h in
theorem seeking (hi : errand i = .visit e v) (hv : v.isEvaluation = true) (w : World) :
    (Rules.seeking e v.identity).Safe (fun _ y => e.Concluded v.identity y.past) (errand i).program ⟨w, []⟩ := by
  rw [hi]
  exact (visit_seeks hv rfl).next fun _ _ hy => .done hy (Rules.traced_stable (e.Concluded v.identity))

theorem seeks (hr : S.Reaches m F) (hi : errand i = .visit e v) (hv : v.isEvaluation = true)
    (hp : F.past i = past ++ t :: before) : t.step.Seeks e v.identity before := by
  simpa using (seeking hi hv (S.world 0)).took (h.opens.ran hr i) (fun _ _ => trivial) hp

theorem concluded (hr : S.Reaches m F) (hi : errand i = .visit e v) (hv : v.isEvaluation = true)
    {r : Errand.Result} (hd : F.program i = .done r) : e.Concluded v.identity (F.past i) := by
  have hran := h.opens.ran hr i
  rw [hd] at hran
  simpa using Rules.Safe.done_iff.1 ((seeking hi hv (S.world 0)).ran hran fun _ _ => trivial) _ rfl

theorem found (hT : S.Reaches m T) (hr : T.Reaches m F) (hpast : T.past i = [])
    (hf : (errand i).engine.Found id (F.past i) p) : ∃ name es U U', T.Reaches m U ∧ U.past i = [] ∧
      U.Takes m i ⟨.list ((errand i).engine.cache.entryDirectory id), .ok es⟩ U' ∧ U'.Reaches m F ∧
      ModuleFile.isName name = true ∧
      name ∈ (U.world (U.process i)).names ((errand i).engine.cache.entryDirectory id) ∧
      Tree.Short ((errand i).engine.cache.entryDirectory id |>.join name) ∧
      p = ((errand i).engine.cache.entryDirectory id).join name := by
  obtain ⟨es, name, ⟨later, hlisted⟩, hmem, hname, ⟨r, hstat, hfile⟩, rfl⟩ := hf
  obtain ⟨U, U', hU, hstart, htakes, hU'⟩ := hr.took_past hpast hlisted
  obtain ⟨w, hexec, -⟩ := htakes.exec
  have hlist : (U.world (U.process i)).files.list (U.world (U.process i)).directory
      ((errand i).engine.cache.entryDirectory id) = .ok es := (Prod.mk.inj (Option.some.inj hexec)).1
  obtain ⟨past, before, hsplit⟩ := List.append_of_mem hstat
  obtain ⟨V, V', hV, -, hlook, -⟩ := hr.took_past hpast hsplit
  obtain ⟨w', hexec', -⟩ := hlook.exec
  have hseen : (V.world (V.process i)).files.stat (V.world (V.process i)).directory true
      (((errand i).engine.cache.entryDirectory id).join name) = r := (Prod.mk.inj (Option.some.inj hexec')).1
  obtain ⟨hcalm, hserves⟩ := h.calm (hT.trans hV) i
  refine ⟨name, es, U, U', hU, hstart, htakes, hU', hname, ?_, short_of_isFile hcalm hserves hname ?_, rfl⟩
  · rw [World.names, hlist]
    exact hmem
  · rw [World.isFile, hseen]
    exact hfile

theorem asked (hr : S.Reaches m F) (hi : errand i = .visit e v) (hv : v.isEvaluation = true) {a : LoadedModule}
    (ha : F.Runs i a) : ∃ p, ⟨.getOrLoad e.registry v.identity.key p, .ok a⟩ ∈ F.past i := by
  obtain ⟨d, q, answer, ha⟩ := ha
  obtain ⟨past, before, hsplit⟩ := List.append_of_mem ha
  obtain ⟨p, hp⟩ := h.seeks hr hi hv hsplit
  exact ⟨p, hsplit ▸ List.mem_append_right _ (List.mem_cons_of_mem _ hp)⟩

theorem current (hr : S.Reaches m F) (hi : errand i = .visit e v) (hv : v.isEvaluation = true)
    {a : LoadedModule} (ha : F.Runs i a) : ∃ p, S.Finds m F i e v.identity p ∧ a.path.same p = true ∧
      (((S.worlds (S.process i)).registry e.registry).get? v.identity.key = some a ∨
        S.Fetched m F (S.process i) e.registry v.identity.key a) := by
  obtain ⟨p, hp⟩ := h.asked hr hi hv ha
  obtain ⟨hsame, horigin⟩ := hr.given (h.unbegun i) hp
  obtain ⟨past, before, hsplit⟩ := List.append_of_mem hp
  obtain ⟨-, -, hfound⟩ := h.seeks hr hi hv hsplit
  obtain ⟨T, T', hT, rfl, htakes, hT'⟩ := hr.took_past (h.unbegun i) hsplit
  obtain rfl : (errand i).engine = e := by rw [hi]; rfl
  obtain ⟨name, es, U, U', hU, hstart, hlist, hU', hname, hmem, hshort, rfl⟩ := h.found .refl hT (h.unbegun i) hfound
  obtain ⟨hcalm, hserves⟩ := h.calm hU i
  exact ⟨_, ⟨U, U', es, hU, hstart, hlist, (hU'.tail htakes.moves).trans hT',
    modulePath_of_tidy hcalm hserves hname (h.known hU).2.1.tidy hmem hshort⟩, hsame, horigin⟩

theorem gone (hT : S.Reaches m T) (ht : T.Takes m k t T') (hk : errand k = .visit e (.delete id))
    (hd : T'.program k = .done (.visited (.deleted (.ok ())))) : T'.files.get? (E.cache.entry id) = none := by
  have hran := h.opens.ran (hT.tail ht.moves) k
  rw [hk, hd] at hran
  obtain ⟨r, y, hvisit, hlast⟩ := Ends.bind_iff.mp (hran.steps (S.world 0))
  obtain ⟨hr, rfl⟩ := Ends.pure_iff.mp hlast
  obtain rfl := Errand.Result.visited.inj hr
  obtain ⟨r, y, hdelete, hlast⟩ := Ends.bind_iff.mp hvisit
  obtain ⟨hr, rfl⟩ := Ends.pure_iff.mp hlast
  obtain rfl := Visit.Result.deleted.inj hr
  obtain ⟨-, z, -, hrest⟩ := Ends.liftThen_iff.mp hdelete
  obtain ⟨r, hrest, hok⟩ := Ends.of_iff.mp hrest
  obtain rfl : r = .ok () := by
    cases r with
    | ok _ => rfl
    | error err => simp [Except.mapError] at hok
  generalize hy : (⟨S.world 0, T'.past k⟩ : Moment) = y at hrest
  obtain ⟨z, s, r, w, -, hv⟩ := removeDirectory_missed hrest
  obtain ⟨rfl, -⟩ := List.cons.inj (ht.past.symm.trans (congrArg Moment.past hy))
  obtain ⟨w', hexec, hfiles⟩ := ht.exec
  obtain ⟨hcalm, hserves⟩ := h.calm hT k
  obtain rfl : (errand k).engine = e := by rw [hk]; rfl
  have hbare := (bare_of_vacates hcalm hserves hexec hv).1 []
  rwa [List.append_nil, ← hfiles] at hbare

theorem misses (hT : S.Reaches m T) (hnone : T.files.get? (E.cache.entry v.identity) = none)
    (hpast : T.past j = []) (hj : errand j = .visit e v) (hv : v.isEvaluation = true) (ht : T.Takes m j t T') :
    ∃ p, v.Misses p ∧ T'.program j = (do return .visited (← p)) := by
  have hran := h.opens.ran hT j
  rw [hpast] at hran
  obtain ⟨next, hprogram, hmiss⟩ := visit_lists (e := e) hv
  have hstart : T.program j = .step (.list (e.cache.entryDirectory v.identity))
      fun r => next r >>= fun r => pure (.visited r) := by
    generalize T.program j = q at hran
    cases hran
    rw [hj, Errand.program, hprogram]
    rfl
  obtain ⟨hcalm, hserves⟩ := h.calm hT j
  obtain rfl : (errand j).engine = e := by rw [hj]; rfl
  obtain ⟨err, herr⟩ := list_of_absent hcalm hserves hnone
  obtain ⟨s, r⟩ := t
  cases ht with
  | mk hi hprogram' hr =>
    obtain ⟨rfl, hnext⟩ := Program.step.inj (hstart.symm.trans hprogram')
    obtain rfl := eq_of_heq hnext
    obtain ⟨rfl, -⟩ := Prod.mk.inj (Option.some.inj hr)
    refine ⟨_, hmiss err, ?_⟩
    rw [Scene.after_program_self, herr]

end Evaluations

section Builds

variable {P P' F : Scene ι Errand.Result} {e : Engine} {v : Visit} {source : String} {out : Compiled} {post : Taken}

theorem published (hT : S.Reaches m T) (hk : errand k = .compile e id source)
    (hd : T.program k = .done (.compiled (.ok out))) (hc : out.cached = false) : ∃ n P P' post,
      S.Reaches m P ∧ P.Takes m k post P' ∧ P'.Reaches m T ∧
      P.Posts E errand (fun p => (S.worlds p).environment) k id n post := by
  obtain ⟨-, hkept, hprocess⟩ := h.known hT
  have hsafe := hkept.drafting k
  rw [hd, Rules.Safe.done_iff] at hsafe
  obtain ⟨d, htrail, hposted⟩ := hsafe _ rfl
  obtain ⟨s, n, rfl⟩ := hposted out rfl hc
  obtain ⟨later, earlier, hpast, hfilled⟩ := Draft.Trail.posted htrail rfl
  rw [Scene.moment_past] at hpast
  obtain ⟨P, P', hP, rfl, htakes, hP'⟩ := hT.took_past (h.unbegun k) hpast
  have hid : (errand k).identity = id := by rw [hk]; rfl
  refine ⟨n, P, P', _, hP, htakes, hP', hid, s, ?_, ?_⟩
  · rwa [(h.known hP).2.2, ← hprocess]
  · rw [(h.known hP).2.2, ← hprocess, hid]

theorem unbuilt (hT : S.Reaches m T) (hP : T.Reaches m P) (ht : P.Takes m k post P') (hF : P'.Reaches m F)
    (hposts : P.Posts E errand (fun p => (S.worlds p).environment) k id n post) (hnovel : S.Novel E F k id n) :
    T.files.get? (E.cache.entry id ++ [n]) = none := by
  have hn := hposts.built.1
  obtain ⟨hid, s, htrail, -⟩ := hposts
  by_contra hne
  obtain hne | ⟨U, U', i, t, hU, htakes, hU', hposts⟩ := h.origin hT hn hne
  · exact hne hnovel.entry
  · obtain ⟨-, u, hu, hbuilds⟩ := hposts.built
    obtain ⟨-, s', -, rfl⟩ := hposts
    have hreach : U.Reaches m F := .head htakes.moves (hU'.trans (hP.trans (.head ht.moves hF)))
    obtain rfl := hnovel.builds i ⟨u, (hreach.past_suffix i).subset hu, hbuilds⟩
    have hmem := (Scene.Reaches.past_suffix (hU'.trans hP) i).subset (htakes.past ▸ List.mem_cons_self)
    exact htrail.unposted (by simp) _ hmem ⟨_, rfl⟩

theorem loads (hr : S.Reaches m F) {number : Nat} {key : String} {p : Path}
    {r : (Step.getOrLoad number key p).Reply} (hmem : ⟨.getOrLoad number key p, r⟩ ∈ F.past i) :
    ∃ v, errand i = .visit (errand i).engine v ∧ v.isEvaluation = true := by
  by_contra hnone
  have hcredible : ∀ t ∈ F.past i, t.step.Credible (S.worlds (S.process i)).environment t.reply := by
    intro t ht
    obtain ⟨past, before, hsplit⟩ := List.append_of_mem ht
    obtain ⟨T, T', hT, -, htakes, -⟩ := hr.took_past (h.unbegun i) hsplit
    obtain ⟨w, hexec, -⟩ := htakes.exec
    obtain ⟨hg, -, hprocess⟩ := h.known hT
    have hreply := credible_of_exec (hg.calm.calm _).sound.cache.wellFormed hexec
    rwa [hg.calm.environment, hprocess] at hreply
  have honly := Errand.program_loads (h.settled i) fun e v hi => by
    by_contra hv
    exact hnone ⟨v, by rw [hi]; rfl, by simpa using hv⟩
  exact (honly.ran (h.opens.ran hr i) hcredible).2 _ hmem _ _ _ rfl

theorem unloaded (hP : S.Reaches m P) (ht : P.Takes m k post P') (hF : P'.Reaches m F)
    (hposts : P.Posts E errand (fun p => (S.worlds p).environment) k id n post) (hnovel : S.Novel E F k id n)
    {p number : Nat} {a : LoadedModule} (ha : ((P'.worlds p).registry number).get? id.key = some a) :
    a.path.fileName? ≠ some n := by
  intro hname
  have hout : post.step.isOutside = true := by
    obtain ⟨-, s, -, rfl⟩ := hposts
    rfl
  rw [ht.registry hout] at ha
  rcases hP.fetched ha with hfirst | ⟨T, T', i, hT, htakes, hT', -⟩
  · exact hnovel.tables _ _ _ hfirst hname
  · have hTP : T.Reaches m P := .head htakes.moves hT'
    obtain ⟨v, hi, hv⟩ := h.loads (hT.tail htakes.moves) (htakes.past ▸ List.mem_cons_self)
    have hsplit : T'.past i = [] ++ _ :: T.past i := htakes.past
    obtain ⟨-, hkey, hfound⟩ := h.seeks (hT.tail htakes.moves) hi hv hsplit
    obtain rfl := ModelIdentity.key_injective hkey
    obtain ⟨name, es, U, U', hU, -, hlist, hU', -, hmem, -, hpath⟩ := h.found .refl hT (h.unbegun i) hfound
    rw [hpath] at hname
    obtain rfl := Option.some.inj ((Path.fileName?_joins _ [] name).symm.trans hname)
    obtain ⟨hcalm, hserves⟩ := h.calm hU i
    exact (reached_of_names hcalm hserves hmem).mem_names.mp hmem
      (h.unbuilt hU (.head hlist.moves (hU'.trans hTP)) ht hF hposts hnovel)

section Since

variable (hP : S.Reaches m P) (ht : P.Takes m k post P') (hT : P'.Reaches m T) (hF : T.Reaches m F)
  (hposts : P.Posts E errand (fun p => (S.worlds p).environment) k id n post)
  (hquiet : P'.Without (fun i t => t.step.Disturbs E (S.worlds (S.process i)).environment id) F)
  (hpast : T.past j = []) (hj : errand j = .visit e v) (hv : v.isEvaluation = true) (hid : v.identity = id)
include hP ht hT hposts hquiet

theorem remains {U : Scene ι Errand.Result} (hU : T.Reaches m U) (hU' : U.Reaches m F) :
    U.files.get? (E.cache.entry id ++ [n]) ≠ none := by
  have hn := hposts.built.1
  have hstands := h.stands (hP.tail ht.moves) (hT.trans hU) (hquiet.split (hT.trans hU) hU').1 hn
  exact fun hnone => h.brings hP ht hposts (hstands.eq_none_iff.mp hnone)

include hF hpast hj hv hid

theorem given (hnovel : S.Novel E F k id n) {p : Path} {r : Except ModuleError LoadedModule}
    (hg : ⟨.getOrLoad e.registry id.key p, r⟩ ∈ F.past j) : p = (e.cache.entryDirectory id).join n ∧
      ∀ a, r = .ok a → a.path.same p = true ∧ P'.Fetched m F (S.process j) e.registry id.key a := by
  subst hid
  have hSP := hP.tail ht.moves
  have hST := hSP.trans hT
  obtain rfl : (errand j).engine = e := by rw [hj]; rfl
  obtain ⟨past, before, hsplit⟩ := List.append_of_mem hg
  obtain ⟨-, -, hfound⟩ := h.seeks (hST.trans hF) hj hv hsplit
  obtain ⟨U, U', hU, rfl, htakes, hU'⟩ := hF.took_past hpast hsplit
  obtain ⟨name, es, V, V', hV, -, hlist, hV', hname, hmem, -, rfl⟩ := h.found hST hU hpast hfound
  have hstart : P'.past j = [] := List.suffix_nil.mp (hpast ▸ hT.past_suffix j)
  have hn : name = n := by
    obtain ⟨hcalm, hserves⟩ := h.calm (hST.trans hV) j
    exact (h.known (hST.trans hV)).2.1.tidy.single _ _ _ hname hposts.built.1
      ((reached_of_names hcalm hserves hmem).mem_names.mp hmem)
      (h.remains hP ht hT hposts hquiet hV (.head hlist.moves (hV'.trans (.head htakes.moves hU'))))
  subst hn
  refine ⟨rfl, ?_⟩
  rintro a rfl
  obtain ⟨hsame, horigin⟩ := Scene.Reaches.given (hT.trans hF) hstart hg
  rw [(h.known hSP).2.2] at horigin
  refine ⟨hsame, horigin.resolve_left fun htable => ?_⟩
  refine h.unloaded hP ht (hT.trans hF) hposts hnovel htable ?_
  rw [Path.fileName?, Path.same_iff.mp hsame]
  exact Path.fileName?_joins _ [] name

theorem asks (hshort : Tree.Short ((e.cache.entryDirectory id).join n)) {r : Errand.Result}
    (hd : F.program j = .done r) : e.Asked id (F.past j) := by
  subst hid
  have hST := (hP.tail ht.moves).trans hT
  obtain rfl : (errand j).engine = e := by rw [hj]; rfl
  have hn := hposts.built.1
  have hthere {t : Taken} (hmem : t ∈ F.past j) : ∃ U U', T.Reaches m U ∧
      U.Takes m j t U' ∧ Reached E.cache (errand j).engine.cache v.identity (U.world (U.process j)) ∧
      U.files.get? (E.cache.entry v.identity ++ [n]) ≠ none ∧ E.Tidy U.files := by
    obtain ⟨past, before, hsplit⟩ := List.append_of_mem hmem
    obtain ⟨U, U', hU, -, htakes, hU'⟩ := hF.took_past hpast hsplit
    have hne := h.remains hP ht hT hposts hquiet hU (.head htakes.moves hU')
    obtain ⟨hcalm, hserves⟩ := h.calm (hST.trans hU) j
    exact ⟨U, U', hU, htakes, reached_of_get? hcalm hserves hne hshort, hne, (h.known (hST.trans hU)).2.1.tidy⟩
  refine (h.concluded (hST.trans hF) hj hv hd).2.resolve_left ?_
  rintro (⟨err, hlist⟩ | ⟨es, ⟨later, hlisted⟩, hsaw⟩)
  · obtain ⟨U, U', -, htakes, hreached, -⟩ := hthere hlist
    obtain ⟨w, hexec, -⟩ := htakes.exec
    simpa using hreached.list.symm.trans (Prod.mk.inj (Option.some.inj hexec)).1
  · obtain ⟨U, U', -, htakes, hreached, hne, -⟩ := hthere (hlisted ▸ List.mem_append_right _ List.mem_cons_self)
    obtain ⟨w, hexec, -⟩ := htakes.exec
    have hmem : n ∈ es.map (·.name) := by
      have hnames := hreached.mem_names.mpr hne
      rwa [World.names, (Prod.mk.inj (Option.some.inj hexec)).1] at hnames
    obtain ⟨r, hstat, hfile⟩ := hsaw n hmem hn
    obtain ⟨V, V', -, htakes', hreached', hne', htidy⟩ := hthere hstat
    obtain ⟨w', hexec', -⟩ := htakes'.exec
    obtain ⟨number, c, x, hnode⟩ := (htidy.files _ n (.entry v.identity) hn).resolve_left hne'
    have hseen := (hreached'.stat_iff (ModuleFile.plain_of_isName hn)).mpr ⟨hshort, hnode⟩
    obtain rfl : r = _ := (Prod.mk.inj (Option.some.inj hexec')).1.symm.trans hseen
    simp [Except.toOption, Node.isFile] at hfile

end Since

end Builds

end Estate.Bears

/-- However compiles, removals, drops and evaluations are interleaved, an evaluation runs a module that was
loaded from the path of the module of the entry at the time at which it listed that. So it finds nothing
after a removal, until something is published; and after a compile that has built a module it runs that,
until the entry is disturbed. -/
theorem Scene.no_stale_module (h : E.Bears m S errand) :
    (∀ F i e v a, S.Reaches m F → errand i = .visit e v → v.isEvaluation = true → F.Runs i a →
      ∃ p, S.Finds m F i e v.identity p ∧ a.path.same p = true ∧
        (((S.worlds (S.process i)).registry e.registry).get? v.identity.key = some a ∨
          S.Fetched m F (S.process i) e.registry v.identity.key a)) ∧
    (∀ T₀ T₁ T T' k j t t' e e' v, S.Reaches m T₀ → T₀.Takes m k t T₁ →
      errand k = .visit e (.delete v.identity) → T₁.program k = .done (.visited (.deleted (.ok ()))) →
      T₁.Reaches m T → T₁.Without (fun i t => t.Publishes (errand i).engine.cache v.identity) T →
      errand j = .visit e' v → v.isEvaluation = true → T.past j = [] → T.Takes m j t' T' →
      ∃ p, v.Misses p ∧ T'.program j = (do return .visited (← p))) ∧
    ∀ T k e id source out, S.Reaches m T → errand k = .compile e id source →
      T.program k = .done (.compiled (.ok out)) → out.cached = false →
      ∃ n P P' post, S.Reaches m P ∧ P.Takes m k post P' ∧ P'.Reaches m T ∧ post.Publishes e.cache id ∧
        (∃ u ∈ P.past k, u.Builds id n) ∧
        ∀ F j e' v, T.Reaches m F →
          P'.Without (fun i t => t.step.Disturbs E (S.worlds (S.process i)).environment id) F →
          S.Novel E F k id n → errand j = .visit e' v → v.isEvaluation = true → v.identity = id →
          T.past j = [] → P'.Renewed m E F j e' id n := by
  refine ⟨fun F i e v a hr hi hv ha => h.current hr hi hv ha, ?_, ?_⟩
  · intro T₀ T₁ T T' k j t t' e e' v hT₀ ht hk hd hT hpub hj hv hpast ht'
    have hnone := h.absent (hT₀.tail ht.moves) hT hpub (h.gone hT₀ ht hk hd)
    exact h.misses ((hT₀.tail ht.moves).trans hT) hnone hpast hj hv ht'
  · intro T k e id source out hT hk hd hc
    obtain ⟨n, P, P', post, hP, ht, hT, hposts⟩ := h.published hT hk hd hc
    obtain ⟨hn, hbuilt⟩ := hposts.built
    refine ⟨n, P, P', post, hP, ht, hT, ?_, hbuilt, ?_⟩
    · obtain ⟨-, s, -, rfl⟩ := hposts
      exact ⟨_, by rw [hk]; rfl⟩
    · intro F j e' v hF hquiet hnovel hj hv hid' hpast
      refine ⟨fun U hU hU' => ?_, fun a ha => ?_, fun hshort r hr => ?_⟩
      · exact h.stands (hP.tail ht.moves) hU (hquiet.split hU hU').1 hn
      · obtain ⟨p, hp⟩ := h.asked ((hP.tail ht.moves).trans (hT.trans hF)) hj hv ha
        rw [hid'] at hp
        obtain ⟨rfl, hgiven⟩ := h.given hP ht hT hF hposts hquiet hpast hj hv hid' hnovel hp
        rw [(h.known (hP.tail ht.moves)).2.2]
        exact hgiven a rfl
      · obtain ⟨p, r', hp⟩ := h.asks hP ht hT hF hposts hquiet hpast hj hv hid' hshort hr
        obtain ⟨rfl, -⟩ := h.given hP ht hT hF hposts hquiet hpast hj hv hid' hnovel hp
        exact ⟨r', hp⟩

end Scenes

def Step.isElsewhere : Step → Bool
  | .removeFile p | .removeDirectory p => ModelIdentity.modelNamespace ∉ p.tail
  | .rename p q => ModelIdentity.modelNamespace ∉ p.tail ∧ ModelIdentity.modelNamespace ∉ q.tail
  | _ => true

theorem Step.not_disturbs {E : Estate} {env : Environment} {id : ModelIdentity} {s : Step}
    (hs : s.isElsewhere = true) : ¬s.Disturbs E env id := by
  have hpath {p : Path} (hp : ModelIdentity.modelNamespace ∉ p.tail) :
      ¬∃ l, E.Spells env.location p l ∧ E.cache.entry id <+: l := by
    rintro ⟨l, hl, rest, hrest⟩
    cases hl with
    | @cache q names hq hn hplain =>
      rw [Site.entry, List.append_assoc, List.append_cancel_left_eq] at hrest
      exact hp (List.mem_append_right _ (hrest ▸ by simp))
    | @temp k q s names hq hplain =>
      rw [Site.entry, List.append_assoc] at hrest
      exact Estate.scratch_ne ⟨k, s, names, by simp⟩ _ hrest.symm
  cases s with
  | removeFile p | removeDirectory p => exact hpath (of_decide_eq_true hs)
  | rename p q =>
    rintro ⟨l, hl | hl, hentry⟩
    · exact hpath (of_decide_eq_true hs).1 ⟨l, hl, hentry⟩
    · exact hpath (of_decide_eq_true hs).2 ⟨l, hl, hentry⟩
  | _ => exact False.elim

theorem Scene.takes_of_play {ι ρ : Type} [DecidableEq ι] {m : Machine} {S S' : Scene ι ρ} {i : ι}
    (h : S.play m [i] = some S') : ∃ t, S.Takes m i t S' := by
  simp only [play] at h
  split at h
  case h_1 => simp at h
  case h_2 s next hp =>
    split at h
    case isTrue => simp at h
    case isFalse hi =>
      split at h
      case h_1 => simp at h
      case h_2 r w hr =>
        obtain rfl := Option.some.inj h
        exact ⟨⟨s, r⟩, .mk hi hp hr⟩

def Errand.quartet (i : Fin 4) : Errand :=
  match i with
  | 0 => .compile .plain .small ""
  | 2 => .visit .plain (.delete .small)
  | _ => .visit .plain (.evaluate .small .empty .parameterCount)

def Scene.quartet : Scene (Fin 4) Errand.Result :=
  ⟨World.bare.files, [], fun _ => .bare, fun _ => 0, fun i => (Errand.quartet i).program, [], []⟩

theorem World.bare_get?_below {rest : Location} (hr : rest ≠ []) :
    World.bare.files.get? (Estate.small.cache.root ++ rest) = none :=
  World.bare_calm.sound.cache.wellFormed.get?_below_empty (by decide) hr

theorem Scene.quartet_bears : Estate.small.Bears .building quartet Errand.quartet := by
  have hnone {id : ModelIdentity} {n : String} :
      World.bare.files.get? (Estate.small.cache.entry id ++ [n]) = none := by
    rw [Site.entry, List.append_assoc]
    exact World.bare_get?_below (by simp)
  refine ⟨⟨fun _ => rfl, rfl, rfl, rfl⟩, World.bare_calm.sound, fun _ => World.bare_calm.tame, fun i => ?_,
    fun _ => Machine.building_orderly _, fun d n hd hn => ?_, fun id n n' _ _ hg _ => absurd hnone hg⟩
  · have hengine : (Errand.quartet i).engine = .plain := by
      unfold Errand.quartet
      split <;> rfl
    rw [hengine]
    exact Engine.plain_settled
  · have hbelow {rest : Location} : World.bare.files.get? (Estate.small.cache.root ++ rest ++ [n]) = none := by
      rw [List.append_assoc]
      exact World.bare_get?_below (by simp)
    cases hd with
    | entry id => exact .inl hnone
    | staged s => exact .inl hbelow
    | build s => exact .inl hbelow

def Errand.Result.isBuilt : Errand.Result → Bool
  | .compiled (.ok out) => !out.cached
  | _ => false

def Errand.Result.isDeleted : Errand.Result → Bool
  | .visited r => r.isDeleted
  | .compiled _ => false

theorem Errand.Result.of_isBuilt {p : Program Errand.Result} (h : p.ended?.any (·.isBuilt) = true) :
    ∃ out, p = .done (.compiled (.ok out)) ∧ out.cached = false := by
  obtain ⟨r, hr, hbuilt⟩ := (Option.any_eq_true _ _).mp h
  rw [Program.ended?_eq_some.mp hr]
  rcases r with (_ | out) | r
  · simp [isBuilt] at hbuilt
  · exact ⟨out, rfl, by simpa [isBuilt] using hbuilt⟩
  · simp [isBuilt] at hbuilt

theorem Errand.Result.of_isDeleted {p : Program Errand.Result} (h : p.ended?.any (·.isDeleted) = true) :
    p = .done (.visited (.deleted (.ok ()))) := by
  obtain ⟨r, hr, hdeleted⟩ := (Option.any_eq_true _ _).mp h
  rw [Program.ended?_eq_some.mp hr]
  cases r with
  | compiled => simp [isDeleted] at hdeleted
  | visited r => rw [Visit.Result.isDeleted_iff.mp hdeleted]

def Step.isRenameTo (p : Path) : Step → Bool
  | .rename _ q => q = p
  | _ => false

def Step.isBuilt : Step → Bool
  | .emit (.built ..) => true
  | _ => false

def Step.isAsk : Step → Bool
  | .ask .. => true
  | _ => false

def Scene.isQuiet (S : Scene (Fin 4) Errand.Result) (p : Path) : Bool :=
  (S.past 1).any (·.step.isAsk) && S.history.countP (fun x => x.2.step.isRenameTo p) = 1 &&
    S.history.all (fun x => x.2.step.isRenameTo p || x.2.step.isElsewhere) &&
    S.history.all fun x => x.1 = 0 || !x.2.step.isBuilt

section Quartet

variable {P F : Scene (Fin 4) Errand.Result} (h : F.isQuiet (Engine.plain.cache.entryDirectory .small) = true)
include h

theorem Scene.runs_of_isQuiet : ∃ a, F.Runs 1 a := by
  simp only [isQuiet, Bool.and_eq_true, and_assoc] at h
  obtain ⟨⟨s, r⟩, ht, hs⟩ := List.any_eq_true.mp h.1
  cases s with
  | ask a d q => exact ⟨a, d, q, r, ht⟩
  | _ => simp [Step.isAsk] at hs

theorem Scene.without_of_isQuiet {T : Scene (Fin 4) Errand.Result} {i : Fin 4} {staged : Path}
    {r : (Step.rename staged (Engine.plain.cache.entryDirectory .small)).Reply} (hpost : T.Takes .building i ⟨_, r⟩ P)
    (hP : P.Reaches .building F) :
    P.Without (fun i t => t.step.Disturbs .small (quartet.worlds (quartet.process i)).environment .small) F := by
  simp only [isQuiet, Bool.and_eq_true, decide_eq_true_eq, List.all_eq_true, and_assoc] at h
  obtain ⟨-, hcount, helsewhere, -⟩ := h
  obtain ⟨later, hlater⟩ := hP.history
  refine ⟨later, hlater, fun x hx => Step.not_disturbs ?_⟩
  have hself : (Step.rename staged (Engine.plain.cache.entryDirectory .small)).isRenameTo
      (Engine.plain.cache.entryDirectory .small) = true := by simp [Step.isRenameTo]
  rw [hlater, hpost.history, List.countP_append, List.countP_cons, if_pos hself] at hcount
  have hzero : later.countP (fun x => x.2.step.isRenameTo (Engine.plain.cache.entryDirectory .small)) = 0 := by
    omega
  have hmem := helsewhere x (hlater ▸ List.mem_append_left _ hx)
  simpa [List.countP_eq_zero.mp hzero x hx] using hmem

theorem Scene.novel_of_isQuiet (n : String) : quartet.Novel .small F 0 .small n := by
  simp only [isQuiet, Bool.and_eq_true, List.all_eq_true, and_assoc] at h
  obtain ⟨-, -, -, hone⟩ := h
  refine ⟨?_, fun p r b hb => ?_, fun i hi => ?_⟩
  · rw [Site.entry, List.append_assoc]
    exact World.bare_get?_below (by simp)
  · have hempty : (World.bare.registry r).get? ModelIdentity.small.key = none := by cases r <;> rfl
    exact absurd (hempty.symm.trans hb) (by simp)
  · obtain ⟨u, hu, file, rfl, -⟩ := hi
    obtain ⟨⟨j, u'⟩, hfilter, rfl⟩ := List.mem_map.mp hu
    obtain ⟨hmem, hj⟩ := List.mem_filter.mp hfilter
    obtain rfl : j = i := of_decide_eq_true hj
    simpa [Step.isBuilt] using hone _ hmem

end Quartet

theorem Scene.quartet_plays : ∃ T F T₀ T₁ G : Scene (Fin 4) Errand.Result, ∃ out t₁ t,
    quartet.Reaches .building T ∧ T.program 0 = .done (.compiled (.ok out)) ∧ out.cached = false ∧ T.past 1 = [] ∧
    T.Reaches .building F ∧ F.isQuiet (Engine.plain.cache.entryDirectory .small) = true ∧
    F.Reaches .building T₀ ∧ T₀.Takes .building 2 t₁ T₁ ∧ T₁.program 2 = .done (.visited (.deleted (.ok ()))) ∧
    T₁.past 3 = [] ∧ T₁.Takes .building 3 t G := by
  have hplay : ((quartet.play .building (.replicate 75 0)).any fun T =>
      (T.program 0).ended?.any (·.isBuilt) && (T.past 1).isEmpty &&
      (T.play .building (.replicate 6 1)).any fun F => F.isQuiet (Engine.plain.cache.entryDirectory .small) &&
      (F.play .building (.replicate 7 2)).any fun T₀ => (T₀.play .building [2]).any fun T₁ =>
      (T₁.program 2).ended?.any (·.isDeleted) && (T₁.past 3).isEmpty && (T₁.play .building [3]).isSome) = true := by
    decide +kernel
  obtain ⟨T, hT, h⟩ := (Option.any_eq_true _ _).mp hplay
  simp only [Bool.and_eq_true, List.isEmpty_iff] at h
  obtain ⟨⟨hcompiled, hpast⟩, h⟩ := h
  obtain ⟨F, hF, h⟩ := (Option.any_eq_true _ _).mp h
  simp only [Bool.and_eq_true] at h
  obtain ⟨hquiet, h⟩ := h
  obtain ⟨T₀, hT₀, h⟩ := (Option.any_eq_true _ _).mp h
  obtain ⟨T₁, hT₁, h⟩ := (Option.any_eq_true _ _).mp h
  simp only [Bool.and_eq_true, List.isEmpty_iff] at h
  obtain ⟨⟨hdeleted, hstart⟩, h⟩ := h
  obtain ⟨G, hG⟩ := Option.isSome_iff_exists.mp h
  obtain ⟨out, hout, hbuilt⟩ := Errand.Result.of_isBuilt hcompiled
  obtain ⟨t₁, htakes⟩ := takes_of_play hT₁
  obtain ⟨t, htakes'⟩ := takes_of_play hG
  exact ⟨T, F, T₀, T₁, G, out, t₁, t, reaches_of_play hT, hout, hbuilt, hpast, reaches_of_play hF, hquiet,
    reaches_of_play hT₀, htakes, Errand.Result.of_isDeleted hdeleted, hstart, htakes'⟩

/-- The first evaluation runs the module that was built, the second one finds nothing. -/
theorem Scene.quartet_no_stale_module : ∃ T F T₁ G P : Scene (Fin 4) Errand.Result, ∃ out a n t,
    quartet.Reaches .building T ∧ T.program 0 = .done (.compiled (.ok out)) ∧ out.cached = false ∧
    T.Reaches .building F ∧ F.Runs 1 a ∧
    (∃ p, quartet.Finds .building F 1 .plain .small p ∧ a.path.same p = true) ∧
    P.Renewed .building .small F 1 .plain .small n ∧
    F.Reaches .building T₁ ∧ T₁.program 2 = .done (.visited (.deleted (.ok ()))) ∧ T₁.Takes .building 3 t G ∧
    ∃ p, (Visit.evaluate .small .empty .parameterCount).Misses p ∧ G.program 3 = (do return .visited (← p)) := by
  obtain ⟨T, F, T₀, T₁, G, out, t₁, t, hT, hout, hbuilt, hpast, hF, hquiet, hT₀, htakes, hgone, hstart, htakes'⟩ :=
    quartet_plays
  obtain ⟨a, ha⟩ := runs_of_isQuiet hquiet
  obtain ⟨hcurrent, hmisses, hrenewed⟩ := no_stale_module quartet_bears
  obtain ⟨p, hfinds, hsame, -⟩ := hcurrent F 1 .plain _ a (hT.trans hF) rfl rfl ha
  obtain ⟨q, hmiss, hprogram⟩ := hmisses T₀ T₁ T₁ G 2 3 t₁ t .plain .plain _ ((hT.trans hF).trans hT₀) htakes rfl
    hgone .refl .refl rfl rfl hstart htakes'
  obtain ⟨n, P, P', post, hP, hpost, hP', ⟨staged, rfl⟩, -, hrenewed⟩ :=
    hrenewed T 0 .plain .small "" out hT rfl hout hbuilt
  exact ⟨T, F, T₁, G, P', out, a, n, t, hT, hout, hbuilt, hF, ha, ⟨p, hfinds, hsame⟩,
    hrenewed F 1 .plain _ hF (without_of_isQuiet hquiet hpost (hP'.trans hF)) (novel_of_isQuiet hquiet n) rfl rfl rfl
      hpast, hT₀.tail htakes.moves, hgone, htakes', q, hmiss, hprogram⟩

end CompiledModels
