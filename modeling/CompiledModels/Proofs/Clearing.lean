import CompiledModels.Proofs.Scene
import CompiledModels.Proofs.Publication

/-!
Publishing an entry while others are at work. Those who keep out of the directory in which it is put
together cannot spoil it; who clears the cache does not keep out.
-/

namespace CompiledModels

open Files Program

variable {R : Rules} {m : Machine} {S : Site} {c : Cache} {id : ModelIdentity} {module : Path}
  {name output warnings : String} {manifest : Manifest} {content : Content} {executable : Bool}
  {place : Location} {number : Nat} {x : Moment}

def Taken.arrives (p : Path) : Taken → Bool
  | ⟨.rename _ q, r⟩ => q = p && r.isOk
  | _ => false

def PutsWhole (S : Site) (c : Cache) (id : ModelIdentity) (files : List (String × Content × Bool))
    (x y : Moment) : Prop :=
  ∀ a, y.past = ⟨.rename a (c.entryDirectory id), .ok ()⟩ :: x.past → y.files.Folder (S.entry id) files

theorem Publishing.putsWhole {texts : List (String × String)} {Z : Location → Prop} {y : Moment}
    (h : Publishing (parcel name content executable texts) (c.entryDirectory id) (S.entry id) Z x y) :
    PutsWhole S c id (entryFiles name content executable texts) x y := by
  intro a ha
  cases h with
  | other h =>
    obtain ⟨s, hs, hto, -⟩ := h.taken
    exact absurd (List.cons.inj (hs.symm.trans ha)).1 (hto a)
  | aside b hb hp =>
    have hstep := congrArg Taken.step (List.cons.inj (hp.symm.trans ha)).1
    exact absurd (Step.rename.inj hstep).2 hb
  | publish _ _ _ _ _ hd =>
    obtain ⟨_, _, ⟨rfl, rfl⟩, hf⟩ := hd
    exact hf

/-- Where others leave alone the directory in which an entry is put together, and the file of the
module, what is moved to the place of the entry is the whole entry, and `store` answers that it is
there only if it was moved there. -/
theorem store_whole (hR : Sheltered R m S id False False)
    (h : Publishable S c module name content executable x.world)
    (hl : x.world.files.resolve x.world.directory false module = .ok place)
    (hfile : x.world.files.get? place = some (.file number content executable))
    (hout : ¬S.models <+: place)
    (hstay : R.Stable (Found x.world.environment module place (.file number content executable)))
    (ha : ¬Arrived (c.entryDirectory id) x.past) :
    (R.keeping (PutsWhole S c id
        (entryFiles name content executable (Cache.texts output warnings manifest)))).Safe
      (fun r y => (∃ file, r = .ok file) → Arrived (c.entryDirectory id) y.past)
      (c.store id module output warnings manifest).run x := by
  obtain ⟨hapart, hstaging⟩ := h.place_ne hfile
  obtain ⟨hleads, hthere⟩ := Publishable.found hl hfile
  have hsafe := store_stored (d := parcel name content executable (Cache.texts output warnings manifest))
    (P := fun _ => True) (J := fun _ _ => True) (x := x) hR h.serves (.found hstay) hapart hstaging hout
    (h.module_ne hl hout id) (ModuleFile.plain_of_isName h.isName)
    (fun _ y hy => ⟨_, _, _, hy.there⟩) (fun _ y hy hw hn => hy.away hw hn)
    (fun _ y hy _ => hy.leads false) False.elim False.elim
    (.const True) (fun _ _ _ _ => trivial) (fun _ _ _ _ _ => trivial) (fun _ _ _ _ _ _ => trivial)
    (fun _ _ _ _ _ => trivial) h.fileName rfl (Cache.plain_texts output warnings manifest)
    (ModuleFile.nodup_of_isName h.isName output warnings manifest) ⟨h.stands, rfl⟩ h.staging
    ⟨h.models, ha, ⟨hleads, hthere⟩, fun _ => ⟨False.elim, False.elim, False.elim, False.elim⟩⟩
    trivial False.elim
  exact (hsafe.weaken fun r y hy hr => hy.1.2.1.mp hr).transfer (fun _ _ _ _ h => h)
    (fun _ _ h => h) fun _ _ h => Publishing.putsWhole h

theorem store_whole_small : (Rules.alone (Step.faulty .idle) (PutsWhole Site.top ⟨Site.path ["c"]⟩
    .small (entryFiles "stanbind_model_m_1.so" ⟨[1, 2], 0⟩ true
      (Cache.texts "built" "warned" .small)))).Safe
    (fun r y => (∃ file, r = .ok file) → Arrived (Cache.entryDirectory ⟨Site.path ["c"]⟩ .small) y.past)
    (Cache.store ⟨Site.path ["c"]⟩ .small (Site.path ["stanbind_model_m_1.so"]) "built" "warned"
      .small).run ⟨.small, []⟩ :=
  have hplace : World.small.files.resolve World.small.directory false
      (Site.path ["stanbind_model_m_1.so"]) = .ok ["stanbind_model_m_1.so"] := by decide +kernel
  have hfile : World.small.files.get? ["stanbind_model_m_1.so"] = some (.file 1 ⟨[1, 2], 0⟩ true) := rfl
  store_whole (R := .alone (Step.faulty .idle) fun _ _ => True) (x := ⟨.small, []⟩)
    (.alone (.alone (fun _ _ _ _ h => h) False.elim)) World.small_publishable hplace hfile
    (by decide) (Rules.alone_stable _ _ _) (by simp [Arrived])

/-- A caller that publishes an entry of `ModelIdentity.small`, and one in another process that clears
the cache, about to begin in `World.small`. -/
def Scene.storeAndClear : Scene Bool (Option (Except CacheError Path)) :=
  ⟨World.small.files, [], fun _ => .small, fun i => if i then 1 else 0, fun i =>
    if i then do
      let _ ← (Cache.clear ⟨Site.path ["c"]⟩).run
      return none
    else some <$> (Cache.store ⟨Site.path ["c"]⟩ .small (Site.path ["stanbind_model_m_1.so"]) "built"
      "warned" .small).run, [], []⟩

/-- That an entry was published does not mean that all of it was there at that instant: who clears
the cache removes what is not yet published, and need not have come to its end. -/
theorem Scene.cleared_in_flight : ¬∀ (S S' : Scene Bool (Option (Except CacheError Path))) t rest file,
    storeAndClear.Reaches .idle S → S.history = (false, t) :: rest →
      t.arrives (Cache.entryDirectory ⟨Site.path ["c"]⟩ .small) = true → S.Reaches .idle S' →
      S'.program false = .done (some (.ok file)) →
      S.files.Folder (Site.top.entry .small) (entryFiles "stanbind_model_m_1.so" ⟨[1, 2], 0⟩ true
        (Cache.texts "built" "warned" .small)) := by
  intro hall
  obtain ⟨S, hS, h⟩ := exists_of_play (m := .idle) (S := storeAndClear)
    (List.replicate 8 false ++ List.replicate 11 true ++ List.replicate 3 false)
    (fun S => (S.history.head?.any fun h =>
        h.1 == false && h.2.arrives (Cache.entryDirectory ⟨Site.path ["c"]⟩ .small)) &&
      (S.files.get? (Site.top.entry .small ++ [Cache.buildOutputFile])).isNone &&
      (S.play .idle [false]).any fun S' => ((S'.program false).ended?.bind id).any (·.isOk))
    (by decide +kernel)
  simp only [Bool.and_eq_true, Option.isNone_iff_eq_none] at h
  obtain ⟨⟨hhead, hnone⟩, hplay⟩ := h
  obtain ⟨S', hS', hdone⟩ := exists_of_play _ _ hplay
  obtain ⟨r, hr, hok⟩ := (Option.any_eq_true _ _).mp hdone
  obtain ⟨o, ho, rfl⟩ := Option.bind_eq_some_iff.mp hr
  rw [Program.ended?_eq_some] at ho
  obtain ⟨u, hu, harrives⟩ := (Option.any_eq_true _ _).mp hhead
  obtain ⟨rest, hrest⟩ := List.head?_eq_some_iff.mp hu
  obtain ⟨i, t⟩ := u
  simp only [Bool.and_eq_true, beq_iff_eq] at harrives
  obtain ⟨rfl, harrives⟩ := harrives
  cases r with
  | error e => simp [Except.isOk, Except.toBool] at hok
  | ok file =>
    have hf := hall S S' t rest file hS hrest harrives hS' ho
    obtain ⟨number, hget⟩ := hf.files (textFile (Cache.buildOutputFile, "built"))
      (by simp [entryFiles, Cache.texts])
    exact absurd (hnone.symm.trans hget) (by simp)

end CompiledModels
