import CompiledModels.Proofs.Containment

/-!
Calls of a table of loaded modules, one after the other: which module each identity has, when one
is loaded, and what each call answers.
-/

namespace CompiledModels

open Files

/-- A call of a table of loaded modules, with its answer. -/
inductive Turn
  | getOrLoad (id : ModelIdentity) (p : Path) (r : Except ModuleError LoadedModule)
  | get (id : ModelIdentity) (r : Option LoadedModule)
  | invalidate (id : ModelIdentity) (r : Bool)

namespace Turn

def taken (n : Nat) : Turn → Taken
  | getOrLoad id p r => ⟨.getOrLoad n id.key p, r⟩
  | get id r => ⟨.lookUp n id.key, r⟩
  | invalidate id r => ⟨.invalidate n id.key, r⟩

def identity : Turn → ModelIdentity
  | getOrLoad id _ _ | get id _ | invalidate id _ => id

def leaves (T : ModelIdentity → Option LoadedModule) : Turn → ModelIdentity → Option LoadedModule
  | getOrLoad id _ (.ok a) => Function.update T id (some a)
  | getOrLoad _ _ (.error _) => T
  | get _ _ => T
  | invalidate id _ => Function.update T id none

end Turn

def handles : List Turn → ModelIdentity → Option LoadedModule
  | [] => fun _ => none
  | t :: past => t.leaves (handles past)

/-- The table has one entry for each identity that has a module, and no other entries. -/
structure Registry.Holds (r : Registry) (T : ModelIdentity → Option LoadedModule) : Prop where
  keys : (r.modules.map (·.1)).Nodup
  mem : ∀ key a, (key, a) ∈ r.modules ↔ ∃ id, key = ModelIdentity.key id ∧ T id = some a

namespace Registry.Holds

variable {r : Registry} {T : ModelIdentity → Option LoadedModule} {id : ModelIdentity}

theorem empty : Registry.empty.Holds fun _ => none := ⟨List.nodup_nil, fun key a => by simp [Registry.empty]⟩

theorem get? (h : r.Holds T) (id : ModelIdentity) : r.get? id.key = T id := by
  refine Option.ext fun a => ?_
  rw [Registry.get?, Tree.find?_eq_some_iff h.keys, h.mem]
  constructor
  · rintro ⟨id', hkey, ha⟩
    rwa [ModelIdentity.key_injective hkey]
  · exact fun ha => ⟨id, rfl, ha⟩

theorem erase (h : r.Holds T) (id : ModelIdentity) :
    (r.erase id.key).Holds (Function.update T id none) := by
  refine ⟨h.keys.sublist (List.filter_sublist.map _), fun key a => ?_⟩
  simp only [Registry.erase, List.mem_filter, decide_eq_true_eq, h.mem]
  constructor
  · rintro ⟨⟨id', rfl, ha⟩, hne⟩
    exact ⟨id', rfl, by rwa [Function.update_of_ne fun he => hne (by rw [he])]⟩
  · rintro ⟨id', rfl, ha⟩
    by_cases hid : id' = id
    · simp [hid] at ha
    · exact ⟨⟨id', rfl, by rwa [Function.update_of_ne hid] at ha⟩,
        fun hkey => hid (ModelIdentity.key_injective hkey)⟩

theorem insert (h : r.Holds T) (id : ModelIdentity) (a : LoadedModule) :
    (r.insert id.key a).Holds (Function.update T id (some a)) := by
  have he := h.erase id
  have hmodules : (r.insert id.key a).modules = (r.erase id.key).modules ++ [(id.key, a)] := rfl
  have hnew : ∀ b, (id.key, b) ∉ (r.erase id.key).modules := by simp [Registry.erase]
  refine ⟨?_, fun key b => ?_⟩
  · rw [hmodules, List.map_append, List.map_singleton, ← List.concat_eq_append, List.nodup_concat]
    refine ⟨fun hmem => ?_, he.keys⟩
    obtain ⟨⟨key, b⟩, hb, rfl⟩ := List.mem_map.mp hmem
    exact hnew b hb
  · rw [hmodules, List.mem_append, List.mem_singleton, he.mem, Prod.mk.injEq]
    constructor
    · rintro (⟨id', rfl, hb⟩ | ⟨rfl, rfl⟩)
      · by_cases hid : id' = id
        · simp [hid] at hb
        · exact ⟨id', rfl, by rwa [Function.update_of_ne hid] at hb ⊢⟩
      · exact ⟨id, rfl, by simp⟩
    · rintro ⟨id', rfl, hb⟩
      by_cases hid : id' = id
      · subst hid
        exact .inr ⟨rfl, by simpa using hb.symm⟩
      · exact .inl ⟨id', rfl, by rwa [Function.update_of_ne hid] at hb ⊢⟩

theorem size (h : r.Holds T) : ∃ ids : List ModelIdentity, ids.Nodup ∧
    (∀ id, id ∈ ids ↔ (T id).isSome = true) ∧ r.size = ids.length := by
  have hof : ∀ e ∈ r.modules, ∃ id : ModelIdentity, e.1 = id.key := fun e he =>
    ((h.mem e.1 e.2).mp he).imp fun _ hid => hid.1
  obtain ⟨ids, hids⟩ : ∃ ids : List ModelIdentity, ids.map ModelIdentity.key = r.modules.map (·.1) := by
    generalize r.modules = es at hof
    induction es with
    | nil => exact ⟨[], rfl⟩
    | cons e es ih =>
      obtain ⟨ids, hids⟩ := ih fun e he => hof e (List.mem_cons_of_mem _ he)
      obtain ⟨id, hid⟩ := hof e List.mem_cons_self
      exact ⟨id :: ids, by simp [hids, hid]⟩
  have hmem (id : ModelIdentity) : id ∈ ids ↔ id.key ∈ r.modules.map (·.1) := by
    rw [← hids, List.mem_map]
    exact ⟨fun hid => ⟨id, hid, rfl⟩, fun ⟨id', hid, hkey⟩ => ModelIdentity.key_injective hkey ▸ hid⟩
  refine ⟨ids, .of_map _ (hids ▸ h.keys), fun id => ?_, ?_⟩
  · rw [hmem, List.mem_map, Option.isSome_iff_exists]
    constructor
    · rintro ⟨⟨key, a⟩, ha, hkey⟩
      obtain rfl : key = id.key := hkey
      exact ⟨a, by rw [← h.get? id, Registry.get?, (Tree.find?_eq_some_iff h.keys).mpr ha]⟩
    · rintro ⟨a, ha⟩
      exact ⟨(id.key, a), (h.mem _ _).mpr ⟨id, rfl, ha⟩, rfl⟩
  · rw [Registry.size, ← List.length_map (·.1), ← hids, List.length_map]

end Registry.Holds

/-- A table was empty and has been called since, each time with whatever machine to load modules,
while the rest of the world changed at will. -/
inductive Served (n : Nat) : List Turn → World → Prop
  | start {w : World} (hn : n < w.registries.length) (h : w.registry n = .empty) : Served n [] w
  | elapse {past : List Turn} {w w' : World} (h : Served n past w) (hn : n < w'.registries.length)
      (hr : w'.registry n = w.registry n) (hnum : w.nextNumber ≤ w'.nextNumber) : Served n past w'
  | call {past : List Turn} {w w' : World} {m : Machine} {t : Turn} (h : Served n past w)
      (hr : (t.taken n).step.exec m w = some ((t.taken n).reply, w')) : Served n (t :: past) w'

def World.loading (w : World) : World :=
  { w with loads := w.loads + 1, nextNumber := w.nextNumber + 1 }

section Loading

variable {m : Machine} {w : World} {n : Nat} {key : String} {p : Path} {a : LoadedModule}

theorem Step.loadInto_held (h : (w.registry n).current? key p = some a) :
    Step.loadInto m w n key p = (.ok a, w.setRegistry n (w.registry n)) := by
  simp [Step.loadInto, Registry.getOrLoad, h]

theorem Step.loadInto_loaded {s : Services} (h : (w.registry n).current? key p = none)
    (hl : m.load w.environment w.files p = .ok s) :
    Step.loadInto m w n key p = (.ok ⟨w.nextNumber, p, s⟩,
      w.loading.setRegistry n ((w.registry n).insert key ⟨w.nextNumber, p, s⟩)) := by
  simp [Step.loadInto, World.loading, Registry.getOrLoad, h, hl, Bind.bind, Except.bind, pure, Except.pure]

theorem Step.loadInto_failed {err : ModuleError} (h : (w.registry n).current? key p = none)
    (hl : m.load w.environment w.files p = .error err) :
    Step.loadInto m w n key p = (.error err, w.loading) := by
  simp [Step.loadInto, World.loading, Registry.getOrLoad, h, hl, Bind.bind, Except.bind]

end Loading

theorem World.registry_setRegistry_self {w : World} {n : Nat} (hn : n < w.registries.length)
    (r : Registry) : (w.setRegistry n r).registry n = r := by
  rw [registry_setRegistry hn, if_pos rfl]

theorem World.length_setRegistry (w : World) (n : Nat) (r : Registry) :
    (w.setRegistry n r).registries.length = w.registries.length := by
  simp [setRegistry]

structure Turn.Done (n : Nat) (t : Turn) (T : ModelIdentity → Option LoadedModule) (w w' : World) :
    Prop where
  present : n < w'.registries.length
  holds : (w'.registry n).Holds (t.leaves T)
  number : w.nextNumber ≤ w'.nextNumber
  fresh : ∀ id p a, t = .getOrLoad id p (.ok a) → T id = some a ∨ a.number < w'.nextNumber

namespace Registry.Holds

variable {n : Nat} {T : ModelIdentity → Option LoadedModule} {w w' : World} {m : Machine}
  {id : ModelIdentity} {p : Path} {t : Turn}

theorem current? (h : (w.registry n).Holds T) :
    (w.registry n).current? id.key p = (T id).filter (·.path.same p) := by
  rw [Registry.current?, h.get?]

section Replies

variable {r : Except ModuleError LoadedModule} {a : LoadedModule}
  (h : (w.registry n).Holds T) (hn : n < w.registries.length)
  (hr : (Step.getOrLoad n id.key p).exec m w = some (r, w'))
include h hn hr

theorem getOrLoad_held (ha : T id = some a) (hp : a.path.same p = true) :
    r = .ok a ∧ w'.loads = w.loads ∧ w'.registry n = w.registry n := by
  have hc : (w.registry n).current? id.key p = some a := by
    rw [h.current?, ha, Option.filter_some, if_pos hp]
  obtain ⟨rfl, rfl⟩ := Prod.mk.inj ((Step.loadInto_held hc).symm.trans (Option.some.inj hr))
  exact ⟨rfl, rfl, World.registry_setRegistry_self hn _⟩

omit hn in
theorem getOrLoad_new (ha : ∀ a, T id = some a → a.path.same p = false) :
    w'.loads = w.loads + 1 ∧
      ((∃ s, m.load w.environment w.files p = .ok s ∧ r = .ok ⟨w.nextNumber, p, s⟩) ∨
        ∃ err, m.load w.environment w.files p = .error err ∧ r = .error err ∧
          w'.registry n = w.registry n) := by
  have hc : (w.registry n).current? id.key p = none := by
    rw [h.current?, Option.filter_eq_none_iff]
    exact fun a hid => by simp [ha a hid]
  cases hl : m.load w.environment w.files p with
  | ok s =>
    obtain ⟨rfl, rfl⟩ := Prod.mk.inj ((Step.loadInto_loaded hc hl).symm.trans (Option.some.inj hr))
    exact ⟨rfl, .inl ⟨s, rfl, rfl⟩⟩
  | error err =>
    obtain ⟨rfl, rfl⟩ := Prod.mk.inj ((Step.loadInto_failed hc hl).symm.trans (Option.some.inj hr))
    exact ⟨rfl, .inr ⟨err, rfl, rfl, rfl⟩⟩

theorem getOrLoad_same (hok : r = .ok a) : a.path.same p = true := by
  by_cases hheld : ∃ b, T id = some b ∧ b.path.same p = true
  · obtain ⟨b, hb, hp⟩ := hheld
    obtain rfl : a = b := by simpa [hok] using (h.getOrLoad_held hn hr hb hp).1
    exact hp
  · push Not at hheld
    obtain ⟨-, ⟨s, -, hs⟩ | ⟨err, -, herr, -⟩⟩ := h.getOrLoad_new hr fun b hb => by simpa using hheld b hb
    · obtain rfl : a = ⟨w.nextNumber, p, s⟩ := by simpa [hok] using hs
      exact Path.same_iff.mpr rfl
    · simp [hok] at herr

end Replies

theorem turn (h : (w.registry n).Holds T) (hn : n < w.registries.length)
    (hr : (t.taken n).step.exec m w = some ((t.taken n).reply, w')) : t.Done n T w w' := by
  cases t with
  | getOrLoad id p r =>
    have hr : Step.loadInto m w n id.key p = (r, w') := Option.some.inj hr
    cases hc : (w.registry n).current? id.key p with
    | some a =>
      obtain ⟨rfl, rfl⟩ := Prod.mk.inj ((Step.loadInto_held hc).symm.trans hr)
      have ha : T id = some a := by
        rw [← h.get?]
        exact (Registry.current?_eq_some hc).1
      refine ⟨by rwa [World.length_setRegistry], ?_, Nat.le_refl _, fun id' p' a' heq => .inl ?_⟩
      · rw [World.registry_setRegistry_self hn]
        simpa only [Turn.leaves, ← ha, Function.update_eq_self] using h
      · cases heq
        exact ha
    | none =>
      cases hl : m.load w.environment w.files p with
      | error err =>
        obtain ⟨rfl, rfl⟩ := Prod.mk.inj ((Step.loadInto_failed hc hl).symm.trans hr)
        exact ⟨hn, h, Nat.le_succ _, nofun⟩
      | ok s =>
        obtain ⟨rfl, rfl⟩ := Prod.mk.inj ((Step.loadInto_loaded hc hl).symm.trans hr)
        refine ⟨by rwa [World.length_setRegistry], ?_, Nat.le_succ _, fun id' p' a' heq => .inr ?_⟩
        · rw [World.registry_setRegistry_self (w := w.loading) hn]
          exact h.insert id _
        · cases heq
          exact Nat.lt_succ_self _
  | get id r =>
    obtain ⟨rfl, rfl⟩ := Prod.mk.inj (Option.some.inj hr)
    exact ⟨hn, h, Nat.le_refl _, nofun⟩
  | invalidate id r =>
    obtain ⟨rfl, rfl⟩ := Prod.mk.inj (Option.some.inj hr)
    refine ⟨by rwa [World.length_setRegistry], ?_, Nat.le_refl _, nofun⟩
    rw [World.registry_setRegistry_self hn]
    exact h.erase id

end Registry.Holds

section Histories

variable {past : List Turn} {t : Turn} {id : ModelIdentity} {p : Path} {a : LoadedModule}

theorem leaves_other (T : ModelIdentity → Option LoadedModule) (h : id ≠ t.identity) :
    t.leaves T id = T id := by
  cases t with
  | getOrLoad id' p r =>
    cases r with
    | ok a => exact Function.update_of_ne h _ _
    | error e => rfl
  | get id' r => rfl
  | invalidate id' r => exact Function.update_of_ne h _ _

theorem mem_of_handles (h : handles past id = some a) : ∃ p, .getOrLoad id p (.ok a) ∈ past := by
  induction past with
  | nil => simp [handles] at h
  | cons t past ih =>
    have hold (h : handles past id = some a) : ∃ p, .getOrLoad id p (.ok a) ∈ t :: past :=
      (ih h).imp fun p hp => List.mem_cons_of_mem _ hp
    by_cases hid : id = t.identity
    · cases t with
      | getOrLoad id' p r =>
        obtain rfl : id = id' := hid
        cases r with
        | ok b =>
          obtain rfl : b = a := by simpa [handles, Turn.leaves] using h
          exact ⟨p, List.mem_cons_self⟩
        | error e => exact hold h
      | get id' r => exact hold h
      | invalidate id' r =>
        obtain rfl : id = id' := hid
        simp [handles, Turn.leaves] at h
    · exact hold ((leaves_other _ hid).symm.trans h)

end Histories

namespace Served

variable {n : Nat} {past : List Turn} {w w' : World} {m : Machine} {id : ModelIdentity} {p : Path}

theorem kept (h : Served n past w) : n < w.registries.length ∧ (w.registry n).Holds (handles past) ∧
    ∀ id p a, .getOrLoad id p (.ok a) ∈ past → a.number < w.nextNumber := by
  induction h with
  | start hn hw => exact ⟨hn, hw ▸ .empty, fun _ _ _ h => absurd h List.not_mem_nil⟩
  | elapse _ hn hr hnum ih =>
    exact ⟨hn, hr ▸ ih.2.1, fun id p a ha => Nat.lt_of_lt_of_le (ih.2.2 id p a ha) hnum⟩
  | @call past w w' m t _ hr ih =>
    obtain ⟨hn, hholds, hnum⟩ := ih
    have hdone := hholds.turn hn hr
    refine ⟨hdone.present, hdone.holds, fun id p a ha => ?_⟩
    have hold {q : Path} (h : .getOrLoad id q (.ok a) ∈ past) : a.number < w'.nextNumber :=
      Nat.lt_of_lt_of_le (hnum id q a h) hdone.number
    rcases List.mem_cons.mp ha with ht | ha
    · rcases hdone.fresh id p a ht.symm with hheld | hlt
      · obtain ⟨q, hq⟩ := mem_of_handles hheld
        exact hold hq
      · exact hlt
    · exact hold ha

theorem same_module (h : Served n past w) {a : LoadedModule} {later earlier : List Turn}
    (hp : past = later ++ .getOrLoad id p (.ok a) :: earlier)
    (hkeep : ∀ r, .invalidate id r ∉ later)
    (hload : ∀ q b, .getOrLoad id q (.ok b) ∈ later → q.same p = true) :
    a.path.same p = true ∧ handles past id = some a ∧
      ∀ q r, .getOrLoad id q r ∈ later → q.same p = true → r = .ok a := by
  induction h generalizing later with
  | start hn hw => simp at hp
  | elapse _ _ _ _ ih => exact ih hp hkeep hload
  | @call past w w' m t h hr ih =>
    cases later with
    | nil =>
      obtain ⟨rfl, rfl⟩ := List.cons.inj hp
      exact ⟨h.kept.2.1.getOrLoad_same h.kept.1 hr rfl, by simp [handles, Turn.leaves], nofun⟩
    | cons t' later =>
      obtain ⟨rfl, hpast⟩ := List.cons.inj hp
      obtain ⟨hsame, hheld, hlater⟩ := ih hpast (fun r hr => hkeep r (List.mem_cons_of_mem _ hr))
        fun q b hb => hload q b (List.mem_cons_of_mem _ hb)
      have hnow (q : Path) (r : Except ModuleError LoadedModule) (ht : .getOrLoad id q r = t)
          (hq : q.same p = true) : r = .ok a := by
        subst ht
        refine (h.kept.2.1.getOrLoad_held h.kept.1 hr hheld ?_).1
        rw [Path.same_iff] at hsame hq ⊢
        rw [hsame, hq]
      refine ⟨hsame, ?_, fun q r hq hqp => ?_⟩
      · by_cases hid : id = t.identity
        · cases t with
          | getOrLoad id' q r =>
            obtain rfl : id = id' := hid
            cases r with
            | ok b =>
              obtain rfl : b = a := Except.ok.inj (hnow q _ rfl (hload q b List.mem_cons_self))
              simp [handles, Turn.leaves]
            | error err => exact hheld
          | get id' r => exact hheld
          | invalidate id' r =>
            obtain rfl : id = id' := hid
            exact absurd List.mem_cons_self (hkeep r)
        · exact (leaves_other _ hid).trans hheld
      · rcases List.mem_cons.mp hq with ht | hq
        · exact hnow q r ht hqp
        · exact hlater q r hq hqp

end Served

/-- The law of the table of loaded modules, after calls in any order and with any failures: each
identity has one module at most, the one that the last call for it has left; a module is loaded just
if the identity has none from the path, a module that was loaded is given out until it is dropped or
replaced, a failed load changes nothing, and the calls for one identity leave the others alone. -/
theorem table_law {n : Nat} {past : List Turn} {w : World} (h : Served n past w) :
    (w.registry n).Holds (handles past) ∧
    (∀ id p a later earlier, past = later ++ .getOrLoad id p (.ok a) :: earlier →
      (∀ r, .invalidate id r ∉ later) →
      (∀ q b, .getOrLoad id q (.ok b) ∈ later → q.same p = true) →
      a.path.same p = true ∧ handles past id = some a ∧
        ∀ q r, .getOrLoad id q r ∈ later → q.same p = true → r = .ok a) ∧
    ∀ m : Machine,
      (∃ ids : List ModelIdentity, ids.Nodup ∧ (∀ id, id ∈ ids ↔ (handles past id).isSome = true) ∧
        (Step.countModules n).exec m w = some (ids.length, w)) ∧
      (∀ t w', (Turn.taken n t).step.exec m w = some ((t.taken n).reply, w') →
        (w'.registry n).Holds (handles (t :: past)) ∧
        ∀ id, id ≠ t.identity → (w'.registry n).get? id.key = (w.registry n).get? id.key) ∧
      ∀ id : ModelIdentity,
        (Step.lookUp n id.key).exec m w = some (handles past id, w) ∧
        (∃ w', (Step.invalidate n id.key).exec m w = some ((handles past id).isSome, w') ∧
          w'.loads = w.loads) ∧
        ∀ p, ∃ r w', (Step.getOrLoad n id.key p).exec m w = some (r, w') ∧
          (∀ a, handles past id = some a → a.path.same p = true →
            r = .ok a ∧ w'.loads = w.loads ∧ w'.registry n = w.registry n) ∧
          ((∀ a, handles past id = some a → a.path.same p = false) →
            w'.loads = w.loads + 1 ∧
            ((∃ s a, m.load w.environment w.files p = .ok s ∧ r = .ok a ∧ a.path = p ∧ a.services = s ∧
                ∀ id' q b, .getOrLoad id' q (.ok b) ∈ past → b.number ≠ a.number) ∨
              ∃ err, m.load w.environment w.files p = .error err ∧ r = .error err ∧
                w'.registry n = w.registry n)) := by
  obtain ⟨hn, hholds, hnumber⟩ := h.kept
  refine ⟨hholds, fun id p a later earlier hp => h.same_module hp, fun m => ⟨?_, fun t w' hr => ?_,
    fun id => ⟨?_, ⟨w.setRegistry n ((w.registry n).erase id.key), ?_, rfl⟩, fun p => ?_⟩⟩⟩
  · obtain ⟨ids, hnodup, hmem, hsize⟩ := hholds.size
    exact ⟨ids, hnodup, hmem, by rw [Step.exec, hsize]⟩
  · have hdone := hholds.turn hn hr
    refine ⟨hdone.holds, fun id hid => ?_⟩
    rw [hdone.holds.get?, hholds.get?, leaves_other _ hid]
  · rw [Step.exec, hholds.get?]
  · rw [Step.exec, hholds.get?]
  · cases hr : Step.loadInto m w n id.key p with
    | mk r w' =>
      have hr : (Step.getOrLoad n id.key p).exec m w = some (r, w') := congrArg some hr
      refine ⟨r, w', hr, fun a ha hp => hholds.getOrLoad_held hn hr ha hp, fun ha => ?_⟩
      obtain ⟨hloads, ⟨s, hs, rfl⟩ | hfailed⟩ := hholds.getOrLoad_new hr ha
      · exact ⟨hloads, .inl ⟨s, _, hs, rfl, rfl, rfl, fun id' q b hb =>
          Nat.ne_of_lt (hnumber id' q b hb)⟩⟩
      · exact ⟨hloads, .inr hfailed⟩

def Machine.loadingOnly (p : Path) : Machine where
  start _ _ _ := .error (.os .noEntry)
  load _ _ q :=
    if q = p then .ok ⟨false, fun _ _ => (.error (.raised ""), [])⟩ else .error (.libraryLoad "")

/-- A module is loaded, and then a file that is none is asked for in vain. -/
theorem table_law_after_failure : ∃ a err w,
    Served 0 [.getOrLoad .small (Site.path ["b"]) (.error err),
      .getOrLoad .small (Site.path ["a"]) (.ok a)] w ∧
    (Step.lookUp 0 ModelIdentity.small.key).exec (.loadingOnly (Site.path ["a"])) w =
      some (some a, w) := by
  have hstart : Served 0 [] World.unloaded := .start (by decide) rfl
  obtain ⟨r, w, hr, -, hnew⟩ :=
    (((table_law hstart).2.2 (.loadingOnly (Site.path ["a"]))).2.2 .small).2.2 (Site.path ["a"])
  obtain ⟨-, ⟨s, a, -, rfl, ha, -⟩ | ⟨err, herr, -⟩⟩ := hnew nofun
  · have hfirst : Served 0 [.getOrLoad .small (Site.path ["a"]) (.ok a)] w := hstart.call hr
    have hheld : handles [.getOrLoad .small (Site.path ["a"]) (.ok a)] .small = some a := by
      simp [handles, Turn.leaves]
    obtain ⟨r, w', hr, -, hnew⟩ :=
      (((table_law hfirst).2.2 (.loadingOnly (Site.path ["a"]))).2.2 .small).2.2 (Site.path ["b"])
    have hother (b : LoadedModule)
        (hb : handles [.getOrLoad .small (Site.path ["a"]) (.ok a)] .small = some b) :
        b.path.same (Site.path ["b"]) = false := by
      obtain rfl : a = b := Option.some.inj (hheld.symm.trans hb)
      rw [ha]
      decide +kernel
    obtain ⟨-, ⟨s, b, hb, -⟩ | ⟨err, -, rfl, -⟩⟩ := hnew hother
    · simp [Machine.loadingOnly, Site.path] at hb
    · have hsecond : Served 0 [.getOrLoad .small (Site.path ["b"]) (.error err),
        .getOrLoad .small (Site.path ["a"]) (.ok a)] w' := hfirst.call hr
      have hlook := (((table_law hsecond).2.2 (.loadingOnly (Site.path ["a"]))).2.2 .small).1
      exact ⟨a, err, w', hsecond, hheld ▸ hlook⟩
  · simp [Machine.loadingOnly] at herr

end CompiledModels
