import CompiledModels.Proofs.Hit
import CompiledModels.Proofs.Table

/-!
What evaluations answer when no other call is under way, and what they leave as it was.
-/

namespace CompiledModels

open Files Program

variable {m : Machine} {w w' : World} {e e' : Engine} {id id' : ModelIdentity} {data : ModelData}
  {r : Request} {p : Path} {s : Services}

theorem ModelIdentity.key_injective {a b : ModelIdentity} (h : a.key = b.key) : a = b := by
  apply ModelIdentity.eq_of_name
  simpa only [key, String.append_right_inj] using h

def contained {α : Type} : Except EvalError α → Option (Evaluation α)
  | .ok a => some (.value a)
  | .error (.evaluation _) => some .invalid
  | .error (.notFound _) => none

namespace World

def moduleFile (w : World) (e : Engine) (id : ModelIdentity) : Option Path :=
  (Cache.greatest? (w.moduleNames (e.cache.entryDirectory id))).map (e.cache.entryDirectory id).join

/-- The services of the module of `id`: of the one that is held for its file, or else of the one that
is loaded from the file. -/
def services (w : World) (m : Machine) (e : Engine) (id : ModelIdentity) :
    Except NotFoundError Services :=
  match w.moduleFile e id with
  | none => .error (.entry id.key)
  | some p =>
    match (w.registry e.registry).current? id.key p with
    | some a => .ok a.services
    | none =>
      match m.load w.environment w.files p with
      | .ok s => .ok s
      | .error err => .error (.module id.key err.text)

def pending (w : World) (m : Machine) (e : Engine) (id : ModelIdentity) : Option (Path × Services) :=
  match w.moduleFile e id with
  | none => none
  | some p =>
    match (w.registry e.registry).current? id.key p with
    | some _ => none
    | none => (m.load w.environment w.files p).toOption.map (p, ·)

def answer (w : World) (m : Machine) (e : Engine) (id : ModelIdentity) (data : ModelData)
    (r : Request) : Except EvalError r.Answer :=
  match w.services m e id with
  | .error err => .error (.notFound err)
  | .ok s =>
    match (s.answer data r).1 with
    | .ok a => .ok a
    | .error err => .error (.evaluation ⟨id.key, r.operation, err.text⟩)

/-- Nothing changes from `w` to `w'` but that the module of `id` is loaded if it has to be. -/
structure Loading (m : Machine) (e : Engine) (id : ModelIdentity) (w w' : World) : Prop where
  files : w'.files = w.files
  environment : w'.environment = w.environment
  busy : w'.busy = w.busy
  size : w'.registries.length = w.registries.length
  tables : ∀ k ≠ e.registry, w'.registry k = w.registry k
  others : ∀ key ≠ id.key,
    (w'.registry e.registry).get? key = (w.registry e.registry).get? key
  kept : w.pending m e id = none →
    (w'.registry e.registry).get? id.key = (w.registry e.registry).get? id.key
  loaded : ∀ p s, w.pending m e id = some (p, s) →
    ∃ n, (w'.registry e.registry).get? id.key = some ⟨n, p, s⟩

theorem Loading.noting (h : w.Loading m e id w') (events : List Event) :
    w.Loading m e id (w'.noting events) :=
  ⟨h.files, h.environment, h.busy, h.size, h.tables, h.others, h.kept, h.loaded⟩

theorem moduleFile_eq_none : w.moduleFile e id = none ↔
    ¬∃ name ∈ w.names (e.cache.entryDirectory id), ModuleFile.isName name = true ∧
      w.isFile ((e.cache.entryDirectory id).join name) = true := by
  have hsome := Cache.greatest?_isSome (w.moduleNames (e.cache.entryDirectory id))
  rw [module_iff, moduleFile, Option.map_eq_none_iff, ← Option.not_isSome_iff_eq_none, hsome]
  simp

theorem services_none (h : w.moduleFile e id = none) :
    w.services m e id = .error (.entry id.key) := by
  simp only [services, h]

theorem services_held {a : LoadedModule} (h : w.moduleFile e id = some p)
    (hc : (w.registry e.registry).current? id.key p = some a) :
    w.services m e id = .ok a.services := by
  simp only [services, h, hc]

theorem services_load (h : w.moduleFile e id = some p)
    (hc : (w.registry e.registry).current? id.key p = none) :
    w.services m e id =
      (m.load w.environment w.files p).mapError fun err => .module id.key err.text := by
  simp only [services, h, hc]
  cases m.load w.environment w.files p <;> rfl

theorem services_eq_entry : w.services m e id = .error (.entry id.key) ↔ w.moduleFile e id = none := by
  refine ⟨fun hs => ?_, services_none⟩
  cases h : w.moduleFile e id with
  | none => rfl
  | some p =>
    cases hc : (w.registry e.registry).current? id.key p with
    | some a => cases hs.symm.trans (services_held h hc)
    | none =>
      rw [services_load h hc] at hs
      cases hl : m.load w.environment w.files p <;> rw [hl] at hs <;> cases hs

theorem services_eq_module : (∃ reason, w.services m e id = .error (.module id.key reason)) ↔
    ∃ p err, w.moduleFile e id = some p ∧ (w.registry e.registry).current? id.key p = none ∧
      m.load w.environment w.files p = .error err := by
  constructor
  · rintro ⟨reason, hs⟩
    cases h : w.moduleFile e id with
    | none => cases hs.symm.trans (services_none h)
    | some p =>
      cases hc : (w.registry e.registry).current? id.key p with
      | some a => cases hs.symm.trans (services_held h hc)
      | none =>
        rw [services_load h hc] at hs
        cases hl : m.load w.environment w.files p with
        | error err => exact ⟨p, err, rfl, hc, hl⟩
        | ok s =>
          rw [hl] at hs
          cases hs
  · rintro ⟨p, err, h, hc, hl⟩
    exact ⟨err.text, by rw [services_load h hc, hl]; rfl⟩

theorem answer_eq_notFound {err : NotFoundError} :
    w.answer m e id data r = .error (.notFound err) ↔ w.services m e id = .error err := by
  unfold answer
  cases w.services m e id with
  | error err' => simp
  | ok s => cases h : (s.answer data r).1 <;> simp [h]

/-- How the outcome of an evaluation comes about. -/
structure Decides (w : World) (m : Machine) (e : Engine) (id : ModelIdentity) (data : ModelData)
    (r : Request) (o : Except EvalError r.Answer) : Prop where
  entry : o = .error (.notFound (.entry id.key)) ↔
    ¬∃ name ∈ w.names (e.cache.entryDirectory id), ModuleFile.isName name = true ∧
      w.isFile ((e.cache.entryDirectory id).join name) = true
  module : (∃ reason, o = .error (.notFound (.module id.key reason))) ↔
    ∃ p err, w.moduleFile e id = some p ∧ (w.registry e.registry).current? id.key p = none ∧
      m.load w.environment w.files p = .error err
  evaluation : (∃ text, o = .error (.evaluation ⟨id.key, r.operation, text⟩)) ↔
    ∃ s err, w.services m e id = .ok s ∧ (s.answer data r).1 = .error err
  value : ∀ a, o = .ok a ↔ ∃ s, w.services m e id = .ok s ∧ (s.answer data r).1 = .ok a

theorem answer_decides : w.Decides m e id data r (w.answer m e id data r) := by
  refine ⟨?_, ?_, ?_, fun v => ?_⟩
  · rw [answer_eq_notFound, services_eq_entry, moduleFile_eq_none]
  · simp only [answer_eq_notFound]
    exact services_eq_module
  · unfold answer
    cases w.services m e id with
    | error err => simp
    | ok s => cases h : (s.answer data r).1 <;> simp [h]
  · unfold answer
    cases w.services m e id with
    | error err => simp
    | ok s => cases h : (s.answer data r).1 <;> simp [h]

namespace Loading

theorem refl (h : w.pending m e id = none) : w.Loading m e id w :=
  ⟨rfl, rfl, rfl, rfl, fun _ _ => rfl, fun _ _ => rfl, fun _ => rfl, fun p s hs => by simp [h] at hs⟩

end Loading

theorem pending_held {a : LoadedModule} (h : w.moduleFile e id = some p)
    (hc : (w.registry e.registry).current? id.key p = some a) : w.pending m e id = none := by
  simp only [pending, h, hc]

theorem pending_load (h : w.moduleFile e id = some p)
    (hc : (w.registry e.registry).current? id.key p = none) :
    w.pending m e id = (m.load w.environment w.files p).toOption.map (p, ·) := by
  simp only [pending, h, hc]

theorem pending_eq_some (h : w.pending m e id = some (p, s)) : w.moduleFile e id = some p ∧
    (w.registry e.registry).current? id.key p = none ∧ m.load w.environment w.files p = .ok s := by
  cases hfile : w.moduleFile e id with
  | none => simp [pending, hfile] at h
  | some q =>
    cases hc : (w.registry e.registry).current? id.key q with
    | some a => simp [pending_held hfile hc] at h
    | none =>
      rw [pending_load hfile hc] at h
      cases hl : m.load w.environment w.files q with
      | error err => simp [hl, Except.toOption] at h
      | ok t =>
        rw [hl] at h
        obtain ⟨rfl, rfl⟩ := Prod.mk.inj (Option.some.inj h)
        exact ⟨rfl, hc, hl⟩

theorem getOrLoad_run (hn : e.registry < w.registries.length) (h : w.moduleFile e id = some p) :
    ∃ o w', (Step.getOrLoad e.registry id.key p).exec m w = some (o, w') ∧
      (o.mapError fun err => NotFoundError.module id.key err.text).map (·.services) =
        w.services m e id ∧ w.Loading m e id w' := by
  cases hc : (w.registry e.registry).current? id.key p with
  | some a =>
    have hpending : w.pending m e id = none := pending_held h hc
    have hsame (k : Nat) : (w.setRegistry e.registry (w.registry e.registry)).registry k =
        w.registry k := by
      rw [registry_setRegistry hn]
      split
      · rw [‹k = e.registry›]
      · rfl
    refine ⟨.ok a, w.setRegistry e.registry (w.registry e.registry), ?_, (services_held h hc).symm,
      rfl, rfl, rfl, by simp [setRegistry], fun k _ => hsame k, fun _ _ => by rw [hsame], fun _ => by rw [hsame],
      fun p s hs => by simp [hpending] at hs⟩
    simp [Step.exec, Step.loadInto, Registry.getOrLoad, hc]
  | none =>
    cases hl : m.load w.environment w.files p with
    | error err =>
      have hpending : w.pending m e id = none := by
        rw [pending_load h hc, hl]
        rfl
      refine ⟨.error err, { w with loads := w.loads + 1, nextNumber := w.nextNumber + 1 }, ?_, ?_,
        rfl, rfl, rfl, rfl, fun _ _ => rfl, fun _ _ => rfl, fun _ => rfl,
        fun p s hs => by simp [hpending] at hs⟩
      · simp only [Step.exec, Step.loadInto, Registry.getOrLoad, hc, hl]
        rfl
      · rw [services_load h hc, hl]
        rfl
    | ok s =>
      have hpending : w.pending m e id = some (p, s) := by
        rw [pending_load h hc, hl]
        rfl
      let a : LoadedModule := ⟨w.nextNumber, p, s⟩
      let counted := { w with loads := w.loads + 1, nextNumber := w.nextNumber + 1 }
      have hreg (k : Nat) : (counted.setRegistry e.registry
          ((w.registry e.registry).insert id.key a)).registry k =
            if k = e.registry then (w.registry e.registry).insert id.key a else w.registry k :=
        registry_setRegistry (w := counted) hn _
      refine ⟨.ok a, counted.setRegistry e.registry ((w.registry e.registry).insert id.key a), ?_, ?_,
        rfl, rfl, rfl, by simp [setRegistry, counted], fun k hk => ?_, fun key hkey => ?_, fun hp => ?_, fun q t hq => ?_⟩
      · simp only [Step.exec, Step.loadInto, Registry.getOrLoad, hc, hl]
        rfl
      · rw [services_load h hc, hl]
        rfl
      · rw [hreg, if_neg hk]
      · rw [hreg, if_pos rfl, Registry.get?_insert, if_neg hkey]
      · simp [hpending] at hp
      · obtain ⟨rfl, rfl⟩ := Prod.mk.inj (Option.some.inj (hpending.symm.trans hq))
        exact ⟨w.nextNumber, by rw [hreg, if_pos rfl, Registry.get?_insert, if_pos rfl]⟩

end World

namespace Engine

theorem module_run (hn : e.registry < w.registries.length) (id : ModelIdentity) : ∃ o w',
    (e.module id).run.run m w = some (o, w') ∧ o.map (·.services) = w.services m e id ∧
      w.Loading m e id w' := by
  have hpath := e.cache.modulePath_sees id (m := m) (w := w)
  have hrun := hpath.lift.run_attempt (f := fun path : Option Path => (match path with
    | none => throw (.entry id.key)
    | some path => Attempt.of (perform (.getOrLoad e.registry id.key path)) fun err =>
        .module id.key err.text : Attempt NotFoundError LoadedModule))
  cases h : w.moduleFile e id with
  | none =>
    have hpending : w.pending m e id = none := by simp only [World.pending, h]
    rw [World.moduleFile] at h
    rw [h] at hrun
    exact ⟨_, w, hrun, (World.services_none h).symm, .refl hpending⟩
  | some p =>
    obtain ⟨o, w', hexec, ho, hloading⟩ := World.getOrLoad_run hn h (m := m)
    rw [World.moduleFile] at h
    rw [h] at hrun
    refine ⟨o.mapError fun err => .module id.key err.text, w', hrun.trans ?_, ho, hloading⟩
    have hstep : (perform (.getOrLoad e.registry id.key p)).run m w = some (o, w') := by
      simp only [perform, Program.run, hexec]
    refine (run_bind _ _).trans ?_
    rw [hstep]
    cases o <;> rfl

theorem call_run {a : LoadedModule} (hb : w.busy = []) : (call a data r).run m w =
    some ((a.services.answer data r).1,
      { w with journal := w.journal ++ (a.services.answer data r).2 }) := by
  have hask (w : World) : (perform (.ask a data r)).run m w = some ((a.services.answer data r).1,
      { w with journal := w.journal ++ (a.services.answer data r).2 }) := rfl
  cases h : a.services.reentrant with
  | true =>
    have henter : (perform (.enter a)).run m w = some ((), w) := by
      simp [perform, Program.run, Step.exec, h]
    have hleave (w : World) : (perform (.leave a)).run m w = some ((), w) := by
      simp [perform, Program.run, Step.exec, h]
    simp only [call, run_bind, henter, hask, hleave, Option.bind_some]
    rfl
  | false =>
    have henter : (perform (.enter a)).run m w = some ((), { w with busy := [a.number] }) := by
      simp [perform, Program.run, Step.exec, h, hb]
    have hleave (w : World) : (perform (.leave a)).run m w =
        some ((), { w with busy := w.busy.filter (· ≠ a.number) }) := by
      simp [perform, Program.run, Step.exec, h]
    simp only [call, run_bind, henter, hask, hleave, Option.bind_some]
    have hempty : [a.number].filter (· ≠ a.number) = w.busy := by simp [hb]
    rw [hempty]
    rfl

theorem evaluate_run (hn : e.registry < w.registries.length) (hb : w.busy = []) (id : ModelIdentity)
    (data : ModelData) (r : Request) : ∃ w',
      (e.evaluate id data r).run.run m w = some (w.answer m e id data r, w') ∧
        w.Loading m e id w' := by
  obtain ⟨o, w', hmodule, ho, hloading⟩ := module_run (m := m) hn id
  have hof : (Attempt.of (e.module id).run EvalError.notFound).run.run m w =
      some (o.mapError .notFound, w') := by
    refine (run_bind _ _).trans ?_
    rw [hmodule]
    cases o <;> rfl
  have hrun : (e.evaluate id data r).run.run m w = _ :=
    (run_bind _ _).trans (congrArg (fun x => Option.bind x _) hof)
  cases o with
  | error err =>
    have hanswer : w.answer m e id data r = .error (.notFound err) := World.answer_eq_notFound.mpr ho.symm
    exact ⟨w', hanswer ▸ hrun, hloading⟩
  | ok a =>
    have hcall : (call a data r).run m w' = _ := call_run (hloading.busy.trans hb)
    have hasked : (Attempt.of (call a data r) fun err => EvalError.evaluation
        ⟨id.key, r.operation, err.text⟩).run.run m w' = some ((a.services.answer data r).1.mapError
          fun err => .evaluation ⟨id.key, r.operation, err.text⟩,
          { w' with journal := w'.journal ++ (a.services.answer data r).2 }) := by
      refine (run_bind _ _).trans ?_
      rw [hcall]
      cases (a.services.answer data r).1 <;> rfl
    have hanswer : w.answer m e id data r = (a.services.answer data r).1.mapError
        fun err => .evaluation ⟨id.key, r.operation, err.text⟩ := by
      have ho : w.services m e id = .ok a.services := ho.symm
      simp only [World.answer, ho]
      cases (a.services.answer data r).1 <;> rfl
    refine ⟨{ w' with journal := w'.journal ++ (a.services.answer data r).2 }, ?_,
      ⟨hloading.files, hloading.environment, hloading.busy, hloading.size, hloading.tables, hloading.others,
        hloading.kept, hloading.loaded⟩⟩
    rw [hanswer]
    exact hrun.trans hasked

theorem evaluateContained_run (hn : e.registry < w.registries.length) (hb : w.busy = [])
    (id : ModelIdentity) (data : ModelData) (r : Request) : ∃ w',
      (e.evaluateContained id data r).run m w = some (contained (w.answer m e id data r), w') ∧
        w.Loading m e id w' := by
  obtain ⟨w', hrun, hloading⟩ := evaluate_run (m := m) hn hb id data r
  have hcontain (o : Except EvalError r.Answer) :
      ∃ events, (contain o).run m w' = some (contained o, w'.noting events) := by
    cases o with
    | ok a => exact ⟨[], by rw [World.noting_nil]; rfl⟩
    | error err => cases err <;> exact ⟨_, rfl⟩
  obtain ⟨events, hevents⟩ := hcontain (w.answer m e id data r)
  refine ⟨w'.noting events, ?_, hloading.noting events⟩
  rw [evaluateContained, run_bind, hrun]
  exact hevents

theorem value_run (hn : e.registry < w.registries.length) (hb : w.busy = []) (id : ModelIdentity)
    (data : ModelData) (r : Request) : ∃ w', (e.value? id data r).run m w =
      some ((contained (w.answer m e id data r)).bind Evaluation.value?, w') ∧
        w.Loading m e id w' := by
  obtain ⟨w', hrun, hloading⟩ := evaluateContained_run (m := m) hn hb id data r
  refine ⟨w', ?_, hloading⟩
  rw [value?, run_bind, hrun]
  rfl

end Engine

namespace World.Loading

variable (h : w.Loading m e id w')
include h

theorem moduleFile : w'.moduleFile e' id' = w.moduleFile e' id' := by
  have hdir : w'.directory = w.directory := by rw [directory, h.environment, directory]
  simp only [World.moduleFile, moduleNames, names, isFile, h.files, hdir]

theorem services_of_get? (hget : (w'.registry e'.registry).get? id'.key =
    (w.registry e'.registry).get? id'.key) : w'.services m e' id' = w.services m e' id' := by
  simp only [World.services, Registry.current?, hget, h.moduleFile, h.files, h.environment]

theorem services_self : w'.services m e id = w.services m e id := by
  cases hp : w.pending m e id with
  | none => exact h.services_of_get? (h.kept hp)
  | some q =>
    obtain ⟨p, s⟩ := q
    obtain ⟨n, hget⟩ := h.loaded p s hp
    obtain ⟨hfile, hc, hl⟩ := pending_eq_some hp
    have hheld : (w'.registry e.registry).current? id.key p = some ⟨n, p, s⟩ := by
      rw [Registry.current?, hget]
      exact Option.filter_some_pos (Path.same_iff.mpr rfl)
    rw [services_held (h.moduleFile.trans hfile) hheld, services_load hfile hc, hl]
    rfl

theorem services (he : e'.registry = e.registry → e'.cache = e.cache) (id' : ModelIdentity) :
    w'.services m e' id' = w.services m e' id' := by
  by_cases hreg : e'.registry = e.registry
  · by_cases hid : id'.key = id.key
    · have hid : id' = id := ModelIdentity.key_injective hid
      have hsame (w : World) : w.services m e' id = w.services m e id := by
        simp only [World.services, World.moduleFile, hreg, he hreg]
      rw [hid, hsame, hsame, h.services_self]
    · apply h.services_of_get?
      rw [hreg]
      exact h.others id'.key hid
  · apply h.services_of_get?
    rw [h.tables e'.registry hreg]

theorem answer (he : e'.registry = e.registry → e'.cache = e.cache) (id' : ModelIdentity)
    (data : ModelData) (r : Request) : w'.answer m e' id' data r = w.answer m e' id' data r := by
  simp only [World.answer, h.services he id']

end World.Loading

namespace Engine

/-- Each form of an evaluation comes to its end, with what it makes of the outcome `o`, in a world
with `P`. -/
structure Yields (e : Engine) (m : Machine) (w : World) (id : ModelIdentity) (data : ModelData)
    (r : Request) (o : Except EvalError r.Answer) (P : World → Prop) : Prop where
  evaluate : ∃ w', (e.evaluate id data r).run.run m w = some (o, w') ∧ P w'
  contained : ∃ w', (e.evaluateContained id data r).run m w = some (contained o, w') ∧ P w'
  value : ∃ w', (e.value? id data r).run m w = some ((CompiledModels.contained o).bind Evaluation.value?, w') ∧
    P w'

theorem yields (hn : e.registry < w.registries.length) (hb : w.busy = []) (id : ModelIdentity)
    (data : ModelData) (r : Request) :
    e.Yields m w id data r (w.answer m e id data r) (w.Loading m e id) :=
  ⟨evaluate_run hn hb id data r, evaluateContained_run hn hb id data r, value_run hn hb id data r⟩

theorem Yields.imp {o : Except EvalError r.Answer} {P Q : World → Prop}
    (h : e.Yields m w id data r o P) (hPQ : ∀ w', P w' → Q w') : e.Yields m w id data r o Q := by
  obtain ⟨⟨w₁, h₁, hP₁⟩, ⟨w₂, h₂, hP₂⟩, w₃, h₃, hP₃⟩ := h
  exact ⟨⟨w₁, h₁, hPQ w₁ hP₁⟩, ⟨w₂, h₂, hPQ w₂ hP₂⟩, w₃, h₃, hPQ w₃ hP₃⟩

/-- An evaluation fails for the reason that its outcome tells, changes nothing but that the module of
its identity is loaded, and makes no difference to any other evaluation. -/
theorem evaluation_contained (m : Machine) (hn : e.registry < w.registries.length) (hb : w.busy = [])
    (id : ModelIdentity) (data : ModelData) (r : Request) : ∃ o, w.Decides m e id data r o ∧
      e.Yields m w id data r o fun w' => w.Loading m e id w' ∧
        ∀ (e' : Engine) (id' : ModelIdentity) (data' : ModelData) (r' : Request),
          e'.registry < w.registries.length → (e'.registry = e.registry → e'.cache = e.cache) →
          ∃ o', e'.Yields m w id' data' r' o' (fun _ => True) ∧
            e'.Yields m w' id' data' r' o' fun _ => True := by
  refine ⟨w.answer m e id data r, World.answer_decides, ?_⟩
  apply (yields hn hb id data r).imp
  intro w' hloading
  refine ⟨hloading, fun e' id' data' r' hn' he => ⟨w.answer m e' id' data' r', ?_, ?_⟩⟩
  · exact (yields hn' hb id' data' r').imp fun _ _ => trivial
  · have hafter := yields (m := m) (hloading.size.symm ▸ hn') (hloading.busy.trans hb) id' data' r'
    rw [hloading.answer he] at hafter
    exact hafter.imp fun _ _ => trivial

/-- On a machine whose modules fail, the model that is not loaded is loaded, and its failure is kept
from those that come after. -/
theorem evaluation_contained_small : Engine.small.registry < World.unloaded.registries.length ∧
    ∃ o, World.unloaded.Decides .loading Engine.small .small .empty .parameterCount o ∧
      Engine.small.Yields .loading .unloaded .small .empty .parameterCount o fun w' =>
        World.unloaded.Loading .loading Engine.small .small w' ∧
        ∃ o', Engine.small.Yields .loading .unloaded .small .empty (.logDensity [] true) o'
            (fun _ => True) ∧
          Engine.small.Yields .loading w' .small .empty (.logDensity [] true) o' fun _ => True := by
  have hn : Engine.small.registry < World.unloaded.registries.length := by decide
  obtain ⟨o, ho, hyields⟩ := evaluation_contained .loading hn rfl .small .empty .parameterCount
  exact ⟨hn, o, ho, hyields.imp fun w' h => ⟨h.1, h.2 Engine.small .small .empty (.logDensity [] true)
    hn fun _ => rfl⟩⟩

end Engine

end CompiledModels
