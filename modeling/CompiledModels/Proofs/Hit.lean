import CompiledModels.Proofs.Reading
import CompiledModels.Proofs.Files.Operations

/-!
What counts as a hit: for which contents of its entry a model is not built again, and what is
answered then.
-/

namespace CompiledModels

open Files Program

variable {m : Machine} {w : World} {c : Cache} {e : Engine} {id : ModelIdentity} {source : String}
  {diagnostics warnings : String}

/-- The entry of `id` can be used as it is, with these texts: it has a module, its build output can
be read, and there is no manifest that speaks against it. -/
structure World.Hit (w : World) (c : Cache) (id : ModelIdentity) (diagnostics warnings : String) :
    Prop where
  module : ∃ name ∈ w.names (c.entryDirectory id), ModuleFile.isName name = true ∧
    w.isFile ((c.entryDirectory id).join name) = true
  output : w.text ((c.entryDirectory id).join Cache.buildOutputFile) = .ok diagnostics
  warnings : warnings = (w.text ((c.entryDirectory id).join Cache.warningsFile)).toOption.getD ""
  admitted : ∀ text m, w.text ((c.entryDirectory id).join Cache.manifestFile) = .ok text →
    Manifest.ofText text = .ok m → m.abi.toNat = abiVersion

namespace World

theorem module_iff : (∃ name ∈ w.names (c.entryDirectory id), ModuleFile.isName name = true ∧
    w.isFile ((c.entryDirectory id).join name) = true) ↔
    (w.moduleNames (c.entryDirectory id)).isEmpty = false := by
  simp [moduleNames, and_comm]

theorem isDirectory_of_mem_names {dir : Path} {name : String} (h : name ∈ w.names dir) :
    w.isDirectory dir = true := by
  rw [names] at h
  cases hl : w.files.list w.directory dir with
  | error err => simp [hl, Except.toOption] at h
  | ok es =>
    obtain ⟨l, hr, hd, -⟩ := Tree.list_eq_ok.mp hl
    rw [isDirectory, Tree.stat_eq_ok.mpr ⟨l, hr, hd⟩]
    rfl

theorem artifact_of_mem_names {s : String} (h : s ∈ w.names (c.entryDirectory id))
    (name what : String) : w.artifact c id name what =
      (w.text ((c.entryDirectory id).join name)).mapError fun _ => .artifact id.key what := by
  rw [artifact, if_pos (isDirectory_of_mem_names h)]

end World

def World.noting (w : World) (events : List Event) : World := { w with events := w.events ++ events }

@[simp] theorem World.noting_nil : w.noting [] = w := by simp [noting]

@[simp] theorem World.noting_noting (a b : List Event) : (w.noting a).noting b = w.noting (a ++ b) := by
  simp [noting]

@[simp] theorem World.noting_files (events : List Event) : (w.noting events).files = w.files := rfl

def Program.Notes {α : Type} (m : Machine) (w : World) (p : Program α) (a : α) : Prop :=
  ∃ events, p.run m w = some (a, w.noting events)

namespace Program.Notes

variable {α β : Type} {p : Program α} {f : α → Program β} {a : α} {b : β}

theorem of_sees (h : p.Sees m w a) : p.Notes m w a := ⟨[], h.trans (by simp)⟩

theorem next (h : p.Notes m w a) (hf : ∀ events, (f a).Notes m (w.noting events) b) :
    (p >>= f).Notes m w b := by
  obtain ⟨events, hp⟩ := h
  obtain ⟨more, hm⟩ := hf events
  exact ⟨events ++ more, by rw [run_bind, hp]; simpa using hm⟩

theorem after_sees (h : p.Sees m w a) (hf : (f a).Notes m w b) : (p >>= f).Notes m w b := by
  obtain ⟨events, he⟩ := hf
  exact ⟨events, h.run_next.trans he⟩

theorem pure : (Pure.pure a : Program α).Notes m w a := of_sees .pure

theorem emit (event : Event) : (perform (.emit event)).Notes m w () := ⟨[event], rfl⟩

end Program.Notes

namespace Engine

theorem admits_notes (id : ModelIdentity) (source : String) (r : Except Error Manifest) :
    ∃ b, (admits id source r).Notes m w b ∧
      (b = true ↔ ∀ mf, r = .ok mf → mf.abi.toNat = abiVersion) := by
  cases r with
  | error err => exact ⟨true, .pure, by simp⟩
  | ok mf =>
    by_cases habi : mf.abi.toNat = abiVersion
    · refine ⟨true, ?_, by simp [habi]⟩
      by_cases hsource : mf.sourceDigest = sourceDigest source
      · simp only [admits, habi, hsource, ne_eq, not_true_eq_false, if_false]
        exact .pure
      · simp only [admits, habi, hsource, ne_eq, not_true_eq_false, not_false_eq_true, if_false, if_true]
        exact (Notes.emit _).next fun _ => .pure
    · refine ⟨false, ?_, by simp [habi]⟩
      simp only [admits, habi, ne_eq, not_false_eq_true, if_true]
      exact (Notes.emit _).next fun _ => .pure

theorem cached_notes (e : Engine) (id : ModelIdentity) (source : String) (w : World) :
    ∃ o, (e.cached id source).Notes m w o ∧
      ∀ c, o = some c ↔ w.Hit e.cache id c.diagnostics c.warnings ∧ c.cached = true := by
  have hlook := e.cache.exists_sees id (m := m) (w := w)
  cases hmod : (w.moduleNames (e.cache.entryDirectory id)).isEmpty with
  | true =>
    rw [hmod] at hlook
    refine ⟨none, .after_sees hlook .pure, fun c => iff_of_false (by simp) fun h => ?_⟩
    simp [World.module_iff.mp h.1.module] at hmod
  | false =>
    rw [hmod] at hlook
    obtain ⟨name, hname, hmodule⟩ := World.module_iff.mpr hmod
    have hartifact := w.artifact_of_mem_names hname
    have hout := e.cache.readArtifact_sees id (m := m) (w := w) Cache.buildOutputFile "build output"
    rw [hartifact] at hout
    cases ho : w.text ((e.cache.entryDirectory id).join Cache.buildOutputFile) with
    | error err =>
      rw [ho] at hout
      refine ⟨none, .after_sees hlook (.after_sees hout ((Notes.emit _).next fun _ => .pure)),
        fun c => iff_of_false (by simp) fun h => ?_⟩
      simp [h.1.output] at ho
    | ok d =>
      rw [ho] at hout
      have hwarn := e.cache.readArtifact_sees id (m := m) (w := w) Cache.warningsFile
        "translator warnings"
      obtain ⟨b, hadmits, hb⟩ := admits_notes (m := m) (w := w) id source
        (w.manifest e.cache id)
      have hmanifest := e.cache.loadManifest_sees id (m := m) (w := w)
      let recorded := (w.artifact e.cache id Cache.warningsFile "translator warnings").toOption.getD ""
      have hrecorded : recorded =
          (w.text ((e.cache.entryDirectory id).join Cache.warningsFile)).toOption.getD "" := by
        simp only [recorded, hartifact]
        cases w.text ((e.cache.entryDirectory id).join Cache.warningsFile) <;> rfl
      refine ⟨if b then some ⟨d, recorded, true⟩ else none, .after_sees hlook (.after_sees hout
        (.after_sees hwarn (.after_sees hmanifest (hadmits.next fun _ => ?_)))), fun c => ?_⟩
      · cases b with
        | true => exact (Notes.emit _).next fun _ => .pure
        | false => exact .pure
      · have hadmitted : b = true ↔ ∀ text mf,
            w.text ((e.cache.entryDirectory id).join Cache.manifestFile) = .ok text →
              Manifest.ofText text = .ok mf → mf.abi.toNat = abiVersion := by
          have hok (s : String) : (Except.ok s : Except FileError String).mapError
              (fun _ => NotFoundError.artifact id.key "manifest") = .ok s := rfl
          rw [hb, World.manifest, hartifact]
          cases w.text ((e.cache.entryDirectory id).join Cache.manifestFile) with
          | error err => exact iff_of_true (fun mf h => by cases h) fun text mf h => by simp at h
          | ok text =>
            simp only [hok, Except.ok.injEq]
            cases hm : Manifest.ofText text with
            | error err => exact iff_of_true (fun mf h => by cases h) fun text' mf ht => by simp [← ht, hm]
            | ok mf =>
              refine ⟨fun h text' mf' ht hmf => ?_, fun h mf' hmf => h text mf' rfl ?_⟩
              · rw [← ht, hm] at hmf
                exact h mf' (congrArg _ (Except.ok.inj hmf))
              · exact hm.trans (congrArg _ (Except.ok.inj hmf))
        constructor
        · intro hc
          split at hc
          case isFalse => simp at hc
          case isTrue hbt =>
            obtain rfl := Option.some.inj hc
            exact ⟨⟨⟨name, hname, hmodule⟩, ho, hrecorded, hadmitted.mp hbt⟩, rfl⟩
        · rintro ⟨hit, hcached⟩
          obtain ⟨diag, warn, cached⟩ := c
          obtain rfl : cached = true := hcached
          obtain rfl : d = diag := Except.ok.inj (ho.symm.trans hit.output)
          rw [if_pos (hadmitted.mpr hit.admitted), hrecorded, ← hit.warnings]

end Engine

end CompiledModels
