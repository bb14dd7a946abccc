import CompiledModels.Engine
import CompiledModels.Proofs.Faults

/-!
What the programs answer that only look at the cache: each answer as a function of the file tree.
-/

namespace CompiledModels

open Files

variable {α β ε ε' : Type} {m : Machine} {w : World}

theorem Program.run_bind (p : Program α) (f : α → Program β) :
    (p >>= f).run m w = (p.run m w).bind fun r => (f r.1).run m r.2 := by
  induction p generalizing w with
  | done a => rfl
  | step s next ih =>
    have hstep (k : s.Reply → Program β) :
        (Program.step s k).run m w = (s.exec m w).bind fun r => (k r.1).run m r.2 := by
      simp only [Program.run]
      cases s.exec m w <;> rfl
    refine (hstep fun r => next r >>= f).trans ?_
    rw [Program.run]
    cases s.exec m w with
    | none => rfl
    | some r => exact ih r.1

def Program.Sees (m : Machine) (w : World) (p : Program α) (a : α) : Prop := p.run m w = some (a, w)

namespace Program.Sees

variable {p : Program α} {f : α → Program β} {a : α} {b : β}

theorem pure : (Pure.pure a : Program α).Sees m w a := rfl

theorem run_next (h : p.Sees m w a) : (p >>= f).run m w = (f a).run m w := by
  rw [Program.run_bind, h]
  rfl

theorem next (h : p.Sees m w a) (hf : (f a).Sees m w b) : (p >>= f).Sees m w b :=
  h.run_next.trans hf

theorem of {p : Program (Except ε' α)} {r : Except ε' α} (h : p.Sees m w r) (wrap : ε' → ε) :
    (Attempt.of p wrap).run.Sees m w (r.mapError wrap) := by
  refine next h ?_
  cases r <;> rfl

theorem run_attempt {p : Attempt ε α} {f : α → Attempt ε β} (h : p.run.Sees m w (.ok a)) :
    (p >>= f).run.run m w = (f a).run.run m w := run_next h

theorem attempt {p : Attempt ε α} {f : α → Attempt ε β} {r : Except ε β}
    (h : p.run.Sees m w (.ok a)) (hf : (f a).run.Sees m w r) : (p >>= f).run.Sees m w r :=
  (run_attempt h).trans hf

theorem fail {p : Attempt ε α} {f : α → Attempt ε β} {e : ε} (h : p.run.Sees m w (.error e)) :
    (p >>= f).run.Sees m w (.error e) := next h rfl

theorem lift (h : p.Sees m w a) : (liftM p : Attempt ε α).run.Sees m w (.ok a) := next h rfl

end Program.Sees

section Runs

variable {p : Attempt ε α} {f : α → Attempt ε β}

theorem Attempt.run_bind : (p >>= f).run.run m w = (p.run.run m w).bind fun r =>
    match r.1 with
    | .ok a => (f a).run.run m r.2
    | .error e => some (.error e, r.2) := by
  refine (Program.run_bind _ _).trans (congrArg _ (funext fun r => ?_))
  obtain ⟨r, w'⟩ := r
  cases r <;> rfl

theorem Attempt.run_bind_ok {a : α} {w' : World} (h : p.run.run m w = some (.ok a, w')) :
    (p >>= f).run.run m w = (f a).run.run m w' := by
  rw [Attempt.run_bind, h]
  rfl

theorem Attempt.run_ofThen {q : Program (Except ε' α)} {wrap : ε' → ε} :
    (Attempt.of q wrap >>= f).run.run m w = (q.run m w).bind fun r =>
      match r.1 with
      | .ok a => (f a).run.run m r.2
      | .error e => some (.error (wrap e), r.2) := by
  refine Attempt.run_bind.trans ?_
  rw [Attempt.of, ExceptT.run_mk, Program.run_bind, Option.bind_assoc]
  refine congrArg _ (funext fun r => ?_)
  obtain ⟨r, w'⟩ := r
  cases r <;> rfl

theorem Attempt.run_ofThen_ok {q : Program (Except ε' α)} {wrap : ε' → ε} {a : α} {w' : World}
    (h : q.run m w = some (.ok a, w')) :
    (Attempt.of q wrap >>= f).run.run m w = (f a).run.run m w' := by
  rw [Attempt.run_ofThen, h]
  rfl

theorem Attempt.run_liftThen {q : Program α} :
    ((liftM q : Attempt ε α) >>= f).run.run m w =
      (q.run m w).bind fun r => (f r.1).run.run m r.2 := by
  refine Attempt.run_bind.trans ?_
  have hlift : (liftM q : Attempt ε α).run.run m w =
      (q.run m w).bind fun r => some (.ok r.1, r.2) := Program.run_bind _ _
  rw [hlift, Option.bind_assoc]
  rfl

theorem Attempt.run_andThen {after : Program Unit} :
    (p.andThen after).run.run m w = (p.run.run m w).bind fun r =>
      (after.run m r.2).bind fun s => some (r.1, s.2) := by
  rw [Attempt.andThen, ExceptT.run_mk, Program.run_bind]
  refine congrArg _ (funext fun r => ?_)
  rw [Program.run_bind]
  rfl

end Runs

namespace World

variable (w)

def isFile (p : Path) : Bool := (w.files.stat w.directory true p).toOption.any (·.isFile)

def isDirectory (p : Path) : Bool := (w.files.stat w.directory true p).toOption.any (·.isDirectory)

def text (p : Path) : Except FileError String :=
  match w.files.read w.directory p with
  | .error e => .error e
  | .ok bytes => (Text.decode? bytes).elim (.error .notText) .ok

def names (dir : Path) : List String :=
  ((w.files.list w.directory dir).toOption.getD []).map (·.name)

def moduleNames (dir : Path) : List String :=
  ((w.names dir).filter ModuleFile.isName).filter fun n => w.isFile (dir.join n)

def artifact (c : Cache) (id : ModelIdentity) (name what : String) : Except NotFoundError String :=
  if w.isDirectory (c.entryDirectory id) then
    (w.text ((c.entryDirectory id).join name)).mapError fun _ => .artifact id.key what
  else .error (.entry id.key)

def manifest (c : Cache) (id : ModelIdentity) : Except Error Manifest :=
  match w.artifact c id Cache.manifestFile "manifest" with
  | .error e => .error (.notFound e)
  | .ok text => (Manifest.ofText text).mapError fun f => .cache (.manifest (f.message text))

end World

namespace Program

variable {c : Cache} {id : ModelIdentity} {p : Path}

theorem isFile_sees (p : Path) : (isFile p).Sees m w (w.isFile p) := by
  have hstat : (perform (.stat p true)).Sees m w (w.files.stat w.directory true p) := rfl
  refine hstat.next ?_
  rw [World.isFile]
  cases w.files.stat w.directory true p <;> rfl

theorem isDirectory_sees (p : Path) : (isDirectory p).Sees m w (w.isDirectory p) := by
  have hstat : (perform (.stat p true)).Sees m w (w.files.stat w.directory true p) := rfl
  refine hstat.next ?_
  rw [World.isDirectory]
  cases w.files.stat w.directory true p <;> rfl

theorem readText_sees (p : Path) : (readText p).Sees m w (w.text p) := by
  have hread : (perform (.read p)).Sees m w (w.files.read w.directory p) := rfl
  refine hread.next ?_
  rw [World.text]
  cases w.files.read w.directory p with
  | error e => rfl
  | ok bytes =>
    simp only
    cases Text.decode? bytes <;> rfl

end Program

namespace Cache

open Program

variable (c : Cache) (id : ModelIdentity)

theorem filesAmong_sees (dir : Path) (names : List String) :
    (filesAmong dir names).Sees m w (names.filter fun n => w.isFile (dir.join n)) := by
  induction names with
  | nil => exact .pure
  | cons n names ih =>
    refine (isFile_sees _).next (ih.next ?_)
    rw [List.filter_cons]
    cases w.isFile (dir.join n) <;> exact .pure

theorem directoriesAmong_sees (dir : Path) (names : List String) :
    (directoriesAmong dir names).Sees m w (names.filter fun n => w.isDirectory (dir.join n)) := by
  induction names with
  | nil => exact .pure
  | cons n names ih =>
    refine (isDirectory_sees _).next (ih.next ?_)
    rw [List.filter_cons]
    cases w.isDirectory (dir.join n) <;> exact .pure

theorem modulePath_sees : (c.modulePath id).Sees m w
    ((greatest? (w.moduleNames (c.entryDirectory id))).map (c.entryDirectory id).join) := by
  have hlist : (perform (.list (c.entryDirectory id))).Sees m w
    (w.files.list w.directory (c.entryDirectory id)) := rfl
  refine hlist.next ?_
  rw [World.moduleNames, World.names]
  cases w.files.list w.directory (c.entryDirectory id) with
  | error e => exact .pure
  | ok es => exact (filesAmong_sees _ _).next .pure

theorem greatest?_isSome (names : List String) : (greatest? names).isSome = !names.isEmpty := by
  cases names with
  | nil => rfl
  | cons n names =>
    rw [greatest?]
    cases greatest? names <;> rfl

theorem exists_sees : (c.exists? id).Sees m w !(w.moduleNames (c.entryDirectory id)).isEmpty := by
  refine (c.modulePath_sees id).next ?_
  rw [Option.isSome_map, greatest?_isSome]
  exact .pure

theorem readArtifact_sees (name what : String) :
    (c.readArtifact id name what).run.Sees m w (w.artifact c id name what) := by
  refine (isDirectory_sees _).lift.attempt ?_
  rw [World.artifact]
  cases w.isDirectory (c.entryDirectory id) with
  | false => exact .pure
  | true => exact (readText_sees _).of _

theorem loadManifest_sees : (c.loadManifest id).run.Sees m w (w.manifest c id) := by
  have hread := (c.readArtifact_sees id (m := m) (w := w) manifestFile "manifest").of Error.notFound
  rw [World.manifest]
  cases h : w.artifact c id manifestFile "manifest" with
  | error e =>
    rw [h] at hread
    exact hread.fail
  | ok text =>
    rw [h] at hread
    refine hread.attempt ?_
    simp only
    cases Manifest.ofText text <;> exact .pure

end Cache

end CompiledModels
