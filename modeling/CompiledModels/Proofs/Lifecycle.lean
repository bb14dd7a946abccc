import CompiledModels.Model
import CompiledModels.Proofs.Ends
import CompiledModels.Proofs.Table

/-!
The life of a model: what it remembers after any calls on it, however the steps of those are
answered and whatever others do meanwhile.
-/

namespace CompiledModels

def Machine.counting : Machine where
  start _ _ _ := .error (.os .noEntry)
  load env files p :=
    match files.read env.location p with
    | .ok _ => .ok ⟨false, fun _ r =>
      match r with
      | .parameterCount => (.ok 3, [])
      | _ => (.error (.raised ""), [])⟩
    | .error _ => .error (.libraryLoad "")

def World.stocked : World :=
  { World.unloaded with
    files := World.unloaded.files.insertFile
      ["c", ModelIdentity.modelNamespace, "m", Cache.buildOutputFile] ⟨Text.encode "built", 0⟩ false }

def World.obstructed : World :=
  { World.unloaded with
    files := ⟨[(["c"], .directory), (["c", ModelIdentity.modelNamespace], .directory),
      (["c", ModelIdentity.modelNamespace, "m"], .file 0 ⟨[1], 0⟩ false)], 1⟩ }

/-- A call on a model that has come to its end, with its answer and when it began and ended. -/
inductive Use
  | compile (r : Except Error Compiled) (x y : Moment)
  | delete (r : Except Error Unit) (x y : Moment)
  | evaluate (r : Request) (answer : Except EvalError r.Answer) (x y : Moment)
  | evaluateContained (r : Request) (answer : Option (Evaluation r.Answer)) (x y : Moment)
  | look (found : Bool) (x y : Moment)

def decisive : List Use → Option Use
  | [] => none
  | u :: past =>
    match u with
    | .compile .. | .delete (.ok ()) .. => some u
    | _ => decisive past

theorem decisive_cases (past : List Use) : decisive past = none ∨
    (∃ r x y, decisive past = some (.compile r x y)) ∨
    ∃ x y, decisive past = some (.delete (.ok ()) x y) := by
  induction past with
  | nil => exact .inl rfl
  | cons u past ih =>
    cases u with
    | compile r x y => exact .inr (.inl ⟨r, x, y, rfl⟩)
    | delete r x y =>
      cases r with
      | ok _ => exact .inr (.inr ⟨x, y, rfl⟩)
      | error err => exact ih
    | evaluate r a x y => exact ih
    | evaluateContained r a x y => exact ih
    | look found x y => exact ih

namespace Model

/-- A call on a model, and what is left of the model after it. -/
inductive Used (act : Answers) (m : Model) : Use → Model → Prop
  | compile {m' : Model} {r : Except Error Compiled} {x y : Moment}
      (h : m.compile.Ends act x (r, m') y) : Used act m (.compile r x y) m'
  | delete {m' : Model} {r : Except Error Unit} {x y : Moment}
      (h : m.delete.Ends act x (r, m') y) : Used act m (.delete r x y) m'
  | evaluate {r : Request} {a : Except EvalError r.Answer} {x y : Moment}
      (h : (m.evaluate r).run.Ends act x a y) : Used act m (.evaluate r a x y) m
  | evaluateContained {r : Request} {a : Option (Evaluation r.Answer)} {x y : Moment}
      (h : (m.evaluateContained r).Ends act x a y) : Used act m (.evaluateContained r a x y) m
  | look {found : Bool} {x y : Moment} (h : m.exists?.Ends act x found y) :
      Used act m (.look found x y) m

/-- What calls have made of a model, the last call first. Each may begin at whatever moment. -/
inductive Lives (act : Answers) (first : Model) : List Use → Model → Prop
  | new : Lives act first [] first
  | call {past : List Use} {u : Use} {m m' : Model} (h : Lives act first past m)
      (hu : Used act m u m') : Lives act first (u :: past) m'

variable {act : Answers} {first m m' : Model} {past : List Use} {x y : Moment}

theorem compile_ends {r : Except Error Compiled} (h : m.compile.Ends act x (r, m') y) :
    (∃ c z count, r = .ok c ∧ (m.engine.compile m.identity m.source).run.Ends act x (.ok c) z ∧
      (m.engine.value? m.identity m.data .parameterCount).Ends act z count y ∧
      m' = { m with parameterCount := count, state := .ready }) ∨
    ∃ err, r = .error err ∧ m' = { m with parameterCount := none, state := .failed } := by
  obtain ⟨r', z, hcompile, hrest⟩ := Program.Ends.bind_iff.mp h
  cases r' with
  | ok c =>
    obtain ⟨count, u, hcount, hdone⟩ := Program.Ends.bind_iff.mp hrest
    obtain ⟨heq, rfl⟩ := Program.Ends.pure_iff.mp hdone
    obtain ⟨rfl, rfl⟩ := Prod.mk.inj heq
    exact .inl ⟨c, z, count, rfl, hcompile, hcount, rfl⟩
  | error err =>
    obtain ⟨heq, rfl⟩ := Program.Ends.pure_iff.mp hrest
    obtain ⟨rfl, rfl⟩ := Prod.mk.inj heq
    exact .inr ⟨err, rfl, rfl⟩

theorem delete_ends {r : Except Error Unit} (h : m.delete.Ends act x (r, m') y) :
    r = .ok () ∧ m' = { m with parameterCount := none, state := .uncompiled } ∨
      ∃ err, r = .error err ∧ m' = m := by
  obtain ⟨r', z, -, hrest⟩ := Program.Ends.bind_iff.mp h
  cases r' with
  | ok c =>
    obtain ⟨heq, rfl⟩ := Program.Ends.pure_iff.mp hrest
    obtain ⟨rfl, rfl⟩ := Prod.mk.inj heq
    exact .inl ⟨rfl, rfl⟩
  | error err =>
    obtain ⟨heq, rfl⟩ := Program.Ends.pure_iff.mp hrest
    obtain ⟨rfl, rfl⟩ := Prod.mk.inj heq
    exact .inr ⟨err, rfl, rfl⟩

def Remembers (act : Answers) (first m : Model) : Option Use → Prop
  | some (.compile (.ok c) x y) => ∃ z,
      (first.engine.compile first.identity first.source).run.Ends act x (.ok c) z ∧
      (first.engine.value? first.identity first.data .parameterCount).Ends act z m.parameterCount y ∧
      m = { first with parameterCount := m.parameterCount, state := .ready }
  | some (.compile (.error _) _ _) => m = { first with parameterCount := none, state := .failed }
  | _ => m = { first with parameterCount := none, state := .uncompiled }

theorem Remembers.fixed {o : Option Use} (h : Remembers act first m o) :
    m = { first with parameterCount := m.parameterCount, state := m.state } := by
  unfold Remembers at h
  split at h
  · obtain ⟨z, -, -, h⟩ := h
    rw [h]
  · rw [h]
  · rw [h]

theorem Lives.remembers (h : Lives act first past m)
    (hf : first = { first with parameterCount := none, state := .uncompiled }) :
    Remembers act first m (decisive past) := by
  induction h with
  | new => exact hf
  | @call past u m m' _ hu ih =>
    have hfixed := ih.fixed
    cases hu with
    | compile hr =>
      rcases compile_ends hr with ⟨c, z, count, rfl, hc, hcount, rfl⟩ | ⟨err, rfl, rfl⟩
      · rw [hfixed] at hc hcount ⊢
        exact ⟨z, hc, hcount, rfl⟩
      · rw [hfixed]
        rfl
    | delete hr =>
      rcases delete_ends hr with ⟨rfl, rfl⟩ | ⟨err, rfl, rfl⟩
      · rw [hfixed]
        rfl
      · exact ih
    | evaluate _ => exact ih
    | evaluateContained _ => exact ih
    | look _ => exact ih

theorem Used.unchanged {u : Use} (h : Used act m u m') (hu : decisive [u] = none) : m' = m := by
  cases h with
  | compile _ => simp [decisive] at hu
  | delete hr =>
    rcases delete_ends hr with ⟨rfl, -⟩ | ⟨err, -, hm⟩
    · simp [decisive] at hu
    · exact hm
  | evaluate _ => rfl
  | evaluateContained _ => rfl
  | look _ => rfl

theorem Lives.before {u : Use} (h : Lives act first (u :: past) m) (hu : decisive [u] = none) :
    Lives act first past m := by
  cases h with
  | call h hused =>
    obtain rfl := hused.unchanged hu
    exact h

/-- The law of a model's life, whatever its calls were answered. It is never left half-way; it is
ready just if the last decisive call was one that compiled it, and has failed just if that call was
one that could not; it knows a number of parameters only when it is ready, and that is what the
question right after compiling was answered. Any other call leaves the model as it was. -/
theorem lifecycle {engine : Engine} {name source : String} {data : ModelData}
    (hf : Model.ofName engine name source data = .ok first) (h : Lives act first past m) :
    m.state ≠ .compiling ∧
    (m.state = .ready ↔ ∃ c x y, decisive past = some (.compile (.ok c) x y)) ∧
    (m.state = .failed ↔ ∃ err x y, decisive past = some (.compile (.error err) x y)) ∧
    (m.state = .uncompiled ↔
      decisive past = none ∨ ∃ x y, decisive past = some (.delete (.ok ()) x y)) ∧
    (∀ n, m.parameterCount = some n → m.state = .ready) ∧
    (∀ c x y, decisive past = some (.compile (.ok c) x y) → ∃ z,
      (m.engine.compile m.identity m.source).run.Ends act x (.ok c) z ∧
      (m.engine.value? m.identity m.data .parameterCount).Ends act z m.parameterCount y) ∧
    (∀ u m', Used act m u m' → decisive [u] = none → m' = m) ∧
    ∀ u before, past = u :: before → decisive [u] = none → Lives act first before m := by
  have hnew : first = { first with parameterCount := none, state := .uncompiled } := by
    obtain ⟨id, -, hid⟩ := Files.Tree.bind_eq_ok.mp hf
    rw [Files.Tree.pure_eq_ok.mp hid]
  have hm := h.remembers hnew
  have hafter : (∀ u m', Used act m u m' → decisive [u] = none → m' = m) ∧
      ∀ u before, past = u :: before → decisive [u] = none → Lives act first before m :=
    ⟨fun _ _ hused hu => hused.unchanged hu, fun _ _ hp hu => (hp ▸ h).before hu⟩
  rcases decisive_cases past with ho | ⟨r, x, y, ho⟩ | ⟨x, y, ho⟩
  · rw [ho] at hm
    have hstate : m.state = .uncompiled := congrArg state hm
    have hcount : m.parameterCount = none := congrArg parameterCount hm
    simpa [ho, hstate, hcount] using hafter
  · rw [ho] at hm
    cases r with
    | ok c =>
      obtain ⟨z, hc, hcount, hfixed⟩ := hm
      have hstate : m.state = .ready := congrArg state hfixed
      refine ⟨by simp [hstate], by simp [hstate, ho], by simp [hstate, ho], by simp [hstate, ho],
        fun _ _ => hstate, fun c' x' y' ho' => ?_, hafter⟩
      obtain ⟨rfl, rfl, rfl⟩ : c = c' ∧ x = x' ∧ y = y' := by simpa [ho] using ho'
      rw [hfixed]
      exact ⟨z, hc, hcount⟩
    | error err =>
      have hstate : m.state = .failed := congrArg state hm
      have hcount : m.parameterCount = none := congrArg parameterCount hm
      simpa [ho, hstate, hcount] using hafter
  · rw [ho] at hm
    have hstate : m.state = .uncompiled := congrArg state hm
    have hcount : m.parameterCount = none := congrArg parameterCount hm
    simpa [ho, hstate, hcount] using hafter

theorem Used.undeleted {err : Error} (h : (m.engine.delete m.identity).run.Ends act x (.error err) y) :
    Used act m (.delete (.error err) x y) m :=
  .delete (Program.Ends.bind_iff.mpr ⟨_, y, h, Program.Ends.pure_iff.mpr ⟨rfl, rfl⟩⟩)

theorem Used.uncompiled {err : Error}
    (h : (m.engine.compile m.identity m.source).run.Ends act x (.error err) y) :
    Used act m (.compile (.error err) x y) { m with parameterCount := none, state := .failed } :=
  .compile (Program.Ends.bind_iff.mpr ⟨_, y, h, Program.Ends.pure_iff.mpr ⟨rfl, rfl⟩⟩)

/-- A model is found in the cache, cannot be removed when a file lies in the place of its entry, and
cannot be compiled when nothing of it is left. -/
theorem lifecycle_ready_failed : ∃ first ready failed c err err' x x' x'' y y' y'',
    Model.ofName .small "m" "" .empty = .ok first ∧
    Lives (Step.answers .counting) first [.delete (.error err) x' y', .compile (.ok c) x y] ready ∧
    ready.state = .ready ∧ ready.parameterCount = some 3 ∧
    Lives (Step.answers .counting) first [.compile (.error err') x'' y'', .delete (.error err) x' y',
      .compile (.ok c) x y] failed ∧ failed.state = .failed ∧ failed.parameterCount = none := by
  let first : Model := ⟨.small, .small, "", .empty, none, .uncompiled⟩
  have hf : Model.ofName .small "m" "" .empty = .ok first := rfl
  obtain ⟨⟨⟨r, ready⟩, y⟩, hcompile, hr⟩ := (Option.any_eq_true _ _).mp
    (show (first.compile.track .counting ⟨.stocked, []⟩).any (fun o =>
      o.1.1.isOk && o.1.2.parameterCount = some 3) = true by decide +kernel)
  obtain ⟨⟨r', y'⟩, hdelete, hr'⟩ := (Option.any_eq_true _ _).mp
    (show ((Engine.small.delete .small).run.track .counting ⟨.obstructed, []⟩).any (fun o =>
      !o.1.isOk) = true by decide +kernel)
  obtain ⟨⟨r'', y''⟩, hagain, hr''⟩ := (Option.any_eq_true _ _).mp
    (show ((Engine.small.compile .small "").run.track .counting ⟨.unloaded, []⟩).any (fun o =>
      !o.1.isOk) = true by decide +kernel)
  have hends := Program.Ends.of_track hcompile
  rcases compile_ends hends with ⟨c, z, count, rfl, -, -, rfl⟩ | ⟨err, rfl, -⟩
  case inr => simp [Except.isOk, Except.toBool] at hr
  cases r' with
  | ok u => simp [Except.isOk, Except.toBool] at hr'
  | error err =>
    cases r'' with
    | ok c' => simp [Except.isOk, Except.toBool] at hr''
    | error err' =>
      have hready := (Lives.new.call (.compile hends)).call (.undeleted (.of_track hdelete))
      have hfailed := hready.call (.uncompiled (.of_track hagain))
      refine ⟨first, _, _, c, err, err', _, _, _, y, y', y'', hf, hready, ?_, ?_, hfailed, ?_, rfl⟩
      · exact (lifecycle hf hready).2.1.mpr ⟨c, _, y, rfl⟩
      · exact of_decide_eq_true (Bool.and_eq_true_iff.mp hr).2
      · exact (lifecycle hf hfailed).2.2.1.mpr ⟨err', _, y'', rfl⟩

end Model

end CompiledModels
