import CompiledModels.Proofs.Redirection

/-!
Threads that redirect the diagnostics of their process, interleaved step by step with each other and
with whoever writes diagnostics: one redirects at a time, and all that it changes it gives back.
-/

namespace CompiledModels

open Program

/-- The threads of one process, each of which redirects the diagnostics once. -/
structure Crew (ι : Type) where
  world : World
  program : ι → Program Capture.Ended
  log : Log ι

namespace Crew

variable {ι : Type} [DecidableEq ι] {m : Machine} {C C' C'' : Crew ι} {ending : ι → Capture.Ending}
  {t₀ : Descriptors} {i j : ι}

omit [DecidableEq ι] in
def sight (C : Crew ι) : Sight ι := ⟨C.world, C.log⟩

/-- One move: a thread takes a step, or someone writes diagnostics. -/
inductive Moves (m : Machine) (C : Crew ι) : Crew ι → Prop
  | step {i : ι} {s : Step} {next : s.Reply → Program Capture.Ended} {r : s.Reply} {w : World}
      (hp : C.program i = .step s next) (hr : C.sight.Answers m s r w) :
      Moves m C ⟨w, Function.update C.program i (next r), (some i, ⟨s, r⟩) :: C.log⟩
  | print (bytes : Bytes) : Moves m C ⟨(C.sight.print bytes).world, C.program, (C.sight.print bytes).log⟩

abbrev Reaches (m : Machine) (C C' : Crew ι) : Prop := Relation.ReflTransGen (Moves m) C C'

/-- All threads are about to redirect diagnostics that go somewhere. -/
structure Opens (C : Crew ι) (ending : ι → Capture.Ending) : Prop where
  program : ∀ i, C.program i = Capture.session (ending i)
  log : C.log = []
  free : C.world.redirecting = false
  diagnostics : ∃ original, C.world.descriptors.target? Descriptors.diagnostics = some original
  files : ∀ k file, C.world.descriptors.target? k = some file → file < C.world.descriptors.files.length

def Redirecting (C : Crew ι) (i : ι) : Prop := (∃ t, (some i, t) ∈ C.log) ∧ ∀ r, C.program i ≠ .done r

inductive Rests (C : Crew ι) (ending : ι → Capture.Ending) (i : ι) : Prop
  | waiting (hp : C.program i = Capture.session (ending i)) (hlog : ∀ t, (some i, t) ∉ C.log)
  | ended (r : Capture.Ended) (hp : C.program i = .done r)
      (htells : ∀ read, r = .finished read → C.log.Tells i read)

inductive Orderly (m : Machine) (t₀ : Descriptors) (ending : ι → Capture.Ending) (C : Crew ι) : Prop
  | clear (hclear : Sight.Clear t₀ C.sight) (hrests : ∀ i, C.Rests ending i)
  | taken (i : ι) {s : Step} {next : s.Reply → Program Capture.Ended} (hp : C.program i = .step s next)
      (hsafe : Sight.Safe m i (Capture.Settled t₀ i) (.step s next) C.sight)
      (hbegun : ∃ t, (some i, t) ∈ C.log) (hrests : ∀ j ≠ i, C.Rests ending j)

omit [DecidableEq ι] in
theorem Rests.not_redirecting (h : C.Rests ending i) : ¬C.Redirecting i := by
  rintro ⟨⟨t, ht⟩, hp⟩
  cases h with
  | waiting _ hlog => exact hlog t ht
  | ended r hr => exact hp r hr

omit [DecidableEq ι] in
theorem Rests.stays (h : C.Rests ending i) (hp : C'.program i = C.program i)
    {t : Option ι × Taken} (hlog : C'.log = t :: C.log) (ht : t.1 ≠ some i) : C'.Rests ending i := by
  cases h with
  | waiting hw hnone =>
    refine .waiting (hp.trans hw) fun u hu => ?_
    rw [hlog] at hu
    rcases List.mem_cons.mp hu with rfl | hu
    · exact ht rfl
    · exact hnone u hu
  | ended r hr htells =>
    refine .ended r (hp.trans hr) fun read hread => ?_
    rw [hlog]
    exact (htells read hread).cons t

omit [DecidableEq ι] in
theorem Rests.begins (h : C.Rests ending i) {s : Step} {next : s.Reply → Program Capture.Ended}
    {r : s.Reply} {w : World} (hp : C.program i = .step s next) (hr : C.sight.Answers m s r w) :
    C.world.redirecting = false ∧ s = .beginRedirection ∧ w = { C.world with redirecting := true } ∧
      next r = (Capture.proceed >>= Capture.conclude (ending i)) := by
  cases h with
  | waiting hw hlog =>
    rw [hw, Capture.session_eq] at hp
    obtain ⟨rfl, hnext⟩ := Program.step.inj hp
    obtain rfl := eq_of_heq hnext
    rcases hr with hr | ⟨hr, -⟩
    · cases hfree : C.world.redirecting with
      | true => simp [Step.exec, sight, hfree] at hr
      | false =>
        simp only [Step.exec, sight, hfree] at hr
        obtain ⟨-, rfl⟩ := Prod.mk.inj (Option.some.inj hr)
        exact ⟨rfl, rfl, rfl, rfl⟩
    · cases hr
  | ended r hr => simp [hr] at hp

theorem Orderly.moves (ho : ∃ original, t₀.target? Descriptors.diagnostics = some original)
    (h : C.Orderly m t₀ ending) (hC : C.Moves m C') : C'.Orderly m t₀ ending := by
  obtain ⟨original, ho⟩ := ho
  cases hC with
  | print bytes =>
    have hother (i : ι) (h : C.Rests ending i) : Crew.Rests
        ⟨(C.sight.print bytes).world, C.program, (C.sight.print bytes).log⟩ ending i :=
      h.stays rfl rfl (by simp)
    cases h with
    | clear hclear hrests => exact .clear (hclear.print bytes) fun i => hother i (hrests i)
    | taken i hp hsafe hbegun hrests =>
      obtain ⟨t, ht⟩ := hbegun
      exact .taken i hp (hsafe.print bytes) ⟨t, List.mem_cons_of_mem _ ht⟩
        fun j hj => hother j (hrests j hj)
  | @step i s next r w hp hr =>
    have hother (j : ι) (hj : j ≠ i) (h : C.Rests ending j) : Crew.Rests
        ⟨w, Function.update C.program i (next r), (some i, ⟨s, r⟩) :: C.log⟩ ending j :=
      h.stays (Function.update_of_ne hj _ _) rfl fun heq => hj (Option.some.inj heq).symm
    have hself : Function.update C.program i (next r) i = next r := Function.update_self _ _ _
    cases h with
    | clear hclear hrests =>
      obtain ⟨-, rfl, rfl, hnext⟩ := (hrests i).begins hp hr
      have hstage : Sight.Stage t₀ t₀.target? false
          (⟨{ C.world with redirecting := true }, (some i, ⟨.beginRedirection, r⟩) :: C.log⟩ : Sight ι) :=
        ⟨rfl, hclear.table, hclear.bound, rfl⟩
      exact .taken i (hself.trans hnext) (Capture.session_settled ho hstage (ending i))
        ⟨_, List.mem_cons_self⟩ fun j hj => hother j hj (hrests j)
    | @taken k s' next' hp' hsafe hbegun hrests =>
      by_cases hk : i = k
      · subst hk
        obtain ⟨rfl, hnext⟩ := Program.step.inj (hp.symm.trans hp')
        obtain rfl := eq_of_heq hnext
        have hdone := hsafe.2 C.sight .refl r w hr
        cases hn : next r with
        | done a =>
          rw [hn] at hdone
          refine .clear hdone.1 fun j => ?_
          by_cases hj : j = i
          · subst hj
            exact .ended a (Function.update_self _ _ _) hdone.2
          · exact hn ▸ hother j hj (hrests j hj)
        | step s'' next'' =>
          rw [hn] at hdone
          exact .taken i (Function.update_self _ _ _) hdone ⟨_, List.mem_cons_self⟩
            fun j hj => hn ▸ hother j hj (hrests j hj)
      · obtain ⟨hfree, -⟩ := (hrests i hk).begins hp hr
        have htaken : C.world.redirecting = true := hsafe.1
        simp [hfree] at htaken

theorem Opens.orderly (h : C.Opens ending) (hr : C.Reaches m C') :
    C'.Orderly m C.world.descriptors ending := by
  induction hr with
  | refl => exact .clear ⟨h.free, rfl, h.files⟩ fun i => .waiting (h.program i) (by simp [h.log])
  | tail _ hm ih => exact ih.moves h.diagnostics hm

omit [DecidableEq ι] in
theorem Orderly.of_redirecting (h : C.Orderly m t₀ ending) (hi : C.Redirecting i) :
    ∀ j ≠ i, C.Rests ending j := by
  cases h with
  | clear _ hrests => exact absurd hi (hrests i).not_redirecting
  | taken k hp hsafe hbegun hrests =>
    by_cases hk : i = k
    · exact hk ▸ hrests
    · exact absurd hi (hrests i hk).not_redirecting

omit [DecidableEq ι] in
theorem Orderly.clear_of_rest (h : C.Orderly m t₀ ending) (hrest : ∀ i, ¬C.Redirecting i) :
    Sight.Clear t₀ C.sight := by
  cases h with
  | clear hclear _ => exact hclear
  | taken k hp hsafe hbegun hrests =>
    exact absurd ⟨hbegun, fun r hr => by simp [hp] at hr⟩ (hrest k)

theorem Orderly.clear_of_ended (h : C.Orderly m t₀ ending) (h' : C'.Orderly m t₀ ending)
    (hC : C.Moves m C') (hi : C.Redirecting i) {r : Capture.Ended} (hr : C'.program i = .done r) :
    Sight.Clear t₀ C'.sight := by
  cases h' with
  | clear hclear _ => exact hclear
  | @taken k s next hp hsafe hbegun hrests =>
    exfalso
    have hk : k ≠ i := by
      rintro rfl
      rw [hp] at hr
      simp at hr
    have hrest := h.of_redirecting hi k hk
    cases hC with
    | print bytes => exact hi.2 r hr
    | @step l s' next' r' w hp' hr' =>
      by_cases hl : l = i
      · subst hl
        have hstays : Crew.Rests ⟨w, Function.update C.program l (next' r'),
            (some l, ⟨s', r'⟩) :: C.log⟩ ending k :=
          hrest.stays (Function.update_of_ne hk _ _) rfl fun heq => hk (Option.some.inj heq).symm
        exact hstays.not_redirecting ⟨hbegun, fun r hr => nomatch hp.symm.trans hr⟩
      · exact hi.2 r ((Function.update_of_ne (Ne.symm hl) _ _).symm.trans hr)

/-- However threads that redirect the diagnostics are interleaved with each other and with whoever
writes, and whichever steps fail, one thread redirects at a time, what it takes it gives back, and
what it reads is what was written meanwhile. -/
theorem gives_back (h : C.Opens ending) (hr : C.Reaches m C') :
    (∀ i j, C'.Redirecting i → C'.Redirecting j → i = j) ∧
    ((∀ i, ¬C'.Redirecting i) → C'.world.redirecting = false ∧
      ∀ d, C'.world.descriptors.target? d = C.world.descriptors.target? d) ∧
    (∀ C'' i e, C'.Moves m C'' → C'.Redirecting i → C''.program i = .done (.refused e) →
      C''.world.redirecting = false ∧
        ∀ d, C''.world.descriptors.target? d = C.world.descriptors.target? d) ∧
    ∀ i text, C'.program i = .done (.finished (.ok text)) →
      ∃ bytes, C'.log.Holds i bytes ∧ text = Text.decodeLossy bytes := by
  have ho := h.orderly hr
  refine ⟨fun i j hi hj => ?_, fun hrest => ?_, fun C'' i e hC hi hp => ?_, fun i text hp => ?_⟩
  · by_contra hij
    exact (ho.of_redirecting hi j (Ne.symm hij)).not_redirecting hj
  · have hclear := ho.clear_of_rest hrest
    exact ⟨hclear.free, congrFun hclear.table⟩
  · have hclear := ho.clear_of_ended (ho.moves h.diagnostics hC) hC hi hp
    exact ⟨hclear.free, congrFun hclear.table⟩
  · have hrest : C'.Rests ending i := by
      cases ho with
      | clear _ hrests => exact hrests i
      | taken k hp' _ _ hrests =>
        refine hrests i ?_
        rintro rfl
        rw [hp] at hp'
        simp at hp'
    cases hrest with
    | waiting hw _ => simp [hp, Capture.session_eq] at hw
    | ended r hr htells =>
      obtain rfl := Program.done.inj (hp.symm.trans hr)
      exact htells _ rfl text rfl

def play (m : Machine) : List (ι ⊕ Bytes) → Crew ι → Option (Crew ι)
  | [], C => some C
  | .inr bytes :: order, C =>
    play m order ⟨(C.sight.print bytes).world, C.program, (C.sight.print bytes).log⟩
  | .inl i :: order, C =>
    match C.program i with
    | .done _ => none
    | .step s next =>
      match s.exec m C.world with
      | none => none
      | some (r, w) => play m order ⟨w, Function.update C.program i (next r), (some i, ⟨s, r⟩) :: C.log⟩

theorem reaches_of_play {order : List (ι ⊕ Bytes)} (h : C.play m order = some C') : C.Reaches m C' := by
  induction order generalizing C with
  | nil =>
    obtain rfl := Option.some.inj h
    exact .refl
  | cons o order ih =>
    cases o with
    | inr bytes => exact .head (.print bytes) (ih h)
    | inl i =>
      simp only [play] at h
      split at h
      case h_1 => simp at h
      case h_2 s next hp =>
        split at h
        case h_1 => simp at h
        case h_2 r w hr => exact .head (.step hp (.inl hr)) (ih h)

def small : Crew Bool :=
  ⟨.initial .empty ⟨[], .ofText "/", none, 1⟩ 0,
    fun i => Capture.session (if i then .finish else .drop), []⟩

theorem small_opens : small.Opens fun i => if i then .finish else .drop where
  program _ := rfl
  log := rfl
  free := rfl
  diagnostics := ⟨2, rfl⟩
  files := by
    intro k file hk
    obtain ⟨e, he, rfl⟩ := Option.map_eq_some_iff.mp hk
    have hall : ∀ e ∈ small.world.descriptors.table, e.2 < small.world.descriptors.files.length := by
      decide
    exact hall e (List.mem_of_find?_eq_some he)

def read? (C : Crew ι) (i : ι) : Option String :=
  match C.program i with
  | .done (.finished (.ok text)) => some text
  | .done _ => some ""
  | _ => none

omit [DecidableEq ι] in
theorem read?_eq_some {text : String} (h : C.read? i = some text) :
    ∃ r, C.program i = .done r ∧ (text ≠ "" → r = .finished (.ok text)) := by
  unfold read? at h
  split at h
  case h_1 read hp =>
    obtain rfl := Option.some.inj h
    exact ⟨_, hp, fun _ => rfl⟩
  case h_2 r _ hp =>
    obtain rfl := Option.some.inj h
    exact ⟨r, hp, fun hne => absurd rfl hne⟩
  case h_3 => simp at h

/-- Something is written before a redirection, in it, and when it is over. -/
theorem gives_back_small : small.Opens (fun i => if i then .finish else .drop) ∧
    ∃ C', small.Reaches ⟨fun _ _ _ => .error .notText, fun _ _ _ => .error (.libraryLoad "")⟩ C' ∧
      (C'.world.redirecting = false ∧
        ∀ d, C'.world.descriptors.target? d = small.world.descriptors.target? d) ∧
      ∃ bytes, C'.log.Holds true bytes ∧ "Hi" = Text.decodeLossy bytes := by
  have hplay : ((small.play ⟨fun _ _ _ => .error .notText, fun _ _ _ => .error (.libraryLoad "")⟩
      (.inr [33] :: List.replicate 5 (.inl true) ++ [.inr [72], .inr [105]] ++
        List.replicate 6 (.inl true) ++ .inr [33] :: List.replicate 9 (.inl false))).any fun C =>
      C.read? true == some "Hi" && C.read? false == some "") = true := by decide +kernel
  obtain ⟨C', hC, hread⟩ := (Option.any_eq_true _ _).mp hplay
  simp only [Bool.and_eq_true, beq_iff_eq] at hread
  obtain ⟨r, hr, hfinished⟩ := read?_eq_some hread.1
  obtain ⟨r', hr', -⟩ := read?_eq_some hread.2
  obtain ⟨-, hback, -, htold⟩ := gives_back small_opens (reaches_of_play hC)
  refine ⟨small_opens, C', reaches_of_play hC, hback fun i hi => ?_, htold true "Hi" ?_⟩
  · cases i with
    | true => exact hi.2 r hr
    | false => exact hi.2 r' hr'
  · rw [hr, hfinished (by decide)]

end Crew

end CompiledModels
