import CompiledModels.Proofs.Behaviour
import CompiledModels.Proofs.Publishing

/-!
What may become of the files while a program that builds modules does nothing to them itself: the
programs that it has started work where they may, and others open files to wait for locks.
-/

namespace CompiledModels

open Files Program

variable {R : Rules} {m : Machine} {E : Estate} {env : Environment} {tools : Invocation → Prop}
  {A : Prop} {x y : Moment} {l : Location} {id : ModelIdentity} {P : Moment → Prop}

namespace Estate

def locks (E : Estate) : Location → Prop := (E.cache.root ++ [".locks"] <+: ·)

def Still (E : Estate) (l : Location) : Prop := ¬E.loose l ∧ ¬E.locks l

theorem still_of_way {k : Nat} (h : E.cache.Way l ∨ (E.temp k).Way l) : E.Still l := by
  rcases h with h | h
  · refine ⟨?_, ?_⟩
    · rintro (⟨s, rest, _, rfl⟩ | ⟨hl, _⟩)
      · exact cache_not_below h (by simp) (List.append_assoc ..)
      · exact hl.2 h
    · rintro ⟨rest, rfl⟩
      exact cache_not_below h (by simp) (List.append_assoc ..)
  · refine ⟨?_, ?_⟩
    · rintro (⟨s, rest, _, rfl⟩ | ⟨_, _, hl, _⟩)
      · exact E.outside k _ h (by simp)
      · exact hl k h
    · rintro ⟨rest, rfl⟩
      exact E.outside k _ h (by simp)

theorem still_of_scratch (h : E.scratch l) : E.Still l := by
  refine ⟨not_loose_of_scratch h, ?_⟩
  rintro ⟨rest, hl⟩
  exact scratch_ne h _ (hl.symm.trans (List.append_assoc ..))

theorem still_of_names {names : List String} (hl : names.head? ≠ some ".locks")
    (hb : ∀ s rest, rest ≠ [] → names ≠ ".staging" :: ("build_" ++ s) :: rest) :
    E.Still (E.cache.root ++ names) := by
  refine ⟨?_, ?_⟩
  · rintro (⟨s, rest, hr, h⟩ | ⟨⟨h, -⟩, -⟩)
    · rw [List.append_assoc, List.append_cancel_left_eq] at h
      exact hb s rest hr h
    · exact h (List.prefix_append _ _)
  · rintro ⟨rest, h⟩
    rw [List.append_assoc, List.append_cancel_left_eq] at h
    exact hl (h ▸ rfl)

theorem still_staging (E : Estate) : E.Still E.cache.staging :=
  still_of_names (by simp) (by simp)

theorem still_models (E : Estate) (rest : List String) : E.Still (E.cache.models ++ rest) := by
  rw [Site.models, List.append_assoc]
  exact still_of_names (by simp [ModelIdentity.modelNamespace]) (by simp [ModelIdentity.modelNamespace])

theorem still_entry (E : Estate) (id : ModelIdentity) (rest : List String) :
    E.Still (E.cache.entry id ++ rest) := by
  rw [Site.entry_eq, List.append_assoc]
  exact E.still_models _

theorem still_of_name {n : String} (hn : ∀ s, n ≠ "build_" ++ s) (rest : List String) :
    E.Still (E.cache.root ++ ".staging" :: n :: rest) := by
  refine still_of_names (by simp) fun s more _ h => hn s ?_
  simp only [List.cons.injEq, true_and] at h
  exact h.1

structure Abides (E : Estate) (t t' : Tree) : Prop where
  kept : ∀ l, E.Still l → t'.get? l = t.get? l
  wellFormed : t.WellFormed → t'.WellFormed
  builds : ∀ l, E.builds l → t'.get? l = t.get? l ∨ t'.get? l = none ∨
    ∃ number c x, t'.get? l = some (.file number c x)

theorem Abides.refl (t : Tree) : E.Abides t t := ⟨fun _ _ => rfl, id, fun _ _ => .inl rfl⟩

theorem Abides.trans {t t' t'' : Tree} (h : E.Abides t t') (h' : E.Abides t' t'') :
    E.Abides t t'' := by
  refine ⟨fun l hl => (h'.kept l hl).trans (h.kept l hl), h'.wellFormed ∘ h.wellFormed, fun l hl => ?_⟩
  rcases h'.builds l hl with he | he
  · rw [he]
    exact h.builds l hl
  · exact .inr he

theorem Tinkers.abides {t t' : Tree} (h : E.Tinkers t t') : E.Abides t t' :=
  ⟨fun l hl => h.kept l hl.1, fun _ => h.wellFormed, h.builds⟩

structure Rests (E : Estate) (x y : Moment) : Prop where
  files : E.Abides x.files y.files
  environment : y.world.environment = x.world.environment
  past : ∃ taken, y.past = taken ++ x.past ∧ ∀ t ∈ taken, ¬t.Moves

theorem Rests.of_unmoved (h : Unmoved x y) : E.Rests x y := by
  obtain ⟨t, ht, hm⟩ := h.taken
  exact ⟨⟨fun l _ => h.files l not_false, h.wellFormed, fun l _ => .inl (h.files l not_false)⟩,
    h.environment, [t], ht, by simpa using hm⟩

def Steady (E : Estate) (P : Moment → Prop) : Prop := ∀ x y, E.Rests x y → P x → P y

namespace Steady

variable {Q : Moment → Prop}

theorem and (hP : E.Steady P) (hQ : E.Steady Q) : E.Steady fun x => P x ∧ Q x :=
  fun x y h hx => ⟨hP x y h hx.1, hQ x y h hx.2⟩

theorem const (B : Prop) : E.Steady fun _ => B := fun _ _ _ h => h

theorem get? {n : Option Node} (hl : E.Still l) : E.Steady (·.files.get? l = n) :=
  fun _ _ h hx => (h.files.kept l hl).trans hx

theorem arrived {p : Path} : E.Steady fun x => ¬Arrived p x.past := by
  rintro x y h hx ⟨a, ha⟩
  obtain ⟨taken, ht, hm⟩ := h.past
  rcases List.mem_append.mp (ht ▸ ha) with ha | ha
  · exact hm _ ha ⟨a, p, rfl⟩
  · exact hx ⟨a, ha⟩

end Steady

theorem Rests.standing {S : Site} (h : E.Rests x y) (hS : ∀ l, S.Way l → E.Still l)
    (hx : Standing S env x) : Standing S env y :=
  ⟨hx.stands.change (Z := fun l => ¬E.Still l) (h.files.wellFormed hx.wellFormed)
    (apart_of_way fun l hl hn => hn (hS l hl)) fun l hl => h.files.kept l (not_not.mp hl),
    h.environment.trans hx.environment⟩

end Estate

structure Workplace (R : Rules) (E : Estate) (m : Machine) (env : Environment)
    (tools : Invocation → Prop) : Prop where
  act : ∀ {w s r w'}, R.act w s r w' → Step.faulty m w s r w'
  calm : ∀ {w s r w'}, R.act w s r w' → E.Calm w ∧ w.environment = env ∧ s.Obeys E env tools
  orderly : E.Orderly m tools
  rests : ∀ {x y}, R.rely x y → E.Rests x y
  past : ∀ {x y}, R.rely x y → y.past = x.past

namespace Workplace

theorem keeping (h : Workplace R E m env tools) (K : Moment → Moment → Prop) :
    Workplace (R.keeping K) E m env tools :=
  ⟨h.act, h.calm, h.orderly, h.rests, h.past⟩

variable (hR : Workplace R E m env tools)
include hR

theorem stable (hP : E.Steady P) : R.Stable P := fun x _ h hx => hP x _ (hR.rests h) hx

theorem lasting (hP : E.Steady P) : Lasting R P :=
  ⟨hR.stable hP, fun x _ h hx => hP x _ (.of_unmoved h) hx⟩

theorem ground {S : Site} (hS : ∀ l, S.Way l → E.Still l) : Ground R m S False :=
  ⟨hR.act, False.elim, hR.past, fun h => (hR.rests h).environment,
    fun {x _} h hx => ((hR.rests h).standing hS (⟨hx, rfl⟩ : Standing S x.world.environment x)).stands⟩

theorem cache : Ground R m E.cache False := hR.ground fun _ h => Estate.still_of_way (k := 0) (.inl h)

theorem temp (k : Nat) : Ground R m (E.temp k) False := hR.ground fun _ h => Estate.still_of_way (.inr h)

theorem closed (h : ∀ rest, E.Still (l ++ rest)) : Private R l := fun _ _ hr rest =>
  (hR.rests hr).files.kept _ (h rest)

theorem room (h : E.Still l) : Room R l := by
  have hsame {x y : Moment} (hr : R.rely x y) := (hR.rests hr).files.kept l h
  refine ⟨fun x y hr hx => ?_, fun x y hr hx => (hsame hr).trans hx, fun x y hr hx target => ?_⟩
  · simpa only [Tree.Spot, hsame hr] using hx
  · rw [hsame hr]
    exact hx target

theorem shelter {F : Prop} (hg : Ground R m E.cache F) (id : ModelIdentity) (A : Prop) :
    Sheltered R m E.cache id F A := by
  have hname {n : String} (hn : ∀ s, n ≠ "build_" ++ s) (rest : List String) :
      E.Still (E.cache.root ++ [".staging", n] ++ rest) := by
    rw [List.append_assoc]
    exact Estate.still_of_name hn rest
  have hretired (s s' : String) : "retired_" ++ s ≠ "build_" ++ s' := by
    intro h
    have hs := congrArg String.toList h
    simp only [String.toList_append] at hs
    exact absurd (List.cons.inj hs).1 (by decide)
  have hstaged (s s' : String) : "entry_" ++ id.name ++ "_" ++ s ≠ "build_" ++ s' := by
    intro h
    have hs := congrArg String.toList h
    simp only [String.toList_append, List.append_assoc] at hs
    exact absurd (List.cons.inj hs).1 (by decide)
  refine ⟨hg, hR.room E.still_staging, ?_, fun s => hR.closed (hname (hstaged s)),
    fun s rest => (hR.room (hname (hretired s) rest)).link, fun _ => hR.closed (E.still_entry id),
    fun _ s => hR.closed (hname (hretired _))⟩
  have h := E.still_models []
  rw [List.append_nil] at h
  exact hR.room h

theorem sheltered (id : ModelIdentity) (A : Prop) : Sheltered R m E.cache id False A :=
  hR.shelter hR.cache id A

theorem idle_rests {s : Step} {r : s.Reply} {w : World} (hs : s.isIdle = true)
    (h : R.act x.world s r w) : E.Rests x (x.after s r w) := by
  obtain ⟨hcalm, rfl, hobeys⟩ := hR.calm h
  have hpast (hw : E.Abides x.files w.files ∧ w.environment = x.world.environment) :
      E.Rests x (x.after s r w) := by
    refine ⟨hw.1, hw.2, [⟨s, r⟩], rfl, fun t ht => ?_⟩
    rintro ⟨a, b, he⟩
    obtain rfl := List.mem_singleton.mp ht
    cases congrArg Taken.step he
    simp [Step.isIdle] at hs
  refine hpast ?_
  rcases hR.act h with hexec | hfails
  · have hd := Estate.idle_drifts hs hcalm (fun i a hi ha => by
      subst hi
      exact hR.orderly i hobeys _ _ a hcalm.sound ha) hexec
    exact ⟨hd.files.abides, hd.environment⟩
  · cases s with
    | stat | list | read => exact ⟨hfails.2 ▸ .refl _, by rw [hfails.2]⟩
    | write | makeDirectory | removeFile | removeDirectory | rename | copy => simp [Step.isIdle] at hs
    | _ => exact hfails.elim

theorem credible {s : Step} {r : s.Reply} {w w' : World} (h : R.act w s r w') : s.Credible env r := by
  obtain ⟨hcalm, rfl, -⟩ := hR.calm h
  rcases hR.act h with hexec | hfails
  · exact credible_of_exec hcalm.sound.cache.wellFormed hexec
  · cases s with
    | list p =>
      rintro es rfl
      simp [Step.Fails, Except.isOk, Except.toBool] at hfails
    | environment => exact hfails.elim
    | acquire n => exact hfails.elim
    | _ => trivial

theorem quiet {α : Type} {p : Program α} {Q : α → Prop}
    (hp : p.Only (Step.Credible env) (·.isIdle = true) Q) (hk : R.Allows E.Rests) (hP : E.Steady P)
    (hx : P x) : R.Safe (fun a y => Q a ∧ P y) p x := by
  refine hp.safe hx (hR.stable hP) fun y s r w hy hs hr => ?_
  have hrests := hR.idle_rests hs hr
  exact ⟨hR.credible hr, hk _ _ hrests, hP _ _ hrests hy⟩

end Workplace

end CompiledModels
