import CompiledModels.Proofs.Directories
import CompiledModels.Proofs.Habits

/-!
Programs that are alone: nothing changes between two of their steps.
-/

namespace CompiledModels

open Files Program

def Rules.alone (act : Answers) (keep : Moment → Moment → Prop) : Rules where
  act := act
  rely := Eq
  keep := keep
  refl _ := rfl
  trans := Eq.trans

variable {act : Answers} {m : Machine} {S : Site} {F : Prop} {α : Type}

theorem Rules.alone_stable (act : Answers) (K : Moment → Moment → Prop) (P : Moment → Prop) :
    (Rules.alone act K).Stable P := by
  rintro x y rfl hx
  exact hx

theorem Lasting.alone {K : Moment → Moment → Prop} {P : Moment → Prop}
    (h : ∀ x y, Unmoved x y → P x → P y) : Lasting (.alone act K) P :=
  ⟨Rules.alone_stable act K P, h⟩

theorem Room.alone {K : Moment → Moment → Prop} {l : Location} : Room (.alone act K) l :=
  ⟨Rules.alone_stable act K _, Rules.alone_stable act K _, Rules.alone_stable act K _⟩

theorem Private.alone {K : Moment → Moment → Prop} {l : Location} : Private (.alone act K) l := by
  rintro x y rfl rest
  rfl

theorem Ground.alone {K : Moment → Moment → Prop}
    (hact : ∀ w s r w', act w s r w' → Step.faulty m w s r w')
    (hsure : F → ∀ w s r w', act w s r w' → Step.answers m w s r w') :
    Ground (.alone act K) m S F := by
  refine ⟨fun h => hact _ _ _ _ h, fun hF _ _ _ _ h => hsure hF _ _ _ _ h, ?_, ?_, ?_⟩
  · rintro x y rfl
    rfl
  · rintro x y rfl
    rfl
  · rintro x y rfl hx
    exact hx

theorem Program.Only.finishes {p : Program α} {K : Moment → Moment → Prop} {post : α → Moment → Prop}
    {Q : α → Prop} {env : Environment} {x : Moment}
    (ho : p.Only (Step.Credible env) (·.isBrief = true) Q)
    (hs : (Rules.alone (Step.answers m) K).Safe post p x) (hw : x.files.WellFormed)
    (he : x.world.environment = env) {Z : Location → Prop} (hk : ∀ y z, K y z → Changes Z y z) :
    ∃ a w past, p.run m x.world = some (a, w) ∧ post a ⟨w, past⟩ := by
  induction p generalizing x with
  | done a => exact ⟨a, x.world, x.past, rfl, Rules.Safe.done_iff.1 hs x rfl⟩
  | step s next ih =>
    obtain ⟨r, w, hr⟩ := Step.exec_isBrief (m := m) (w := x.world) ho.1
    obtain ⟨hkeep, hn⟩ := Rules.Safe.step_iff.1 hs x rfl r w hr
    have hc := hk _ _ hkeep
    have hcred : s.Credible env r := he ▸ credible_of_exec hw hr
    obtain ⟨a, w', past, hrun, hpost⟩ := ih r (ho.2 r hcred) hn (hc.wellFormed hw)
      (hc.environment.trans he)
    exact ⟨a, w', past, by rw [Program.run, hr]; exact hrun, hpost⟩

abbrev Program.Brief (env : Environment) (p : Program α) : Prop :=
  p.Only (Step.Credible env) (·.isBrief = true) fun _ => True

section Brief

variable {ok : ∀ s : Step, s.Reply → Prop} {c : Cache} {id : ModelIdentity} {p q : Path}

theorem brief_prompt (s : Step) (h : s.isPrompt = true) : s.isBrief = true :=
  Step.isBrief_of_isPrompt h

theorem brief_perform {s : Step} (h : s.isBrief = true) : (Program.perform s).Only ok (·.isBrief = true) fun _ => True :=
  .perform h fun _ _ => trivial

theorem createAll_brief : (createAll p).Only ok (·.isBrief = true) fun _ => True :=
  createUpTo_only brief_prompt _ fun _ _ => rfl

theorem removeAll_brief : (removeAll p).Only ok (·.isBrief = true) fun _ => True :=
  removeAll_only (N := fun _ => True) brief_prompt (fun _ _ _ _ _ _ _ => trivial) fun _ _ => ⟨rfl, rfl⟩

theorem removeDirectory_brief : (Cache.removeDirectory p).run.Only ok (·.isBrief = true) fun _ => True := by
  refine .liftThen removeAll_brief fun r _ => ?_
  cases r with
  | ok _ => trivial
  | error e => exact .ite trivial trivial

theorem delete_brief : (c.delete id).run.Only ok (·.isBrief = true) fun _ => True :=
  removeDirectory_brief (p := c.entryDirectory id)

theorem moveFile_brief : (Cache.moveFile p q).run.Only ok (·.isBrief = true) fun _ => True := by
  refine .liftThen (brief_perform rfl) fun r _ => ?_
  cases r with
  | ok _ => trivial
  | error e =>
    exact .ofThen (brief_perform rfl) (fun _ _ => .liftThen (brief_perform rfl) fun _ _ => trivial)
      fun _ _ => trivial

theorem writeTexts_brief (texts : List (String × String)) : (Cache.writeTexts p texts).run.Only ok (·.isBrief = true) fun _ => True := by
  induction texts with
  | nil => trivial
  | cons text texts ih => exact .ofThen (brief_perform rfl) (fun _ _ => ih) fun _ _ => trivial

theorem retire_brief : (c.retire id p).run.Only ok (·.isBrief = true) fun _ => True := by
  refine .liftThen (pathExists_only (brief_prompt _ rfl)) fun b _ => ?_
  split
  case isFalse => trivial
  refine .ofThen (brief_perform rfl) (fun _ _ => ?_) fun _ _ => trivial
  refine .liftThen removeAll_brief fun r _ => ?_
  cases r with
  | ok _ => trivial
  | error e => exact brief_perform rfl

theorem makeTemporary_brief {start : String} {dir : Path} :
    (makeTemporary start dir).Only ok (·.isBrief = true) fun _ => True :=
  (prompt_only brief_prompt rfl).next fun _ _ =>
    (makeFresh_only brief_prompt maxTries fun _ => rfl).weaken fun _ _ => trivial

theorem openStaging_brief : c.openStaging.run.Only ok (·.isBrief = true) fun _ => True :=
  .ofThen createAll_brief (fun _ _ => trivial) fun _ _ => trivial

theorem store_brief {output warnings : String} {manifest : Manifest} :
    (c.store id p output warnings manifest).run.Only ok (·.isBrief = true) fun _ => True := by
  refine .attempt openStaging_brief (fun staging _ => ?_) fun _ _ => trivial
  refine .ofThen makeTemporary_brief (fun s _ => ?_) fun _ _ => trivial
  refine .andThen ?_ (removeAll_brief.next fun _ _ => trivial)
  cases p.fileName? with
  | none => trivial
  | some name =>
    refine .attempt moveFile_brief (fun _ _ => ?_) fun _ _ => trivial
    refine .attempt (writeTexts_brief _) (fun _ _ => ?_) fun _ _ => trivial
    refine .ofThen createAll_brief (fun _ _ => ?_) fun _ _ => trivial
    refine .attempt retire_brief (fun _ _ => ?_) fun _ _ => trivial
    exact .ofThen (brief_perform rfl) (fun _ _ => trivial) fun _ _ => trivial

end Brief

end CompiledModels
