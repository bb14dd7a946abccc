import CompiledModels.Proofs.Naming
import CompiledModels.Proofs.Replacing

/-!
Which names the files of modules have, and what can be told from such a name: whose module it is,
which build it comes from, and that it is none of the texts that lie beside a module.
-/

namespace CompiledModels

open Files

variable {s : String} {id id' : ModelIdentity} {number number' : String}

theorem Text.exists_last (s : String) : ∃ last : String, (∀ c ∈ last.toList, (c == '/') = false) ∧
    (s = last ∨ ∃ dir, s = dir ++ "/" ++ last) := by
  suffices h : ∀ cs : List Char, ∃ last : List Char, (∀ c ∈ last, (c == '/') = false) ∧
      (cs = last ∨ ∃ dir, cs = dir ++ '/' :: last) by
    obtain ⟨last, hlast, hs⟩ := h s.toList
    refine ⟨String.ofList last, by simpa using hlast, ?_⟩
    rcases hs with hs | ⟨dir, hs⟩
    · exact .inl (String.toList_inj.mp (by simpa using hs))
    · exact .inr ⟨String.ofList dir, String.toList_inj.mp (by simpa using hs)⟩
  intro cs
  induction cs with
  | nil => exact ⟨[], by simp, .inl rfl⟩
  | cons c cs ih =>
    obtain ⟨last, hlast, hcs⟩ := ih
    rcases hcs with rfl | ⟨dir, rfl⟩
    · by_cases hc : c = '/'
      · exact ⟨cs, hlast, .inr ⟨[], by simp [hc]⟩⟩
      · refine ⟨c :: cs, ?_, .inl rfl⟩
        intro d hd
        rcases List.mem_cons.mp hd with rfl | hd
        · simpa using hc
        · exact hlast d hd
    · exact ⟨last, hlast, .inr ⟨c :: dir, by simp⟩⟩

theorem Path.fileName?_behind (dir : String) (hs : ∀ c ∈ s.toList, (c == '/') = false) (hp : IsPlain s) :
    (Path.ofText (dir ++ "/" ++ s)).fileName? = some s := by
  have hname : Path.componentOfSegment? s = some (.name s) := by
    simp [Path.componentOfSegment?, hp.1, hp.2.1, hp.2.2]
  have hcomponents : (Path.ofText (dir ++ "/" ++ s)).components.getLast? = some (.name s) := by
    simp only [Path.components, Path.ofText, Path.textComponents, Path.segments_append dir hs,
      List.filterMap_append, List.map_nil, List.append_nil]
    rw [← List.append_assoc]
    simp [hname]
  rw [Path.fileName?, hcomponents]

theorem Path.extensionOfName?_append (stem : String) {extension : String}
    (he : ∀ c ∈ extension.toList, (c == '.') = false) :
    Path.extensionOfName? (stem ++ "." ++ extension) = if stem = "" then none else some extension := by
  have hlist : (stem ++ "." ++ extension).toList = stem.toList ++ '.' :: extension.toList := by simp
  have hparts : Text.splitAll (· == '.') (stem ++ "." ++ extension).toList =
      Text.splitAll (· == '.') stem.toList ++ [extension.toList] := by
    rw [hlist, Text.splitAll_append_cons (by decide), Text.splitAll_of_forall he]
  have hstem : Text.splitAll (· == '.') stem.toList = [[]] ↔ stem = "" := by
    constructor
    · intro h
      cases hs : stem.toList with
      | nil => exact String.toList_inj.mp (by simpa using hs)
      | cons c cs =>
        obtain ⟨w, ws, hw⟩ := List.exists_cons_of_ne_nil (Text.splitAll_ne_nil (· == '.') cs)
        rw [hs, Text.splitAll, hw] at h
        simp only at h
        split at h <;> simp at h
    · rintro rfl
      rfl
  simp only [Path.extensionOfName?, hparts, List.dropLast_concat, hstem,
    List.isEmpty_eq_false_iff.mpr (Text.splitAll_ne_nil _ _), Bool.false_eq_true, false_or]
  split <;> simp

namespace ModuleFile

theorem name_eq (id : ModelIdentity) (number : String) :
    name id number = start ++ id.name ++ "_" ++ number ++ "." ++ Compiler.moduleExtension := rfl

theorem startsWith_name : (name id number).startsWith start = true := by
  rw [String.startsWith_string_iff]
  exact ⟨(id.name ++ "_" ++ number ++ "." ++ Compiler.moduleExtension).toList, by
    simp only [name_eq, String.toList_append, List.append_assoc]⟩

theorem endsWith_slash {last : String}
    (hlast : start ++ id.name ++ "_" ++ number = last ∨
      ∃ dir, start ++ id.name ++ "_" ++ number = dir ++ "/" ++ last)
    (hwhole : ∀ c ∈ last.toList, (c == '/') = false) :
    last = "" ↔ number.endsWith "/" = true := by
  have hends : number.endsWith "/" = true ↔ number.toList.getLast? = some '/' := by
    rw [String.endsWith_eq_endsWith_toSlice, String.Slice.endsWith_string_iff, String.copy_toSlice]
    constructor
    · rintro ⟨cs, hcs⟩
      rw [← hcs]
      simp
    · intro h
      obtain ⟨cs, hcs⟩ := List.getLast?_eq_some_iff.mp h
      exact ⟨cs, by simp [hcs]⟩
  have hstem : (start ++ id.name ++ "_" ++ number).toList.getLast? = some '/' ↔
      number.toList.getLast? = some '/' := by
    rw [String.toList_append, List.getLast?_append]
    cases number.toList.getLast? with
    | none => simp
    | some c => simp
  have hne : start ++ id.name ++ "_" ++ number ≠ "" := by
    simp [start]
  rw [hends, ← hstem]
  rcases hlast with h | ⟨dir, h⟩
  · rw [h]
    constructor
    · intro hempty
      exact absurd (h.trans hempty) hne
    · intro hslash
      have hmem := hwhole '/' (List.mem_of_getLast? hslash)
      simp at hmem
  · rw [h]
    constructor
    · rintro rfl
      simp
    · intro hslash
      cases hl : last.toList.getLast? with
      | none => exact String.toList_inj.mp (by simpa using hl)
      | some c =>
        rw [String.toList_append, List.getLast?_append, hl] at hslash
        obtain rfl : c = '/' := by simpa using hslash
        have hmem := hwhole '/' (List.mem_of_getLast? hl)
        simp at hmem

theorem isName_iff : isName (name id number) = true ↔ ¬number.endsWith "/" = true := by
  obtain ⟨last, hwhole, hlast⟩ := Text.exists_last (start ++ id.name ++ "_" ++ number)
  have hso : ∀ c ∈ Compiler.moduleExtension.toList, (c == '.') = false := by
    simp [Compiler.moduleExtension]
  have hfile : ∀ c ∈ (last ++ "." ++ Compiler.moduleExtension).toList, (c == '/') = false := by
    simp only [String.toList_append, List.forall_mem_append]
    exact ⟨⟨hwhole, by simp⟩, by simp [Compiler.moduleExtension]⟩
  have hplain : IsPlain (last ++ "." ++ Compiler.moduleExtension) := by
    have hlen : 3 ≤ (last ++ "." ++ Compiler.moduleExtension).length := by
      have htail : ".".length = 1 ∧ Compiler.moduleExtension.length = 2 := by decide
      rw [String.length_append, String.length_append, htail.1, htail.2]
      omega
    refine ⟨?_, ?_, ?_⟩ <;> intro h <;> rw [h] at hlen <;> revert hlen <;> decide
  have hname : (Path.ofText (name id number)).fileName? =
      some (last ++ "." ++ Compiler.moduleExtension) := by
    rw [name_eq]
    rcases hlast with h | ⟨dir, h⟩
    · rw [h]
      exact Path.fileName?_ofText hfile hplain
    · rw [h]
      have hbehind := Path.fileName?_behind dir hfile hplain
      simpa only [String.append_assoc] using hbehind
  rw [← endsWith_slash hlast hwhole, isName, startsWith_name, Path.extension?, hname, Option.bind_some,
    Path.extensionOfName?_append last hso, Bool.true_and, beq_iff_eq]
  split
  case isTrue h => simp [h]
  case isFalse h => simp [h]

theorem name_injective (hn : '_' ∉ number.toList) (hn' : '_' ∉ number'.toList)
    (h : name id number = name id' number') : id = id' ∧ number = number' := by
  have hlists : id.name.toList ++ '_' :: number.toList = id'.name.toList ++ '_' :: number'.toList := by
    have hl := congrArg String.toList h
    simp only [name_eq, String.toList_append, List.append_assoc, List.append_cancel_left_eq] at hl
    simp only [← List.append_assoc, List.append_cancel_right_eq] at hl
    simpa using hl
  have hreversed := congrArg List.reverse hlists
  simp only [List.reverse_append, List.reverse_cons, List.append_assoc, List.singleton_append] at hreversed
  have hfree {b : String} (hb : '_' ∉ b.toList) : ∀ c ∈ b.toList.reverse, (c == '_') = false := by
    intro c hc
    rw [beq_eq_false_iff_ne]
    rintro rfl
    exact hb (List.mem_reverse.mp hc)
  have hsplit := congrArg (Text.splitAll (· == '_')) hreversed
  rw [Text.splitAll_append (hfree hn) (by decide), Text.splitAll_append (hfree hn') (by decide)] at hsplit
  have hnumber : number = number' :=
    String.toList_inj.mp (List.reverse_injective (List.cons.inj hsplit).1)
  subst hnumber
  have hname : id.name = id'.name := String.toList_inj.mp (List.append_cancel_right hlists)
  cases id
  cases id'
  subst hname
  exact ⟨rfl, rfl⟩

def IsBuildDigit (c : Char) : Prop := ('0' ≤ c ∧ c ≤ '9') ∨ ('a' ≤ c ∧ c ≤ 'f')

instance (c : Char) : Decidable (IsBuildDigit c) := inferInstanceAs (Decidable (_ ∨ _))

theorem isBuildDigit_hexDigit {n : Nat} (hn : n < 16) : IsBuildDigit (Text.hexDigit n) := by
  have h : ∀ n : Fin 16, IsBuildDigit (Text.hexDigit n) := by decide
  exact h ⟨n, hn⟩

theorem length_bigEndian (count n : Nat) : (Sha256.bigEndian count n).length = count := by
  induction count generalizing n with
  | zero => rfl
  | succ count ih => rw [Sha256.bigEndian, List.length_append, ih, List.length_singleton]

theorem length_digest (message : Bytes) : (Sha256.digest message).length = 32 := by
  simp only [Sha256.digest, Sha256.State.bytes, List.flatMap_cons, List.flatMap_nil, List.length_append,
    length_bigEndian, List.length_nil]

theorem buildNumber_digits (source : String) (nanos processNumber : Nat) :
    (Builder.buildNumber source nanos processNumber).length = 12 ∧
      ∀ c ∈ (Builder.buildNumber source nanos processNumber).toList, IsBuildDigit c := by
  have hpairs (bytes : Bytes) : (bytes.flatMap fun b =>
      [Text.hexDigit (b.toNat / 16), Text.hexDigit (b.toNat % 16)]).length = 2 * bytes.length := by
    induction bytes with
    | nil => rfl
    | cons b bytes ih =>
      rw [List.flatMap_cons, List.length_append, ih]
      simp
      omega
  constructor
  · rw [Builder.buildNumber, Text.hexOfBytes, String.length_ofList, hpairs, List.length_take,
      length_digest]
    rfl
  · intro c hc
    simp only [Builder.buildNumber, Text.hexOfBytes, String.toList_ofList, List.mem_flatMap,
      List.mem_cons, List.not_mem_nil, or_false] at hc
    obtain ⟨b, -, hb⟩ := hc
    have hlt := b.toNat_lt
    rcases hb with rfl | rfl
    · exact isBuildDigit_hexDigit (by omega)
    · exact isBuildDigit_hexDigit (by omega)

theorem texts_beside {S : Site} {m : Machine} {w w' : World} {q : Path} {n : String} {content : Content}
    {executable : Bool} {output warnings : String} {manifest : Manifest} (hs : isName s = true)
    (hw : S.Stands w.files) (hq : S.Leads w.environment.location q)
    (hf : w.files.Folder (S.stagedAt n) [(s, content, executable)])
    (hrun : (Cache.writeTexts (q.joins [".staging", n]) (Cache.texts output warnings manifest)).run.run m w =
      some (.ok (), w')) :
    w'.files.Folder (S.stagedAt n)
      ((s, content, executable) :: (Cache.texts output warnings manifest).map textFile) := by
  have hground : Ground (.alone (Step.answers m) (Within (S.root ++ [".staging", n] <+: ·))) m S False :=
    .alone (fun _ _ _ _ h => .inl h) False.elim
  have hnodup : ([(s, content, executable)].map (·.1) ++
      (Cache.texts output warnings manifest).map (·.1)).Nodup := nodup_of_isName hs output warnings manifest
  have hsafe := writeTexts_written (x := ⟨w, []⟩) hground (fun _ _ h => h) hq (by simp) .alone
    (Cache.plain_texts output warnings manifest) False.elim hnodup ⟨⟨hw, rfl⟩, hf⟩
    (show Written _ [] _ by simp [Written])
  obtain ⟨taken, hpost⟩ := hsafe.run rfl hrun
  exact (hpost.2.1 rfl).1.folder

/-- What the names of the files of modules tell. Such a name is recognised unless the number of the
build ends in a slash. Two builds with numbers without `_` have one name only if they are builds of one
model with one number, and build numbers are of that kind: they have twelve digits. And what is
recognised is none of the texts beside a module, so that writing these leaves the module as it is. -/
theorem names_tell :
    (∀ (id : ModelIdentity) (number : String),
      isName (name id number) = true ↔ ¬number.endsWith "/" = true) ∧
    (∀ (id id' : ModelIdentity) (number number' : String), '_' ∉ number.toList → '_' ∉ number'.toList →
      name id number = name id' number' → id = id' ∧ number = number') ∧
    (∀ (source : String) (nanos processNumber : Nat),
      (Builder.buildNumber source nanos processNumber).length = 12 ∧
      (∀ c ∈ (Builder.buildNumber source nanos processNumber).toList, IsBuildDigit c) ∧
      '_' ∉ (Builder.buildNumber source nanos processNumber).toList) ∧
    ∀ (s output warnings : String) (manifest : Manifest), isName s = true →
      (s ≠ Cache.buildOutputFile ∧ s ≠ Cache.warningsFile ∧ s ≠ Cache.manifestFile) ∧
      ∀ (S : Site) (m : Machine) (w w' : World) (q : Path) (n : String) (content : Content)
        (executable : Bool), S.Stands w.files → S.Leads w.environment.location q →
        w.files.Folder (S.stagedAt n) [(s, content, executable)] →
        (Cache.writeTexts (q.joins [".staging", n]) (Cache.texts output warnings manifest)).run.run m w =
          some (.ok (), w') →
        w'.files.Folder (S.stagedAt n)
          ((s, content, executable) :: (Cache.texts output warnings manifest).map textFile) := by
  refine ⟨fun id number => isName_iff, fun id id' number number' hn hn' h => name_injective hn hn' h,
    fun source nanos processNumber => ?_, fun s output warnings manifest hs => ⟨?_, ?_⟩⟩
  · obtain ⟨hlength, hdigits⟩ := buildNumber_digits source nanos processNumber
    refine ⟨hlength, hdigits, fun hmem => ?_⟩
    have hnot : ¬IsBuildDigit '_' := by decide
    exact hnot (hdigits '_' hmem)
  · have hnot := nodup_of_isName hs output warnings manifest
    simp only [Cache.texts, List.map_cons, List.map_nil, List.nodup_cons, List.mem_cons,
      List.not_mem_nil, or_false, not_or] at hnot
    exact hnot.1
  · intro S m w w' q n content executable hw hq hf hrun
    exact texts_beside hs hw hq hf hrun

def stagedAlone : World :=
  .initial ⟨[(["c"], .directory), (["c", ".staging"], .directory), (["c", ".staging", "n"], .directory),
    (["c", ".staging", "n", "stanbind_model_m_1.so"], .file 0 ⟨[1], 0⟩ true)], 1⟩
    ⟨[], Site.path [], none, 1⟩ 0

theorem staged_stands : Site.top.Stands stagedAlone.files :=
  ⟨⟨by decide +kernel, by decide +kernel, by decide +kernel, by decide +kernel⟩, by decide +kernel,
    by simp [Site.top]⟩

theorem names_tell_small : isName "stanbind_model_m_1.so" = true ∧
    (∀ id : ModelIdentity, id.name = "m_1" → name .small "1" ≠ name id "1") ∧
    ∃ w', (Cache.writeTexts ((Site.path ["c"]).joins [".staging", "n"])
        (Cache.texts "built" "warned" .small)).run.run .idle stagedAlone = some (.ok (), w') ∧
      w'.files.Folder (Site.top.stagedAt "n") (("stanbind_model_m_1.so", ⟨[1], 0⟩, true) ::
        (Cache.texts "built" "warned" .small).map textFile) := by
  have hs : isName "stanbind_model_m_1.so" = true := by decide +kernel
  refine ⟨hs, fun id hid h => ?_, ?_⟩
  · obtain ⟨rfl, -⟩ := names_tell.2.1 .small id "1" "1" (by decide) (by decide) h
    exact absurd hid (by decide)
  · have hrun : ((Cache.writeTexts ((Site.path ["c"]).joins [".staging", "n"])
        (Cache.texts "built" "warned" .small)).run.run .idle stagedAlone).any (·.1.isOk) = true := by
      decide +kernel
    obtain ⟨⟨r, w'⟩, hrun, hok⟩ := (Option.any_eq_true _ _).mp hrun
    cases r with
    | error e => cases hok
    | ok u =>
      refine ⟨w', hrun, (names_tell.2.2.2 "stanbind_model_m_1.so" "built" "warned" .small hs).2 Site.top
        .idle stagedAlone w' (Site.path ["c"]) "n" ⟨[1], 0⟩ true staged_stands
        (Site.serves_path Site.top _).leads ?_ hrun⟩
      refine ⟨by decide +kernel, ?_, ?_⟩
      · intro f hf
        obtain rfl := List.mem_singleton.mp hf
        exact ⟨0, by decide +kernel⟩
      · intro rest hne hsome
        have hall : ∀ e ∈ stagedAlone.files.entries, Site.top.stagedAt "n" <+: e.1 →
            e.1 = Site.top.stagedAt "n" ∨ e.1 = Site.top.stagedAt "n" ++ ["stanbind_model_m_1.so"] := by
          decide +kernel
        obtain ⟨node, hnode⟩ := Option.ne_none_iff_exists'.mp hsome
        have hmem := (staged_stands.wellFormed.get?_iff (by simp [Site.stagedAt])).mp hnode
        rcases hall _ hmem (List.prefix_append _ _) with he | he
        · exact absurd (List.append_right_eq_self.mp he) hne
        · exact ⟨_, List.mem_singleton_self _, List.append_cancel_left he⟩

end ModuleFile

end CompiledModels
