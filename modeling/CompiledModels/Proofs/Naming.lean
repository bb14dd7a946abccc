import CompiledModels.Proofs.Behaviour
import CompiledModels.Proofs.ModuleFile

/-!
Which texts name a model, and where the paths lead that are made of such names: right into the
directory that they are joined to.
-/

namespace CompiledModels

open Files

variable {s : String} {p : Path} {id : ModelIdentity}

def IsNameLetter (c : Char) : Prop :=
  ('a' ≤ c ∧ c ≤ 'z') ∨ ('A' ≤ c ∧ c ≤ 'Z') ∨ ('0' ≤ c ∧ c ≤ '9') ∨ c = '_' ∨ c = '-'

theorem isDigit_iff (c : Char) : c.isDigit = true ↔ '0' ≤ c ∧ c ≤ '9' :=
  Bool.and_eq_true_iff.trans (and_congr decide_eq_true_iff decide_eq_true_iff)

theorem isNameChar_iff (c : Char) : isNameChar c = true ↔ IsNameLetter c := by
  have hupper : c.isUpper = true ↔ 'A' ≤ c ∧ c ≤ 'Z' := decide_eq_true_iff
  have hlower : c.isLower = true ↔ 'a' ≤ c ∧ c ≤ 'z' := Bool.and_eq_true_iff.trans
    (and_congr decide_eq_true_iff decide_eq_true_iff)
  have halpha : c.isAlphanum = ((c.isUpper || c.isLower) || c.isDigit) := rfl
  simp only [isNameChar, IsNameLetter, halpha, Bool.or_eq_true, beq_iff_eq, hupper, hlower,
    isDigit_iff]
  rw [or_assoc, or_assoc, or_assoc, or_left_comm]

theorem isSafeName_iff : IsSafeName s ↔ s ≠ "" ∧ ∀ c ∈ s.toList, IsNameLetter c := by
  simp only [IsSafeName, List.all_eq_true, isNameChar_iff]

theorem Text.splitAll_ne_nil {α : Type} (p : α → Bool) (cs : List α) : Text.splitAll p cs ≠ [] := by
  cases cs with
  | nil => simp [Text.splitAll]
  | cons c cs =>
    simp only [Text.splitAll]
    split
    · simp
    · split <;> simp

theorem Text.splitAll_append_cons {α : Type} {p : α → Bool} {c : α} (hc : p c = true) (cs ds : List α) :
    Text.splitAll p (cs ++ c :: ds) = Text.splitAll p cs ++ Text.splitAll p ds := by
  induction cs with
  | nil =>
    obtain ⟨w, ws, h⟩ := List.exists_cons_of_ne_nil (Text.splitAll_ne_nil p ds)
    simp [Text.splitAll, h, hc]
  | cons d cs ih =>
    obtain ⟨w, ws, h⟩ := List.exists_cons_of_ne_nil (Text.splitAll_ne_nil p cs)
    rw [List.cons_append, Text.splitAll, ih, Text.splitAll, h]
    simp only [List.cons_append]
    split <;> rfl

structure IsSegment (s : String) : Prop where
  plain : IsPlain s
  whole : ∀ c ∈ s.toList, (c == '/') = false

theorem ModelIdentity.isSegment (id : ModelIdentity) : IsSegment id.name := by
  refine ⟨id.isPlain, fun c hc => ?_⟩
  have h := id.isChar_name c hc
  simp only [ModuleFile.isChar, Bool.and_eq_true, bne_iff_ne] at h
  simpa using h.1

theorem ModelIdentity.isSegment_lock (id : ModelIdentity) : IsSegment (id.name ++ ".lock") := by
  refine ⟨id.plain_append ".lock", ?_⟩
  rw [String.toList_append, List.forall_mem_append]
  exact ⟨id.isSegment.whole, by simp⟩

namespace Path

theorem segments_of_whole (hs : ∀ c ∈ s.toList, (c == '/') = false) : segments s = [s] := by
  simp [segments, Text.splitAll_of_forall hs]

theorem segments_append (dir : String) (hs : ∀ c ∈ s.toList, (c == '/') = false) :
    segments (dir ++ "/" ++ s) = segments dir ++ [s] := by
  have hlist : (dir ++ "/" ++ s).toList = dir.toList ++ '/' :: s.toList := by simp
  rw [← segments_of_whole hs, segments, hlist,
    Text.splitAll_append_cons (p := (· == '/')) (by decide), List.map_append]
  rfl

theorem segments_ne_nil (dir : String) : segments dir ≠ [] := by
  simp [segments, Text.splitAll_ne_nil]

theorem startsWith_append {a : String} (b : String) (ha : a ≠ "") :
    (a ++ b).startsWith "/" = a.startsWith "/" := by
  obtain ⟨c, cs, hc⟩ := List.exists_cons_of_ne_nil (show a.toList ≠ [] by simpa using ha)
  rw [Bool.eq_iff_iff, String.startsWith_string_iff, String.startsWith_string_iff,
    String.toList_append, hc]
  simp

theorem textComponents_extend {a b : String} {front : List String}
    (hstart : b.startsWith "/" = a.startsWith "/") (hne : front ≠ [])
    (ha : segments a = front ∨ segments a = front ++ [""]) (hb : segments b = front ++ [s]) :
    textComponents b = textComponents a ++ (componentOfSegment? s).toList := by
  have hparts (x : String) : (front ++ [x]).filterMap componentOfSegment? =
      front.filterMap componentOfSegment? ++ (componentOfSegment? x).toList := by
    rw [List.filterMap_append]
    cases h : componentOfSegment? x <;> simp [h]
  have hhead (x : String) : (front ++ [x]).head? = front.head? := by
    rw [List.head?_append, Option.or_of_isSome (List.isSome_head?.mpr hne)]
  have hempty : componentOfSegment? "" = none := rfl
  rcases ha with ha | ha
  · simp only [textComponents, hstart, ha, hb, hparts, hhead, List.append_assoc]
  · simp only [textComponents, hstart, ha, hb, hparts, hhead, hempty, Option.toList_none,
      List.append_nil, List.append_assoc]

theorem textComponents_joinText (dir : String) (hs : IsSegment s) :
    textComponents (joinText dir s) = textComponents dir ++ [.name s] := by
  have hname : (componentOfSegment? s).toList = [.name s] := by
    simp [componentOfSegment?, hs.plain.1, hs.plain.2.1, hs.plain.2.2]
  rw [← hname]
  by_cases hd : dir = ""
  · subst hd
    have hstart : s.startsWith "/" = false := by
      rw [← Bool.not_eq_true, String.startsWith_string_iff]
      rintro ⟨cs, hcs⟩
      simpa using hs.whole '/' (by rw [← hcs]; simp)
    have hempty : textComponents "" = [] := by decide +kernel
    rw [hempty, List.nil_append, joinText, if_pos (by simp), String.empty_append, textComponents,
      hstart, segments_of_whole hs.whole]
    cases h : componentOfSegment? s <;> simp [hs.plain.2.1, h]
  · by_cases he : dir.endsWith "/" = true
    · have hends : "/".toList <:+ dir.toList := by
        rwa [String.endsWith_eq_endsWith_toSlice, String.Slice.endsWith_string_iff,
          String.copy_toSlice] at he
      obtain ⟨cs, hcs⟩ := hends
      obtain rfl : String.ofList cs ++ "/" = dir := String.toList_inj.mp (by simpa using hcs)
      rw [joinText, if_pos (by simp [he])]
      refine textComponents_extend (startsWith_append _ hd) (segments_ne_nil (String.ofList cs))
        (.inr ?_) (segments_append _ hs.whole)
      simpa using segments_append (s := "") (String.ofList cs) (by simp)
    · rw [joinText, if_neg (by simp [he, hd])]
      exact textComponents_extend (by rw [String.append_assoc, startsWith_append _ hd])
        (segments_ne_nil dir) (.inl rfl) (segments_append dir hs.whole)

theorem textComponents_join (p : Path) (hs : IsSegment s) :
    textComponents (p.join s).text = textComponents p.text ++ [.name s] := by
  rw [show (p.join s).text = joinText p.text s by simp [text, join], textComponents_joinText _ hs]

end Path

namespace Files.Tree

variable {t : Tree} {cwd dir l : Location} {links : Nat} {names : List String}

theorem descend_concat (hs : IsPlain s) :
    (∀ l, t.descend false dir (names ++ [s]) = .reached l →
      ∃ d, t.descend true dir names = .reached d ∧ l = d ++ [s]) ∧
    ∀ d target rest, t.descend false dir (names ++ [s]) = .through d target rest →
      ∃ more, rest = more ++ [s] ∧ t.descend true dir names = .through d target more := by
  obtain ⟨hne, hdot, hup⟩ := hs
  induction names generalizing dir with
  | nil =>
    simp only [List.nil_append, descend, hne, hdot, hup, or_self, if_false]
    split
    · simp
    · cases t.get? (dir ++ [s]) with
      | none => simp
      | some n => cases n <;> simp [eq_comm]
  | cons s' names ih =>
    simp only [List.cons_append, descend]
    split
    · exact ih
    · split
      · exact ih
      · split
        · simp
        · cases t.get? (dir ++ [s']) with
          | none => simp [hne, hdot]
          | some n =>
            cases n with
            | directory => exact ih
            | link target => simp [← and_assoc]
            | file => simp
            | other => simp

theorem resolveFrom_concat (hs : IsPlain s)
    (h : t.resolveFrom false links dir (names ++ [s]) = .ok l) :
    ∃ d, t.resolveFrom true links dir names = .ok d ∧ l = d ++ [s] := by
  induction links generalizing dir names with
  | zero =>
    unfold resolveFrom at h ⊢
    cases hd : t.descend false dir (names ++ [s]) with
    | reached k =>
      obtain ⟨d, htrue, rfl⟩ := (descend_concat hs).1 k hd
      exact ⟨d, by rw [htrue], by simpa [hd] using h.symm⟩
    | _ => simp [hd] at h
  | succ links ih =>
    unfold resolveFrom at h ⊢
    cases hd : t.descend false dir (names ++ [s]) with
    | reached k =>
      obtain ⟨d, htrue, rfl⟩ := (descend_concat hs).1 k hd
      exact ⟨d, by rw [htrue], by simpa [hd] using h.symm⟩
    | through d target rest =>
      obtain ⟨more, rfl, htrue⟩ := (descend_concat hs).2 d target rest hd
      simp only [hd, ← List.append_assoc] at h
      rw [htrue]
      exact ih h
    | failed e => simp [hd] at h

theorem resolve_eq_ok {follow : Bool} (hp : p.tail ≠ []) : t.resolve cwd follow p = .ok l ↔
    p.base.toList.any (· == '\x00') = false ∧ Short p ∧
      t.resolveFrom follow maxLinks (if p.isAbsolute then [] else cwd)
        (Path.segments p.base ++ p.tail) = .ok l := by
  have hdem : demandsDirectory p = false := by simp [demandsDirectory, hp]
  have hempty : p.tail.isEmpty = false := by simpa using hp
  simp only [resolve, hdem, hempty, Short, Bool.or_false, Bool.false_eq_true, and_false, if_false]
  split
  case isTrue hnul => simp [hnul]
  case isFalse hnul =>
    split
    case isTrue hlong => simp [Nat.not_lt.mpr hlong]
    case isFalse hshort =>
      rw [Bool.not_eq_true] at hnul
      simp only [hnul, Nat.lt_of_not_le hshort, true_and]
      cases t.resolveFrom follow maxLinks (if p.isAbsolute then [] else cwd)
          (Path.segments p.base ++ p.tail) with
      | error e => simp
      | ok k => cases h : t.get? k with
        | none => simp [h]
        | some n => cases n <;> simp [h]

theorem resolve_join (hs : IsPlain s) (hp : p.tail ≠ []) (h : t.resolve cwd false (p.join s) = .ok l) :
    ∃ d, t.resolve cwd true p = .ok d ∧ l = d ++ [s] := by
  obtain ⟨hnul, hshort, hfrom⟩ := (resolve_eq_ok (by simp [Path.join])).mp h
  have hsame : (p.join s).isAbsolute = p.isAbsolute := rfl
  rw [show (p.join s).tail = p.tail ++ [s] from rfl, ← List.append_assoc, hsame] at hfrom
  obtain ⟨d, hd, rfl⟩ := resolveFrom_concat hs hfrom
  have hlength := p.size_le_join s
  exact ⟨d, (resolve_eq_ok hp).mpr ⟨hnul, by unfold Short at *; omega, hd⟩, rfl⟩

end Files.Tree

/-- The path `p` is that of `name` in `dir`: by its text, and in every file tree in which it leads
anywhere. -/
structure Path.LiesIn (dir p : Path) (name : String) : Prop where
  components : textComponents p.text = textComponents dir.text ++ [.name name]
  resolve : ∀ (t : Tree) (cwd l : Location), t.resolve cwd false p = .ok l →
    ∃ d, t.resolve cwd true dir = .ok d ∧ l = d ++ [name]

theorem Path.liesIn_join (hs : IsSegment s) (hp : p.tail ≠ []) : p.LiesIn (p.join s) s :=
  ⟨textComponents_join p hs, fun _ _ _ => Tree.resolve_join hs.plain hp⟩

namespace Cache

variable (c : Cache)

theorem components_directory (hs : IsSegment s) :
    Path.textComponents (c.root.join s).text = Path.textComponents c.root.text ++ [.name s] :=
  Path.textComponents_join c.root hs

theorem not_prefix_of_ne {a b name : String} (ha : IsSegment a) (hb : IsSegment b) (hab : a ≠ b)
    (h : (c.root.join b).LiesIn p name) :
    ¬Path.textComponents (c.root.join a).text <+: Path.textComponents p.text := by
  rw [h.components, c.components_directory ha, c.components_directory hb, List.append_assoc,
    List.prefix_append_right_inj]
  simpa using hab

theorem entryDirectory_liesIn (id : ModelIdentity) :
    c.modelsDirectory.LiesIn (c.entryDirectory id) id.name :=
  Path.liesIn_join id.isSegment (by simp [modelsDirectory, Path.join])

theorem lockFile_liesIn (id : ModelIdentity) :
    c.locksDirectory.LiesIn (c.lockFile id) (id.name ++ ".lock") :=
  Path.liesIn_join id.isSegment_lock (by simp [locksDirectory, Path.join])

end Cache

namespace ModelIdentity

theorem ofName_eq_ok_iff : ofName s = .ok id ↔ s = id.name := by
  constructor
  · intro h
    unfold ofName at h
    split at h
    case isTrue hs =>
      rw [Except.ok.injEq] at h
      rw [← h]
    case isFalse => split at h <;> simp at h
  · rintro rfl
    simp [ofName, id.safe]

theorem splitAtSlash_eq_some {cs space name : List Char} (h : splitAtSlash cs = some (space, name)) :
    cs = space ++ '/' :: name := by
  induction cs generalizing space with
  | nil => simp [splitAtSlash] at h
  | cons c cs ih =>
    unfold splitAtSlash at h
    split at h
    case isTrue hc =>
      obtain ⟨rfl, rfl⟩ := Prod.mk.inj (Option.some.inj h)
      simp [hc]
    case isFalse =>
      obtain ⟨⟨a, b⟩, hab, heq⟩ := Option.map_eq_some_iff.mp h
      obtain ⟨rfl, rfl⟩ := Prod.mk.inj heq
      rw [ih hab, List.cons_append]

theorem splitAtSlash_append {space : List Char} (h : ∀ c ∈ space, c ≠ '/') (name : List Char) :
    splitAtSlash (space ++ '/' :: name) = some (space, name) := by
  induction space with
  | nil => simp [splitAtSlash]
  | cons c cs ih =>
    simp [splitAtSlash, h c (by simp), ih fun c hc => h c (List.mem_cons_of_mem _ hc)]

theorem ofKey_eq_ok_iff {k : String} : ofKey k = .ok id ↔ k = id.key := by
  constructor
  · intro h
    unfold ofKey at h
    split at h
    case h_1 space name hsplit =>
      split at h
      case isTrue hspace =>
        have hk := splitAtSlash_eq_some hsplit
        rw [ofName_eq_ok_iff] at h
        rw [key, ← hspace, ← h, ← String.toList_inj, hk]
        simp
      case isFalse => simp at h
    case h_2 => simp at h
  · rintro rfl
    have hsplit : splitAtSlash id.key.toList = some (modelNamespace.toList, id.name.toList) := by
      rw [show id.key.toList = modelNamespace.toList ++ '/' :: id.name.toList by simp [key]]
      exact splitAtSlash_append (by simp [modelNamespace]) _
    simp only [ofKey, hsplit, String.ofList_toList, if_true]
    exact ofName_eq_ok_iff.mpr rfl

theorem ofName_isOk_iff : (ofName s).isOk = true ↔ IsSafeName s := by
  constructor
  · intro h
    cases hr : ofName s with
    | ok id => exact ofName_eq_ok_iff.mp hr ▸ id.safe
    | error e => simp [hr, Except.isOk, Except.toBool] at h
  · intro h
    have hs : ofName s = .ok ⟨s, h⟩ := ofName_eq_ok_iff.mpr rfl
    rw [hs]
    rfl

theorem ofKey_isOk_iff {k : String} : (ofKey k).isOk = true ↔
    ∃ s, k = modelNamespace ++ "/" ++ s ∧ IsSafeName s := by
  constructor
  · intro h
    cases hr : ofKey k with
    | ok id => exact ⟨id.name, ofKey_eq_ok_iff.mp hr, id.safe⟩
    | error e => simp [hr, Except.isOk, Except.toBool] at h
  · rintro ⟨s, rfl, hs⟩
    have h : ofKey (modelNamespace ++ "/" ++ s) = .ok ⟨s, hs⟩ := ofKey_eq_ok_iff.mpr rfl
    rw [h]
    rfl

/-- Identities are the names that are not empty and hold only ASCII letters, digits, `_` and `-`; a
key is `model/` and such a name. So the entry of a model lies right in the directory of the models
and its lock file in that of the locks, both directories lie right in the root, nothing of it lies
in that for builds, and no two models share one. -/
theorem identities_are_safe_names (c : Cache) :
    (∀ s, (ofName s).isOk = true ↔ s ≠ "" ∧ ∀ ch ∈ s.toList, IsNameLetter ch) ∧
    (∀ s id, ofName s = .ok id → id.name = s) ∧
    (∀ k, (ofKey k).isOk = true ↔
      ∃ s, k = "model/" ++ s ∧ s ≠ "" ∧ ∀ ch ∈ s.toList, IsNameLetter ch) ∧
    (∀ k id, ofKey k = .ok id → id.key = k ∧ toString id = k) ∧
    (∀ id, ofKey (key id) = .ok id) ∧
    (∀ id : ModelIdentity, c.modelsDirectory.LiesIn (c.entryDirectory id) id.name ∧
      c.locksDirectory.LiesIn (c.lockFile id) (id.name ++ ".lock") ∧
      ∀ p ∈ [c.entryDirectory id, c.lockFile id],
        ¬Path.textComponents c.stagingDirectory.text <+: Path.textComponents p.text) ∧
    Path.textComponents c.modelsDirectory.text = Path.textComponents c.root.text ++ [.name "model"] ∧
    Path.textComponents c.locksDirectory.text = Path.textComponents c.root.text ++ [.name ".locks"] ∧
    ∀ a b, a ≠ b →
      Path.textComponents (c.entryDirectory a).text ≠ Path.textComponents (c.entryDirectory b).text ∧
      Path.textComponents (c.lockFile a).text ≠ Path.textComponents (c.lockFile b).text := by
  have hmodel : IsSegment modelNamespace := ⟨by decide, by simp [modelNamespace]⟩
  have hstaging : IsSegment ".staging" := ⟨by decide, by simp⟩
  have hlocks : IsSegment ".locks" := ⟨by decide, by simp⟩
  refine ⟨fun s => ofName_isOk_iff.trans isSafeName_iff, fun s id h => (ofName_eq_ok_iff.mp h).symm,
    fun k => ?_, fun k id h => ?_, fun id => ofKey_eq_ok_iff.mpr rfl, fun id => ?_,
    c.components_directory hmodel, c.components_directory hlocks, fun a b hab => ⟨?_, ?_⟩⟩
  · simp only [ofKey_isOk_iff, isSafeName_iff]
    rfl
  · exact ⟨(ofKey_eq_ok_iff.mp h).symm, (ofKey_eq_ok_iff.mp h).symm⟩
  · refine ⟨c.entryDirectory_liesIn id, c.lockFile_liesIn id, ?_⟩
    simp only [List.forall_mem_cons, List.not_mem_nil, false_implies, implies_true, and_true]
    exact ⟨c.not_prefix_of_ne hstaging hmodel (by decide) (c.entryDirectory_liesIn id),
      c.not_prefix_of_ne hstaging hlocks (by decide) (c.lockFile_liesIn id)⟩
  · rw [(c.entryDirectory_liesIn a).components, (c.entryDirectory_liesIn b).components]
    intro h
    have hname : a.name = b.name := by simpa using h
    exact hab (eq_of_name hname)
  · rw [(c.lockFile_liesIn a).components, (c.lockFile_liesIn b).components]
    intro h
    have hname : a.name ++ ".lock" = b.name ++ ".lock" := by simpa using h
    exact hab (eq_of_name (String.append_left_inj _ |>.mp hname))

end ModelIdentity

def IsIdentifierStart (c : Char) : Prop :=
  ('a' ≤ c ∧ c ≤ 'z') ∨ ('A' ≤ c ∧ c ≤ 'Z') ∨ c = '_'

def IsIdentifier (s : String) : Prop :=
  ∃ c cs, s.toList = c :: cs ∧ IsIdentifierStart c ∧
    ∀ d ∈ cs, IsIdentifierStart d ∨ ('0' ≤ d ∧ d ≤ '9')

def StartsWithDigit (s : String) : Prop := ∃ c cs, s.toList = c :: cs ∧ '0' ≤ c ∧ c ≤ '9'

theorem not_startsWithDigit_underscore (s : String) : ¬StartsWithDigit ("_" ++ s) := by
  rintro ⟨c, cs, h, -, hc⟩
  rw [String.toList_append] at h
  obtain rfl : '_' = c := (List.cons.inj h).1
  exact absurd hc (by decide)

namespace ModelIdentity

def underscored (id : ModelIdentity) : String :=
  String.ofList (id.name.toList.map fun c => if c = '-' then '_' else c)

theorem underscored_letters (id : ModelIdentity) : ∃ c cs, id.underscored.toList = c :: cs ∧
    ∀ d ∈ c :: cs, IsIdentifierStart d ∨ ('0' ≤ d ∧ d ≤ '9') := by
  obtain ⟨hne, hletters⟩ := isSafeName_iff.mp id.safe
  obtain ⟨c, cs, hcs⟩ := List.exists_cons_of_ne_nil (show id.name.toList ≠ [] by simpa using hne)
  refine ⟨_, _, by rw [underscored, String.toList_ofList, hcs, List.map_cons], fun d hd => ?_⟩
  rw [← List.map_cons (f := fun c => if c = '-' then '_' else c), ← hcs] at hd
  obtain ⟨c', hc', rfl⟩ := List.mem_map.mp hd
  split
  · exact .inl (.inr (.inr rfl))
  · rcases hletters c' hc' with h | h | h | h | h
    · exact .inl (.inl h)
    · exact .inl (.inr (.inl h))
    · exact .inr h
    · exact .inl (.inr (.inr h))
    · exact absurd h ‹_›

variable {a b : ModelIdentity}

theorem translatorName_of_digit (h : StartsWithDigit id.underscored) :
    id.translatorName = "_" ++ id.underscored ++ "_model" := by
  obtain ⟨c, cs, hcs, hc⟩ := h
  rw [underscored, String.toList_ofList] at hcs
  have hdigit : c.isDigit = true := (isDigit_iff c).mpr hc
  simp [translatorName, underscored, hcs, hdigit]

theorem translatorName_of_not_digit (h : ¬StartsWithDigit id.underscored) :
    id.translatorName = id.underscored ++ "_model" := by
  obtain ⟨c, cs, hcs, -⟩ := id.underscored_letters
  have hdigit : c.isDigit = false := by
    rw [← Bool.not_eq_true]
    exact fun hc => h ⟨c, cs, hcs, (isDigit_iff c).mp hc⟩
  rw [underscored, String.toList_ofList] at hcs
  simp [translatorName, underscored, hcs, hdigit]

theorem isIdentifier_translatorName (id : ModelIdentity) : IsIdentifier id.translatorName := by
  obtain ⟨c, cs, hcs, hletters⟩ := id.underscored_letters
  have hmodel : ∀ d ∈ "_model".toList, IsIdentifierStart d ∨ ('0' ≤ d ∧ d ≤ '9') := by
    simp [IsIdentifierStart]
  have hrest : ∀ d ∈ cs ++ "_model".toList, IsIdentifierStart d ∨ ('0' ≤ d ∧ d ≤ '9') :=
    List.forall_mem_append.mpr ⟨fun d hd => hletters d (List.mem_cons_of_mem c hd), hmodel⟩
  by_cases h : StartsWithDigit id.underscored
  · refine ⟨'_', c :: cs ++ "_model".toList, ?_, .inr (.inr rfl), ?_⟩
    · simp [translatorName_of_digit h, hcs]
    · rw [List.cons_append, List.forall_mem_cons]
      exact ⟨hletters c List.mem_cons_self, hrest⟩
  · refine ⟨c, cs ++ "_model".toList, ?_, ?_, hrest⟩
    · simp [translatorName_of_not_digit h, hcs]
    · exact (hletters c List.mem_cons_self).resolve_right fun hc => h ⟨c, cs, hcs, hc⟩

theorem translatorName_eq_iff : a.translatorName = b.translatorName ↔
    a.underscored = b.underscored ∨
    (StartsWithDigit a.underscored ∧ b.underscored = "_" ++ a.underscored) ∨
    (StartsWithDigit b.underscored ∧ a.underscored = "_" ++ b.underscored) := by
  have hguard {s t : String} (hs : StartsWithDigit s) : s ≠ "_" ++ t := fun h =>
    not_startsWithDigit_underscore t (h ▸ hs)
  by_cases ha : StartsWithDigit a.underscored <;> by_cases hb : StartsWithDigit b.underscored
  · rw [translatorName_of_digit ha, translatorName_of_digit hb, String.append_left_inj,
      String.append_right_inj]
    simp [hguard ha, hguard hb]
  · rw [translatorName_of_digit ha, translatorName_of_not_digit hb, String.append_left_inj]
    have hne : a.underscored ≠ b.underscored := fun h => hb (h ▸ ha)
    simp [ha, hb, hne, eq_comm]
  · rw [translatorName_of_not_digit ha, translatorName_of_digit hb, String.append_left_inj]
    have hne : a.underscored ≠ b.underscored := fun h => ha (h ▸ hb)
    simp [ha, hb, hne]
  · rw [translatorName_of_not_digit ha, translatorName_of_not_digit hb, String.append_left_inj]
    simp [ha, hb]

/-- What the translator is given is an identifier that ends in `_model`, and it tells two models
apart unless their names differ in `-` and `_` only, or by a `_` in front of a digit. -/
theorem translator_names :
    (∀ id : ModelIdentity, IsIdentifier id.translatorName ∧ ∃ s, id.translatorName = s ++ "_model") ∧
    ∀ a b : ModelIdentity, a.translatorName = b.translatorName ↔
      a.underscored = b.underscored ∨
      (StartsWithDigit a.underscored ∧ b.underscored = "_" ++ a.underscored) ∨
      (StartsWithDigit b.underscored ∧ a.underscored = "_" ++ b.underscored) := by
  refine ⟨fun id => ⟨id.isIdentifier_translatorName, ?_⟩, fun a b => translatorName_eq_iff⟩
  by_cases h : StartsWithDigit id.underscored
  · exact ⟨_, translatorName_of_digit h⟩
  · exact ⟨_, translatorName_of_not_digit h⟩

end ModelIdentity

end CompiledModels
