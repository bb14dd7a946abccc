import CompiledModels.Manifest
import CompiledModels.Proofs.Json.Meaning
import CompiledModels.Proofs.Json.Skipping
import CompiledModels.Proofs.Publication
import CompiledModels.Proofs.Reading

/-!
What is written is read back: texts from their bytes, and manifests from their texts, in whatever
order their fields stand and whatever other fields stand among them.
-/

namespace CompiledModels

theorem Text.decode_encode (s : String) : Text.decode? (Text.encode s) = some s := by
  have hbytes : (⟨s.toUTF8.data.toList.toArray⟩ : ByteArray) = s.toUTF8 := by
    rw [Array.toArray_toList]
  have hvalid : s.toUTF8.IsValidUTF8 := s.isValidUTF8
  rw [Text.decode?, Text.encode, hbytes, String.fromUTF8?, dif_pos hvalid]
  rfl

namespace Json

variable {t : List Char} {v : Value}

theorem commas_cons (t : List Char) {ts : List (List Char)} (h : ts ≠ []) :
    commas (t :: ts) = t ++ ',' :: commas ts := by
  cases ts with
  | nil => exact absurd rfl h
  | cons u ts => rfl

theorem Spells.spaces {after : List Char} (h : Spells t v) (ha : Spaces after) :
    Spells (t ++ after) v := by
  induction after generalizing t with
  | nil => simpa using h
  | cons c after ih =>
    have hc := ha c List.mem_cons_self
    simpa using ih (.after hc h) fun d hd => ha d (List.mem_cons_of_mem _ hd)

theorem Spells.readText (h : Spells t v) {s : String} (hv : v = .string s) :
    ∃ ws, Spaces ws ∧ ∀ rest, EndsNumber rest → readText (t ++ rest) = .ok (s, ws ++ rest) := by
  induction h with
  | @string t s' h =>
    obtain rfl := Value.string.inj hv
    refine ⟨[], Spaces.nil, fun rest _ => ?_⟩
    have happ : '"' :: (t ++ ['"']) ++ rest = '"' :: (t ++ '"' :: rest) := by simp
    rw [happ, Json.readText, skipSpace_cons (by decide)]
    exact readString_writes h rest
  | @before c cs v hc h ih =>
    obtain ⟨ws, hws, hread⟩ := ih hv
    refine ⟨ws, hws, fun rest hr => ?_⟩
    have hspace : skipSpace (c :: cs ++ rest) = skipSpace (cs ++ rest) := by simp [skipSpace, hc]
    have hrest := hread rest hr
    rw [Json.readText] at hrest ⊢
    rwa [hspace]
  | @after c cs v hc h ih =>
    obtain ⟨ws, hws, hread⟩ := ih hv
    have hspaces : Spaces [c] := by simpa [Spaces] using hc
    refine ⟨ws ++ [c], hws.append hspaces, fun rest hr => ?_⟩
    simpa using hread ([c] ++ rest) (hr.spaces hspaces)
  | _ => cases hv

theorem Spells.readUnsigned (h : Spells t v) {n : UInt64} (hv : v = .number (.natural n))
    {bits : Nat} (hn : n.toNat < 2 ^ bits) :
    ∃ ws, Spaces ws ∧ ∀ rest, EndsNumber rest →
      readUnsigned bits (t ++ rest) = .ok (n.toNat, ws ++ rest) := by
  induction h with
  | natural n' =>
    obtain rfl := Number.natural.inj (Value.number.inj hv)
    refine ⟨[], Spaces.nil, fun rest hr => ?_⟩
    have hread := readNumber_append hr (readNumber_natural n')
    obtain ⟨d, ds, hds, hd⟩ := toDigits_head n'.toNat
    rw [hds, List.cons_append] at hread ⊢
    rw [Json.readUnsigned, skipSpace_cons (isSpace_digit hd).1]
    simp only [hd, or_true, if_true, hread, bind, Except.bind, if_pos hn]
    rfl
  | @before c cs v hc h ih =>
    obtain ⟨ws, hws, hread⟩ := ih hv
    refine ⟨ws, hws, fun rest hr => ?_⟩
    have hspace : skipSpace (c :: cs ++ rest) = skipSpace (cs ++ rest) := by simp [skipSpace, hc]
    have hrest := hread rest hr
    rw [Json.readUnsigned] at hrest ⊢
    rwa [hspace]
  | @after c cs v hc h ih =>
    obtain ⟨ws, hws, hread⟩ := ih hv
    have hspaces : Spaces [c] := by simpa [Spaces] using hc
    refine ⟨ws ++ [c], hws.append hspaces, fun rest hr => ?_⟩
    simpa using hread ([c] ++ rest) (hr.spaces hspaces)
  | _ => cases hv

end Json

namespace Manifest

open Json

variable (m : Manifest) {f : Field} {had : Field → Bool}

def value : Field → Value
  | .identity => .string m.identity
  | .moduleFile => .string m.moduleFile
  | .sourceDigest => .string m.sourceDigest
  | .compiler => .string m.compiler
  | .created => .number (.natural m.created)
  | .abi => .number (.natural m.abi.toUInt64)

def draft (had : Field → Bool) : Draft where
  identity := if had .identity then some m.identity else none
  moduleFile := if had .moduleFile then some m.moduleFile else none
  sourceDigest := if had .sourceDigest then some m.sourceDigest else none
  compiler := if had .compiler then some m.compiler else none
  created := if had .created then some m.created else none
  abi := if had .abi then some m.abi else none

theorem has_draft : (m.draft had).has f = had f := by
  cases f <;> cases h : had _ <;> simp [draft, Draft.has, h]

theorem draft_complete (h : ∀ f, had f = true) : (m.draft had).complete? = some m := by
  simp [draft, h, Draft.complete?]

theorem ofName_name (f : Field) : Field.ofName? f.name = some f := by
  cases f <;> decide

theorem readField_spells (had : Field → Bool) {t : List Char} (h : Spells t (m.value f)) :
    ∃ ws, Spaces ws ∧ ∀ rest, EndsNumber rest → (m.draft had).readField f (t ++ rest) =
      .ok (m.draft fun g => had g || f == g, ws ++ rest) := by
  cases f with
  | created =>
    obtain ⟨ws, hws, hread⟩ := h.readUnsigned rfl m.created.toNat_lt
    refine ⟨ws, hws, fun rest hr => ?_⟩
    simp only [Draft.readField, hread rest hr, bind, Except.bind, UInt64.ofNat_toNat]
    simp [draft]
    rfl
  | abi =>
    have habi : m.abi.toUInt64.toNat = m.abi.toNat := UInt32.toNat_toUInt64 m.abi
    obtain ⟨ws, hws, hread⟩ := h.readUnsigned rfl (habi ▸ m.abi.toNat_lt)
    refine ⟨ws, hws, fun rest hr => ?_⟩
    simp only [Draft.readField, hread rest hr, bind, Except.bind, habi, UInt32.ofNat_toNat]
    simp [draft]
    rfl
  | _ =>
    obtain ⟨ws, hws, hread⟩ := h.readText rfl
    refine ⟨ws, hws, fun rest hr => ?_⟩
    simp only [Draft.readField, hread rest hr, bind, Except.bind]
    simp [draft]
    rfl

/-- A member of an object that a manifest may be read from: a field of the manifest with its value,
or one of another name with any value. -/
structure Suits (x : Member) : Prop where
  proper : x.Proper
  own : ∀ f, Field.ofName? x.key = some f → Spells x.text (m.value f)
  other : Field.ofName? x.key = none → Formed x.text

def pending (xs : List Member) : List Field := xs.filterMap fun x => Field.ofName? x.key

def known (xs : List Member) : Draft := m.draft fun f => !(pending xs).contains f

theorem readFields_member {x : Member} {xs : List Member} (hx : m.Suits x)
    (hn : (pending (x :: xs)).Nodup) {first : Bool} {cs rest : List Char}
    (hkey : readKey first cs = .ok (some x.key, x.between ++ ':' :: (x.text ++ rest)))
    (hr : EndsNumber rest) (fuel : Nat) :
    ∃ ws, Spaces ws ∧ (m.known (x :: xs)).readFields (fuel + 1) first cs =
      (m.known xs).readFields fuel false (ws ++ rest) := by
  have hcolon := readColon_between hx.proper (x.text ++ rest)
  cases hname : Field.ofName? x.key with
  | none =>
    obtain ⟨ws, hws, hskip⟩ := (hx.other hname).skipValue
    refine ⟨ws, hws, ?_⟩
    have hsame : pending (x :: xs) = pending xs := by simp [pending, hname]
    simp only [Draft.readFields, hkey, bind, Except.bind, hname, hcolon, hskip rest hr, known, hsame]
  | some f =>
    have hcons : pending (x :: xs) = f :: pending xs := by simp [pending, hname]
    obtain ⟨ws, hws, hread⟩ := m.readField_spells (fun g => !(f :: pending xs).contains g)
      (hx.own f hname)
    have hnot : f ∉ pending xs := (List.nodup_cons.mp (hcons ▸ hn)).1
    have hnext : (fun g => !(f :: pending xs).contains g || f == g) =
        fun g => !(pending xs).contains g := by
      funext g
      by_cases hg : f = g
      · subst hg
        simp [hnot]
      · simp [hg, Ne.symm hg]
    refine ⟨ws, hws, ?_⟩
    rw [known, hcons]
    simp only [Draft.readFields, hkey, bind, Except.bind, hname, has_draft, hcolon, hread rest hr,
      hnext]
    simp [known]

theorem readFields_follow {xs : List Member} (hx : ∀ x ∈ xs, m.Suits x) (hn : (pending xs).Nodup)
    {ws : List Char} (hws : Spaces ws) (rest : List Char) {fuel : Nat} (hf : xs.length < fuel) :
    (m.known xs).readFields fuel false (ws ++ follow ('}' :: rest) (xs.map (·.chars))) =
      .ok (m, rest) := by
  induction xs generalizing ws fuel with
  | nil =>
    obtain ⟨fuel, rfl⟩ := Nat.exists_eq_add_one_of_ne_zero (Nat.ne_zero_of_lt hf)
    have hkey : readKey false (ws ++ '}' :: rest) = .ok (none, rest) :=
      readKey_end false (skipSpace_append hws _)
    have hcomplete : (m.known []).complete? = some m := m.draft_complete fun f => rfl
    simp only [Draft.readFields, List.map_nil, follow, hkey, bind, Except.bind, hcomplete]
    rfl
  | cons x xs ih =>
    obtain ⟨fuel, rfl⟩ := Nat.exists_eq_add_one_of_ne_zero (Nat.ne_zero_of_lt hf)
    have hsuits := hx x List.mem_cons_self
    have hkey := readKey_follow hsuits.proper hws (xs.map (·.chars)) ('}' :: rest)
    have hends : EndsNumber (follow ('}' :: rest) (xs.map (·.chars))) :=
      (endsNumber_of_mem (by simp) rest).follow _
    obtain ⟨ws', hws', hstep⟩ := m.readFields_member hsuits hn hkey hends fuel
    have htail : (pending xs).Nodup := hn.sublist ((List.sublist_cons_self x xs).filterMap _)
    have hlen : xs.length < fuel := by simpa using hf
    rw [List.map_cons, hstep]
    exact ih (fun y hy => hx y (List.mem_cons_of_mem _ hy)) htail hws' hlen

/-- The text is an object of the fields of the manifest, in any order, and of fields of other
names, with white space anywhere. -/
structure Told (s : String) : Prop where
  told : ∃ before ws after xs, Spaces before ∧ Spaces ws ∧ Spaces after ∧
    s.toList = before ++ (objectChars ws (xs.map (·.chars)) ++ after) ∧
    (∀ x ∈ xs, m.Suits x) ∧ (pending xs).Perm Field.all

theorem ofText_told {s : String} (h : m.Told s) : ofText s = .ok m := by
  obtain ⟨before, ws, after, xs, hbefore, hws, hafter, hs, hx, hp⟩ := h.told
  have hn : (pending xs).Nodup := hp.nodup_iff.mpr (by decide)
  have hempty : m.known xs = .empty := by
    have hall (f : Field) : f ∈ pending xs := hp.mem_iff.mpr (by cases f <;> decide)
    simp [known, draft, hall, Draft.empty]
  have hopen : skipSpace s.toList =
      '{' :: (ws ++ (commas (xs.map (·.chars)) ++ '}' :: after)) := by
    rw [hs, skipSpace_append hbefore, objectChars, List.cons_append, skipSpace_cons (by decide)]
    simp
  have hlen : xs.length ≤ (ws ++ (commas (xs.map (·.chars)) ++ '}' :: after)).length := by
    have hitems := length_le_commas (xs.map (·.chars)) (by simp [Member.chars])
    simp only [List.length_append, List.length_map] at hitems ⊢
    omega
  cases xs with
  | nil => exact absurd hp (by decide)
  | cons x xs =>
    have hsuits := hx x List.mem_cons_self
    have hends : EndsNumber (follow ('}' :: after) (xs.map (·.chars))) :=
      (endsNumber_of_mem (by simp) after).follow _
    have hkey := readKey_first hsuits.proper hws (follow ('}' :: after) (xs.map (·.chars)))
    rw [List.map_cons, commas_append] at hopen hlen
    obtain ⟨ws', hws', hstep⟩ := m.readFields_member hsuits hn hkey hends _
    have htail : (pending xs).Nodup := hn.sublist ((List.sublist_cons_self x xs).filterMap _)
    have hread := m.readFields_follow (fun y hy => hx y (List.mem_cons_of_mem _ hy)) htail hws'
      after (Nat.lt_of_succ_le hlen)
    rw [← hstep, hempty] at hread
    simp only [ofText, readValue, hopen, hread, bind, Except.bind, readEnd_spaces hafter]
    rfl

def line (f : Field) (after : List Char) : Member :=
  ⟨"\n  ".toList, f.name.toList.flatMap escapeChar, [], ' ' :: (m.fieldText f ++ after), f.name⟩

def lines : List Field → List Member
  | [] => []
  | [f] => [m.line f ['\n']]
  | f :: fs => m.line f [] :: lines fs

theorem line_chars (f : Field) (after : List Char) : (m.line f after).chars =
    "\n  ".toList ++ stringText f.name ++ ": ".toList ++ m.fieldText f ++ after := by
  simp [line, Member.chars, stringText]

theorem fieldLines_step (f : Field) (fs : List Field) : m.fieldLines (f :: fs) =
    "\n  ".toList ++ stringText f.name ++ ": ".toList ++ m.fieldText f ++
      (if fs.isEmpty then [] else [',']) ++ m.fieldLines fs := rfl

theorem fieldLines_cons (f : Field) (fs : List Field) :
    m.fieldLines (f :: fs) ++ ['\n'] = commas ((m.lines (f :: fs)).map (·.chars)) := by
  induction fs generalizing f with
  | nil =>
    have hnil : m.fieldLines [] = [] := rfl
    simp [fieldLines_step, hnil, lines, line_chars, commas]
  | cons g fs ih =>
    have hlines : m.lines (f :: g :: fs) = m.line f [] :: m.lines (g :: fs) := rfl
    have hne : (m.lines (g :: fs)).map (·.chars) ≠ [] := by
      cases fs <;> simp [lines]
    rw [hlines, List.map_cons, commas_cons _ hne, ← ih g, line_chars, fieldLines_step]
    simp

theorem lines_keys (fs : List Field) : (m.lines fs).map (·.key) = fs.map Field.name := by
  fun_induction lines m fs with
  | case1 => rfl
  | case2 f => rfl
  | case3 f fs hne ih => rw [List.map_cons, List.map_cons, ih]; rfl

theorem mem_lines {x : Member} {fs : List Field} (h : x ∈ m.lines fs) :
    ∃ f after, Spaces after ∧ x = m.line f after := by
  fun_induction lines m fs with
  | case1 => simp at h
  | case2 f => exact ⟨f, ['\n'], by simp [Spaces, isSpace], List.mem_singleton.mp h⟩
  | case3 f fs hne ih =>
    rcases List.mem_cons.mp h with rfl | h
    · exact ⟨f, [], Spaces.nil, rfl⟩
    · exact ih h

theorem fieldText_spells (f : Field) : Spells (m.fieldText f) (m.value f) := by
  cases f with
  | created =>
    have h := Spells.natural m.created
    rw [← toList_toString] at h
    exact h
  | abi =>
    have habi : m.abi.toUInt64.toNat = m.abi.toNat := UInt32.toNat_toUInt64 m.abi
    have h := Spells.natural m.abi.toUInt64
    rw [habi, ← toList_toString] at h
    exact h
  | _ => exact .string (Writes.escaped _)

theorem line_suits (f : Field) {after : List Char} (ha : Spaces after) :
    m.Suits (m.line f after) where
  proper := ⟨by simp [line, Spaces, isSpace], Writes.escaped _, Spaces.nil⟩
  own g hg := by
    obtain rfl := Option.some.inj ((ofName_name f).symm.trans hg)
    exact .before (by decide) ((m.fieldText_spells f).spaces ha)
  other h := by
    have hsome := ofName_name f
    exact absurd (hsome.symm.trans h) (by simp)

theorem text_told : m.Told m.text := by
  refine ⟨[], [], [], m.lines Field.all, Spaces.nil, Spaces.nil, Spaces.nil, ?_, ?_, ?_⟩
  · have hlines := m.fieldLines_cons .identity [.moduleFile, .sourceDigest, .compiler, .created, .abi]
    rw [text, String.toList_ofList, objectChars]
    simp [← hlines, Field.all]
  · intro x hx
    obtain ⟨f, after, ha, rfl⟩ := m.mem_lines hx
    exact m.line_suits f ha
  · have hpending : pending (m.lines Field.all) =
        ((m.lines Field.all).map (·.key)).filterMap Field.ofName? := by
      rw [pending, List.filterMap_map]
      rfl
    rw [hpending, lines_keys]
    decide

theorem ofText_text : ofText m.text = .ok m := m.ofText_told m.text_told

end Manifest

end CompiledModels

namespace CompiledModels

open Files Json

variable {machine : Machine} {w : World} {c : Cache} {id : ModelIdentity} {m : Manifest} {s : String}

theorem World.text_of_read {p : Path} (h : w.files.read w.directory p = .ok (Text.encode s)) :
    w.text p = .ok s := by
  rw [World.text, h]
  simp only [Text.decode_encode]
  rfl

theorem World.manifest_of_told (hdir : w.isDirectory (c.entryDirectory id) = true)
    (hread : w.files.read w.directory ((c.entryDirectory id).join Cache.manifestFile) =
      .ok (Text.encode s)) (hs : m.Told s) : w.manifest c id = .ok m := by
  have hartifact : w.artifact c id Cache.manifestFile "manifest" = .ok s := by
    rw [World.artifact, if_pos hdir, World.text_of_read hread]
    rfl
  rw [World.manifest, hartifact]
  simp only [m.ofText_told hs]
  rfl

namespace Manifest

/-- The text that is written of a manifest tells its fields, and from the file of an entry every text
that tells them is read as this manifest. -/
theorem loaded_from_told (m : Manifest) : m.Told m.text ∧
    ∀ (s : String) (machine : Machine) (w : World) (c : Cache) (id : ModelIdentity), m.Told s →
      w.isDirectory (c.entryDirectory id) = true →
      w.files.read w.directory ((c.entryDirectory id).join Cache.manifestFile) =
        .ok (Text.encode s) →
      (c.loadManifest id).run.Sees machine w (.ok m) := by
  refine ⟨m.text_told, fun s machine w c id hs hdir hread => ?_⟩
  have hsees := c.loadManifest_sees id (m := machine) (w := w)
  rwa [World.manifest_of_told hdir hread hs] at hsees

def smallMembers : List Member :=
  [⟨[], "abi_version".toList, [], ['5'], "abi_version"⟩,
    ⟨[' '], "created".toList, [' '], [' ', '0'], "created"⟩,
    ⟨[], "compiler".toList, [], "\"g\\u002b+\"".toList, "compiler"⟩,
    ⟨[], "note".toList, [], "[1e9,\x7b\"identity\":null\x7d]".toList, "note"⟩,
    ⟨[], "source_sha256".toList, [], "\"0\"".toList, "source_sha256"⟩,
    ⟨[], "module_file".toList, [], "\"stanbind_model_m_1.so\"".toList, "module_file"⟩,
    ⟨[], "identity".toList, [], "\"model/m\"".toList, "identity"⟩]

def smallTurned : String := String.ofList (objectChars [] (smallMembers.map (·.chars)) ++ ['\n'])

instance (c : Char) : Decidable (IsPlain c) := inferInstanceAs (Decidable (_ ∧ _ ∧ _))

instance (cs : List Char) : Decidable (Spaces cs) := 
  decidable_of_iff (cs.all isSpace = true) List.all_eq_true

theorem writes_plain {t : List Char} (h : t.all (IsPlain ·) = true) : Writes t t := by
  induction t with
  | nil => exact .nil
  | cons c t ih =>
    simp only [List.all_cons, Bool.and_eq_true, decide_eq_true_eq] at h
    exact .plain h.1 (ih h.2)

theorem quotable_plain {t : List Char} (h : t.all (IsPlain ·) = true) : Quotable t := by
  induction t with
  | nil => exact .nil
  | cons c t ih =>
    simp only [List.all_cons, Bool.and_eq_true, decide_eq_true_eq] at h
    exact .plain h.1 (ih h.2)

theorem note_formed : Formed "[1e9,\x7b\"identity\":null\x7d]".toList := by
  have hdigits {d : Char} (h : d.isDigit = true) : IsDigits [d] := ⟨by simp, by simpa using h⟩
  have hnumber : Formed ['1', 'e', '9'] :=
    .number (n := ⟨[], ['1'], [], ['e', '9']⟩) ⟨.inl rfl, .inr ⟨hdigits rfl, by decide⟩, .inl rfl,
      .inr ⟨'e', by decide, [], by decide, ['9'], hdigits rfl, rfl⟩⟩
  have hobject : Formed "\x7b\"identity\":null\x7d".toList := by
    refine .object Spaces.nil [⟨[], "identity".toList, [], "null".toList, "identity"⟩]
      (fun f hf => ?_) fun f hf => ?_
    · obtain rfl := List.mem_singleton.mp hf
      exact ⟨by decide, quotable_plain (by decide), by decide⟩
    · obtain rfl := List.mem_singleton.mp hf
      exact .null
  refine .list Spaces.nil [['1', 'e', '9'], "\x7b\"identity\":null\x7d".toList] fun t ht => ?_
  simp only [List.mem_cons, List.not_mem_nil, or_false] at ht
  rcases ht with rfl | rfl
  · exact hnumber
  · exact hobject

theorem smallTurned_told : small.Told smallTurned := by
  have hproper : ∀ x ∈ smallMembers, x.Proper := by
    have hkeys : ∀ x ∈ smallMembers, Spaces x.before ∧ Spaces x.between ∧
        x.keyText = x.key.toList ∧ x.keyText.all (IsPlain ·) = true := by decide +kernel
    intro x hx
    obtain ⟨hbefore, hbetween, hkey, hplain⟩ := hkeys x hx
    exact ⟨hbefore, hkey ▸ writes_plain hplain, hbetween⟩
  have hcompiler : Spells "\"g\\u002b+\"".toList (.string "g++") :=
    have hplus : IsUnit ['0', '0', '2', 'b'] 0x2b := ⟨rfl, by decide⟩
    have hwrites : Writes "g\\u002b+".toList "g++".toList :=
      .plain (by decide) (.unit hplus (by decide) (.plain (by decide) .nil))
    .string hwrites
  have hplain (s : String) (h : s.toList.all (IsPlain ·) = true) :
      Spells ('"' :: (s.toList ++ ['"'])) (.string s) := .string (writes_plain h)
  refine ⟨[], [], ['\n'], smallMembers, by decide, by decide, by decide, String.toList_ofList,
    fun x hx => ⟨hproper x hx, fun f hf => ?_, fun hn => ?_⟩, by decide +kernel⟩
  · simp only [smallMembers, List.mem_cons, List.not_mem_nil, or_false] at hx
    rcases hx with rfl | rfl | rfl | rfl | rfl | rfl | rfl
    · obtain rfl : f = .abi := Option.some.inj (hf.symm.trans (ofName_name .abi))
      exact .natural 5
    · obtain rfl : f = .created := Option.some.inj (hf.symm.trans (ofName_name .created))
      exact .before (by decide) (.natural 0)
    · obtain rfl : f = .compiler := Option.some.inj (hf.symm.trans (ofName_name .compiler))
      exact hcompiler
    · have hnone : Field.ofName? "note" = none := by decide
      exact absurd (hnone.symm.trans hf) (by simp)
    · obtain rfl : f = .sourceDigest := Option.some.inj (hf.symm.trans (ofName_name .sourceDigest))
      exact hplain "0" (by decide)
    · obtain rfl : f = .moduleFile := Option.some.inj (hf.symm.trans (ofName_name .moduleFile))
      exact hplain "stanbind_model_m_1.so" (by decide)
    · obtain rfl : f = .identity := Option.some.inj (hf.symm.trans (ofName_name .identity))
      exact hplain "model/m" (by decide)
  · have hnote : ∀ x ∈ smallMembers, Field.ofName? x.key = none →
        x.text = "[1e9,\x7b\"identity\":null\x7d]".toList := by decide +kernel
    rw [hnote x hx hn]
    exact note_formed

end Manifest

def World.turned : World :=
  .initial ⟨[(["c"], .directory), (["c", ModelIdentity.modelNamespace], .directory),
    (["c", ModelIdentity.modelNamespace, "m"], .directory),
    (["c", ModelIdentity.modelNamespace, "m", Cache.manifestFile],
      .file 0 ⟨Text.encode Manifest.smallTurned, 0⟩ false)], 1⟩ ⟨[], Site.path [], none, 1⟩ 0

theorem Manifest.loaded_from_told_turned : small.Told smallTurned ∧
    (Cache.loadManifest ⟨Site.path ["c"]⟩ .small).run.Sees .idle .turned (.ok small) :=
  ⟨smallTurned_told, (loaded_from_told small).2 smallTurned .idle .turned ⟨Site.path ["c"]⟩ .small
    smallTurned_told (by decide +kernel) (by decide +kernel)⟩

end CompiledModels
