import CompiledModels.Cache
import CompiledModels.Proofs.Files.Tree

/-!
The names of modules and of the texts beside them.
-/

namespace CompiledModels

open Files

theorem plain_of_head {s : String} {c : Char} {cs : List Char} (h : s.toList = c :: cs)
    (hc : c ≠ '.') : IsPlain s := by
  refine ⟨?_, ?_, ?_⟩ <;> rintro rfl
  · simp at h
  · rw [show ".".toList = ['.'] from rfl, List.cons.injEq] at h
    exact hc h.1.symm
  · rw [show "..".toList = ['.', '.'] from rfl, List.cons.injEq] at h
    exact hc h.1.symm

theorem plain_of_start {start : String} (h : start.toList.head?.any (· ≠ '.') = true) (s : String) :
    IsPlain (start ++ s) := by
  cases hl : start.toList with
  | nil => simp [hl] at h
  | cons c cs =>
    have hs : (start ++ s).toList = c :: (cs ++ s.toList) := by
      rw [String.toList_append, hl, List.cons_append]
    exact plain_of_head hs (by simpa [hl] using h)

theorem ne_of_head {a b : String} (h : a.toList.head? ≠ b.toList.head?) (ha : a ≠ "") (hb : b ≠ "")
    (s s' : String) : a ++ s ≠ b ++ s' := by
  intro he
  have hs := congrArg (fun s => s.toList.head?) he
  obtain ⟨x, xs, hx⟩ := List.exists_cons_of_ne_nil fun hn => ha (String.toList_inj.mp hn)
  obtain ⟨y, ys, hy⟩ := List.exists_cons_of_ne_nil fun hn => hb (String.toList_inj.mp hn)
  simp only [String.toList_append, hx, hy, List.cons_append, List.head?_cons] at hs h
  exact h hs

theorem ModelIdentity.plain_append (id : ModelIdentity) (s : String) : IsPlain (id.name ++ s) := by
  obtain ⟨hne, hall⟩ := id.safe
  cases hl : id.name.toList with
  | nil => exact absurd (String.toList_inj.mp (by simpa using hl)) hne
  | cons c cs =>
    have hs : (id.name ++ s).toList = c :: (cs ++ s.toList) := by
      rw [String.toList_append, hl, List.cons_append]
    refine plain_of_head hs ?_
    rintro rfl
    rw [hl] at hall
    simp [isNameChar] at hall

namespace ModuleFile

variable {name : String}

theorem exists_of_isName (h : isName name = true) : ∃ s, name = start ++ s := by
  simp only [isName, Bool.and_eq_true, String.startsWith_string_iff] at h
  obtain ⟨cs, hcs⟩ := h.1
  exact ⟨String.ofList cs, String.toList_inj.mp (by simp [hcs])⟩

theorem plain_of_isName (h : isName name = true) : IsPlain name := by
  obtain ⟨s, rfl⟩ := exists_of_isName h
  exact plain_of_start (by decide) s

theorem not_isName_of_mem_texts {output warnings : String} {m : Manifest}
    (hm : name ∈ (Cache.texts output warnings m).map (·.1)) : ¬isName name = true := by
  intro h
  have hne : ∀ s ∈ (Cache.texts output warnings m).map (·.1), ¬start.toList <+: s.toList := by
    simp only [Cache.texts, List.map_cons, List.map_nil]
    decide
  obtain ⟨s, rfl⟩ := exists_of_isName h
  exact hne _ hm (by simp)

theorem nodup_of_isName (h : isName name = true) (output warnings : String) (m : Manifest) :
    (name :: (Cache.texts output warnings m).map (·.1)).Nodup := by
  refine List.nodup_cons.mpr ⟨fun hm => not_isName_of_mem_texts hm h, ?_⟩
  simp only [Cache.texts, List.map_cons, List.map_nil]
  decide

end ModuleFile

theorem Text.splitAll_of_forall {α : Type} {p : α → Bool} {cs : List α} (h : ∀ c ∈ cs, p c = false) :
    Text.splitAll p cs = [cs] := by
  induction cs with
  | nil => rfl
  | cons c cs ih =>
    simp only [Text.splitAll, ih fun c hc => h c (List.mem_cons_of_mem _ hc), h c List.mem_cons_self,
      Bool.false_eq_true, if_false]

theorem Text.splitAll_append {α : Type} {p : α → Bool} {cs ds : List α} {c : α}
    (h : ∀ c ∈ cs, p c = false) (hc : p c = true) :
    Text.splitAll p (cs ++ c :: ds) = cs :: Text.splitAll p ds := by
  have hne (ds : List α) : ∃ w ws, Text.splitAll p ds = w :: ws := by
    cases ds with
    | nil => exact ⟨_, _, rfl⟩
    | cons d ds =>
      simp only [Text.splitAll]
      split
      · exact ⟨_, _, rfl⟩
      · split <;> exact ⟨_, _, rfl⟩
  obtain ⟨w, ws, hds⟩ := hne ds
  induction cs with
  | nil => simp [Text.splitAll, hds, hc]
  | cons c' cs ih =>
    rw [List.cons_append, Text.splitAll, ih fun c hc => h c (List.mem_cons_of_mem _ hc)]
    simp [h c' List.mem_cons_self]

def ModuleFile.isChar (c : Char) : Bool := c != '/' && c != '.'

theorem ModuleFile.isChar_hexDigit {n : Nat} (hn : n < 16) : isChar (Text.hexDigit n) = true := by
  have h : ∀ n : Fin 16, isChar (Text.hexDigit n) = true := by decide
  exact h ⟨n, hn⟩

theorem ModuleFile.isChar_buildNumber {source : String} {nanos processNumber : Nat} :
    ∀ c ∈ (Builder.buildNumber source nanos processNumber).toList, isChar c = true := by
  intro c hc
  simp only [Builder.buildNumber, Text.hexOfBytes, String.toList_ofList, List.mem_flatMap,
    List.mem_cons, List.not_mem_nil, or_false] at hc
  obtain ⟨b, -, rfl | rfl⟩ := hc
  · exact isChar_hexDigit (by have := b.toNat_lt; omega)
  · exact isChar_hexDigit (by omega)

theorem ModelIdentity.isChar_name (id : ModelIdentity) : ∀ c ∈ id.name.toList, ModuleFile.isChar c = true := by
  intro c hc
  have hall := List.all_eq_true.mp id.safe.2 c hc
  simp only [ModuleFile.isChar, Bool.and_eq_true, bne_iff_ne]
  constructor <;> rintro rfl <;> simp [isNameChar] at hall

theorem Path.fileName?_ofText {s : String} (hs : ∀ c ∈ s.toList, (c == '/') = false) (hp : IsPlain s) :
    (Path.ofText s).fileName? = some s := by
  have hseg : Path.segments s = [s] := by
    simp [Path.segments, Text.splitAll_of_forall hs]
  have hstart : s.startsWith "/" = false := by
    rw [← Bool.not_eq_true, String.startsWith_string_iff]
    rintro ⟨cs, hcs⟩
    have := hs '/' (by rw [← hcs]; simp)
    simp at this
  obtain ⟨hne, hdot, hup⟩ := hp
  simp [Path.fileName?, Path.components, Path.textComponents, Path.ofText, hseg, hstart, hdot,
    Path.componentOfSegment?, hne, hup]

theorem ModuleFile.isName_of_chars {stem : String} (h : ∀ c ∈ stem.toList, isChar c = true) :
    isName (start ++ stem ++ "." ++ Compiler.moduleExtension) = true := by
  have hlist : (start ++ stem ++ "." ++ Compiler.moduleExtension).toList =
      (start.toList ++ stem.toList) ++ '.' :: ['s', 'o'] := by
    simp [Compiler.moduleExtension]
  have hchars : ∀ c ∈ start.toList ++ stem.toList, isChar c = true :=
    List.forall_mem_append.mpr ⟨List.all_eq_true.mp (by decide), h⟩
  have hslash : ∀ c ∈ (start ++ stem ++ "." ++ Compiler.moduleExtension).toList, (c == '/') = false := by
    rw [hlist]
    refine List.forall_mem_append.mpr ⟨fun c hc => ?_, by simp⟩
    have hc := hchars c hc
    simp only [isChar, Bool.and_eq_true, bne_iff_ne] at hc
    simpa using hc.1
  have hdot : ∀ c ∈ start.toList ++ stem.toList, (c == '.') = false := fun c hc => by
    have hc := hchars c hc
    simp only [isChar, Bool.and_eq_true, bne_iff_ne] at hc
    simpa using hc.2
  have hplain : IsPlain (start ++ stem ++ "." ++ Compiler.moduleExtension) := by
    simp only [String.append_assoc]
    exact plain_of_start (by decide) _
  have hext : Path.extensionOfName? (start ++ stem ++ "." ++ Compiler.moduleExtension) =
      some Compiler.moduleExtension := by
    simp only [Path.extensionOfName?]
    rw [hlist, Text.splitAll_append hdot (by decide)]
    simp [Text.splitAll, start, Compiler.moduleExtension]
  rw [isName, Path.extension?, Path.fileName?_ofText hslash hplain]
  simp only [Option.bind_some, hext, beq_self_eq_true, Bool.and_true, String.startsWith_string_iff]
  exact ⟨(stem ++ "." ++ Compiler.moduleExtension).toList, by simp⟩

theorem ModuleFile.isName_name (id : ModelIdentity) (source : String) (nanos processNumber : Nat) :
    isName (name id (Builder.buildNumber source nanos processNumber)) = true := by
  have h : ∀ c ∈ (id.name ++ "_" ++ Builder.buildNumber source nanos processNumber).toList,
      isChar c = true := by
    simp only [String.toList_append, List.forall_mem_append]
    exact ⟨⟨id.isChar_name, List.all_eq_true.mp (by decide)⟩, isChar_buildNumber⟩
  simpa [name, String.append_assoc] using isName_of_chars h

theorem Cache.plain_texts (output warnings : String) (m : Manifest) :
    ∀ text ∈ Cache.texts output warnings m, IsPlain text.1 := by
  simp only [Cache.texts, List.forall_mem_cons]
  exact ⟨by decide, by decide, by decide, by simp⟩

end CompiledModels
