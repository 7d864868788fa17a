import ChainFs.Mount.Server
import ChainFs.Proofs.Directory.Slots
import ChainFs.Proofs.Regions
import Mathlib.Data.List.DropRight
import Mathlib.Data.List.Induction
import Mathlib.Data.List.TakeWhile

/-!
# Paths and names

Many texts lead to the same place. The path that starts with a slash and has one slash between two
names stands for the others.

* `Directory.ValidName` — what the check of a new name stands for;
* `Path.absolute`, `Path.components_absolute` — this path, which has the names it is made of;
* `Path.child_absolute`, `Path.parent_absolute` — steps down and up lead from such a path to
  another;
* `Path.plain_components`, `Path.splitLast_cases` — any text has such names, and it is split in
  front of the last of them;
* `Path.Canonical` — such a path, told from the text;
* `Path.Plain`, `Mount.decodeName_plain` — names that are one step, and where requests have them.

All of this is about lists of characters, since a text is split at slashes by going through its
characters. Where it comes back to texts, a name is put together from the characters between two
slashes.
-/

namespace ChainFs

/-- A name that an entry may have. -/
structure Directory.ValidName (name : String) : Prop where
  ne_empty : name ≠ ""
  ne_self : name ≠ "."
  ne_parent : name ≠ ".."
  no_slash : '/' ∉ name.toList
  no_zero : '\x00' ∉ name.toList
  size_le : name.utf8ByteSize ≤ Record.maxNameSize

theorem Directory.validName_of_ok {name : String} (h : validateName name = .ok ()) :
    ValidName name := by
  unfold validateName at h
  split at h
  · cases h
  · rename_i hname
    simp only [not_or] at hname
    obtain ⟨hempty, hself, hparent, hslash, hzero⟩ := hname
    split at h
    · cases h
    · rename_i hsize
      exact ⟨hempty, hself, hparent, hslash, hzero, Nat.not_lt.mp hsize⟩

/-- A record with a valid name and a covered block can be encoded. -/
theorem Directory.encodable_of_valid {layout : Layout} {IsSize : Nat → Prop}
    (regular : layout.Arranged IsSize) {record : Record}
    (hvalid : validateName record.name = .ok ()) (hcovered : record.address ∈ layout.covered) :
    record.Encodable layout.blockSize := by
  have hname := validName_of_ok hvalid
  have hpos : 0 < record.name.utf8ByteSize := by
    rw [Nat.pos_iff_ne_zero, ne_eq, String.utf8ByteSize_eq_zero_iff]
    exact hname.ne_empty
  exact ⟨hpos, hname.size_le, regular.mod_of_mem hcovered, regular.div_lt_of_mem hcovered⟩

namespace Path

/-- A name that is one step of a path: it is not empty and has no slash. -/
def Plain (name : String) : Prop :=
  name ≠ "" ∧ '/' ∉ name.toList

theorem plain_concat {names : List String} (h : ∀ name ∈ names, Plain name) {name : String}
    (hname : Plain name) : ∀ name' ∈ names ++ [name], Plain name' := by
  intro name' hmem
  rcases List.mem_append.mp hmem with hmem | hmem
  · exact h name' hmem
  · exact List.mem_singleton.mp hmem ▸ hname

/-- Names that entries may have are plain. -/
theorem plain_of_validateName {name : String} (h : Directory.validateName name = .ok ()) :
    Plain name :=
  ⟨(Directory.validName_of_ok h).ne_empty, (Directory.validName_of_ok h).no_slash⟩

/-- The characters of the path that leads through the names from the root. -/
def spelled (names : List String) : List Char :=
  names.flatMap fun name => '/' :: name.toList

/-- The path that leads through the names from the root. -/
def absolute (names : List String) : String :=
  if names = [] then "/" else String.ofList (spelled names)

theorem absolute_nil : absolute [] = "/" :=
  rfl

theorem spelled_concat (names : List String) (name : String) :
    spelled (names ++ [name]) = spelled names ++ '/' :: name.toList := by
  rw [spelled, List.flatMap_append, List.flatMap_singleton, ← spelled]

theorem toList_absolute_concat (names : List String) (name : String) :
    (absolute (names ++ [name])).toList = spelled names ++ '/' :: name.toList := by
  rw [absolute, if_neg (by simp), String.toList_ofList, spelled_concat]

/-! ## The texts between the slashes -/

/-- The texts between the slashes, without the empty ones. -/
def texts (chars : List Char) : List (List Char) :=
  (chars.splitOn '/').filter (· ≠ [])

theorem components_eq (path : String) : components path = (texts path.toList).map String.ofList :=
  rfl

theorem texts_append (front back : List Char) :
    texts (front ++ '/' :: back) = texts front ++ texts back := by
  rw [texts, List.splitOn_append_cons_self, List.filter_append, ← texts, ← texts]

theorem texts_eq_singleton {text : List Char} (hne : text ≠ []) (h : '/' ∉ text) :
    texts text = [text] := by
  rw [texts, List.splitOn_eq_singleton h, List.filter_cons_of_pos (by simpa using hne),
    List.filter_nil]

/-- Slashes at the end add nothing. -/
theorem texts_append_slashes (front : List Char) {slashes : List Char}
    (h : ∀ c ∈ slashes, c = '/') : texts (front ++ slashes) = texts front := by
  induction slashes generalizing front with
  | nil => rw [List.append_nil]
  | cons c slashes ih =>
    obtain ⟨rfl, hrest⟩ := List.forall_mem_cons.mp h
    rw [List.append_cons, ih (front ++ ['/']) hrest, texts_append]
    exact List.append_nil _

/-- No text reaches over a slash. -/
theorem not_mem_of_mem_splitOn {chars text : List Char} (h : text ∈ chars.splitOn '/') :
    '/' ∉ text := by
  induction chars generalizing text with
  | nil =>
    obtain rfl := List.mem_singleton.mp h
    exact List.not_mem_nil
  | cons c chars ih =>
    rw [List.splitOn_cons_eq_if_modifyHead] at h
    split at h
    · rcases List.mem_cons.mp h with rfl | h
      · exact List.not_mem_nil
      · exact ih h
    · rename_i hc
      obtain ⟨head, rest, hsplit⟩ := List.exists_cons_of_ne_nil (List.splitOn_ne_nil '/' chars)
      rw [hsplit, List.modifyHead_cons] at h
      rw [hsplit] at ih
      rcases List.mem_cons.mp h with rfl | h
      · -- the character in front of the first text is no slash
        refine List.not_mem_cons_of_ne_of_not_mem (fun hslash => hc ?_) (ih (List.mem_cons_self ..))
        rw [← hslash, beq_self_eq_true]
      · exact ih (List.mem_cons_of_mem _ h)

/-- The names of a path are steps. -/
theorem plain_components (path : String) : ∀ name ∈ components path, Plain name := by
  intro name hname
  obtain ⟨text, htext, rfl⟩ := List.mem_map.mp hname
  obtain ⟨hmem, hne⟩ := List.mem_filter.mp htext
  refine ⟨fun hempty => of_decide_eq_true hne (String.ofList_eq_empty_iff.mp hempty), ?_⟩
  rw [String.toList_ofList]
  exact not_mem_of_mem_splitOn hmem

theorem texts_spelled {names : List String} (h : ∀ name ∈ names, Plain name) :
    texts (spelled names) = names.map String.toList := by
  induction names using List.reverseRecOn with
  | nil => rfl
  | append_singleton names name ih =>
    have hplain := h name (by simp)
    rw [spelled_concat, texts_append, ih fun name' hname' => h name' (by simp [hname']),
      texts_eq_singleton (by simpa using hplain.1) hplain.2, List.map_append]
    rfl

/-! ## Paths from the root -/

/-- An absolute path leads through the names it is made of. -/
theorem components_absolute {names : List String} (h : ∀ name ∈ names, Plain name) :
    components (absolute names) = names := by
  unfold absolute
  split
  · rename_i hnil
    rw [hnil]
    rfl
  · rw [components_eq, String.toList_ofList, texts_spelled h, List.map_map]
    exact (List.map_congr_left fun name _ => String.ofList_toList).trans (List.map_id names)

/-- A step down from an absolute path. -/
theorem child_absolute {names : List String} (h : ∀ name ∈ names, Plain name) (name : String) :
    child (absolute names) name = absolute (names ++ [name]) := by
  refine String.toList_inj.mp ?_
  rw [toList_absolute_concat, child]
  rcases hnames : names with _ | ⟨first, rest⟩
  · rw [if_pos absolute_nil, String.toList_append]
    rfl
  · have hne : names ≠ [] := hnames ▸ List.cons_ne_nil first rest
    rw [← hnames, if_neg, String.toList_append, String.toList_append, absolute, if_neg hne,
      String.toList_ofList, List.append_assoc]
    · rfl
    · -- the root alone is spelled by a single slash
      intro hroot
      refine hne ?_
      rw [← components_absolute h, hroot]
      rfl

/-- What is in front of the last slash. -/
theorem splitAtLastSlash_append (front : List Char) {back : List Char} (h : '/' ∉ back) :
    splitAtLastSlash (front ++ '/' :: back) = (some front, back) := by
  have hback : ∀ c ∈ back.reverse, (decide (c ≠ '/')) = true := by
    intro c hc
    refine decide_eq_true fun hslash => h ?_
    rwa [← hslash, ← List.mem_reverse]
  have hreverse : (front ++ '/' :: back).reverse = back.reverse ++ '/' :: front.reverse := by
    rw [List.reverse_append, List.reverse_cons, List.append_assoc]
    rfl
  unfold splitAtLastSlash
  dsimp only
  rw [hreverse, List.takeWhile_append_of_pos hback, List.dropWhile_append_of_pos hback,
    List.takeWhile_cons_of_neg (by simp), List.dropWhile_cons_of_neg (by simp), List.append_nil,
    List.reverse_reverse]
  dsimp only
  rw [List.reverse_reverse]

/-- A text has a last slash, or none. -/
theorem splitAtLastSlash_cases (chars : List Char) :
    ('/' ∉ chars ∧ splitAtLastSlash chars = (none, chars)) ∨
      ∃ front back, chars = front ++ '/' :: back ∧ '/' ∉ back ∧
        splitAtLastSlash chars = (some front, back) := by
  by_cases hslash : '/' ∈ chars
  · obtain ⟨behind, before, hreverse, hbehind⟩ :=
      List.eq_append_cons_of_mem (List.mem_reverse.mpr hslash)
    have hchars : chars = before.reverse ++ '/' :: behind.reverse := by
      rw [← List.reverse_reverse chars, hreverse, List.reverse_append, List.reverse_cons,
        List.append_assoc]
      rfl
    have hback : '/' ∉ behind.reverse := fun hmem => hbehind (List.mem_reverse.mp hmem)
    refine .inr ⟨_, _, hchars, hback, ?_⟩
    rw [hchars, splitAtLastSlash_append _ hback]
  · have hall : ∀ c ∈ chars.reverse, decide (c ≠ '/') = true :=
      fun c hc => decide_eq_true fun heq => hslash (heq ▸ List.mem_reverse.mp hc)
    refine .inl ⟨hslash, ?_⟩
    unfold splitAtLastSlash
    dsimp only
    rw [List.takeWhile_eq_self_iff.mpr hall, List.dropWhile_eq_nil_iff.mpr hall,
      List.reverse_reverse]

/-- A step up from an absolute path. The root has no parent but itself. -/
theorem parent_absolute {names : List String} (h : ∀ name ∈ names, Plain name) :
    parent (absolute names) = absolute names.dropLast := by
  obtain rfl | ⟨front, name, rfl⟩ := List.eq_nil_or_concat names
  · rfl
  rw [List.concat_eq_append] at h ⊢
  rw [parent, toList_absolute_concat, splitAtLastSlash_append _ (h name (by simp)).2,
    List.dropLast_concat]
  rcases front with _ | ⟨first, rest⟩
  · rfl
  · rfl

/-! ## Splitting any path -/

theorem components_parentText (before : Option (List Char)) :
    components (parentText before) = (texts (before.getD [])).map String.ofList := by
  rcases before with _ | _ | ⟨c, before⟩
  · rfl
  · rfl
  · have htext : parentText (some (c :: before)) = String.ofList (c :: before) := rfl
    rw [components_eq, htext, String.toList_ofList]
    rfl

/-- Without its last slashes a text has the same names. -/
theorem texts_rdropWhile (chars : List Char) :
    texts (chars.rdropWhile (· = '/')) = texts chars := by
  have hslashes : ∀ c ∈ chars.rtakeWhile (· = '/'), c = '/' :=
    fun c hc => by simpa using List.mem_rtakeWhile_imp hc
  have hchars := texts_append_slashes (chars.rdropWhile (· = '/')) hslashes
  rwa [List.rdropWhile_append_rtakeWhile, eq_comm] at hchars

theorem splitLast_of_eq_nil {path : String} (h : path.toList.rdropWhile (· = '/') = []) :
    splitLast path = .error (.invalidName path) := by
  unfold splitLast
  rw [← List.rdropWhile, h]

/-- Without the slashes at its end, a path is split at the last one that is left. -/
theorem splitLast_of_ne_nil {path : String} (h : path.toList.rdropWhile (· = '/') ≠ []) :
    splitLast path = .ok (parentText (splitAtLastSlash (path.toList.rdropWhile (· = '/'))).1,
      String.ofList (splitAtLastSlash (path.toList.rdropWhile (· = '/'))).2) := by
  unfold splitLast
  rw [← List.rdropWhile]
  split
  · rename_i hnil
    exact absurd hnil h
  · rfl

/-- A path without any name is not split. Any other is split in front of its last name. -/
theorem splitLast_cases (path : String) :
    (components path = [] ∧ splitLast path = .error (.invalidName path)) ∨
      ∃ parent name, splitLast path = .ok (parent, name) ∧
        components path = components parent ++ [name] := by
  have hlast := List.rdropWhile_last_not (· = '/') path.toList
  rw [components_eq, ← texts_rdropWhile]
  by_cases hnil : path.toList.rdropWhile (· = '/') = []
  · rw [splitLast_of_eq_nil hnil, hnil]
    exact .inl ⟨rfl, rfl⟩
  refine .inr ⟨_, _, splitLast_of_ne_nil hnil, ?_⟩
  generalize path.toList.rdropWhile (· = '/') = trimmed at *
  rw [components_parentText]
  rcases splitAtLastSlash_cases trimmed with ⟨hnone, hat⟩ | ⟨front, back, rfl, hback, hat⟩
  · rw [hat, texts_eq_singleton hnil hnone]
    rfl
  · -- the last text is a name, since no slash is the last character
    have hne : back ≠ [] := by
      rintro rfl
      exact hlast (by simp) (by simp)
    rw [hat, texts_append, texts_eq_singleton hne hback, List.map_append]
    rfl

/-! ## Canonical paths -/

/-- A path that starts with a slash and has one slash between two names, and none at its end but
that of the root. -/
def Canonical (path : String) : Prop :=
  absolute (components path) = path

/-- Every path has the names of a canonical one. -/
theorem canonical_absolute (path : String) : Canonical (absolute (components path)) := by
  rw [Canonical, components_absolute (plain_components path)]

/-- From a canonical path, a step down adds a name, and a step up takes it back. -/
theorem Canonical.step {path name : String} (h : Canonical path) (hname : Plain name) :
    components (child path name) = components path ++ [name] ∧ parent (child path name) = path := by
  have hnames := plain_concat (plain_components path) hname
  have hchild : child path name = absolute (components path ++ [name]) := by
    rw [← child_absolute (plain_components path), h]
  rw [hchild, components_absolute hnames, parent_absolute hnames, List.dropLast_concat]
  exact ⟨rfl, h⟩

end Path

namespace Mount

/-- The name of a request is one step of a path: it is not empty and has no byte of a slash. -/
def PlainName (name : ByteArray) : Prop :=
  name.size ≠ 0 ∧ ∀ i < name.size, Bytes.get name i ≠ 0x2f

theorem toUTF8_of_decodeName {bytes : ByteArray} {name : String} (h : decodeName bytes = .ok name) :
    name.toUTF8 = bytes := by
  unfold decodeName String.fromUTF8? at h
  split at h
  · rename_i text htext
    split at htext
    · obtain rfl := Except.ok.inj h
      exact congrArg String.toUTF8 (Option.some.inj htext).symm
    · cases htext
  · cases h

theorem decodeName_toUTF8 (name : String) : decodeName name.toUTF8 = .ok name := by
  rw [decodeName, Slot.fromUTF8?_toUTF8]

/-- Names of requests are read as plain names. -/
theorem decodeName_plain {bytes : ByteArray} {name : String} (h : decodeName bytes = .ok name)
    (hplain : PlainName bytes) : Path.Plain name := by
  obtain rfl := toUTF8_of_decodeName h
  obtain ⟨hsize, hbytes⟩ := hplain
  refine ⟨fun hempty => hsize (hempty ▸ rfl), fun hslash => ?_⟩
  -- a slash is one byte, which stands behind those of the text in front of it
  obtain ⟨front, back, hsplit⟩ := List.append_of_mem hslash
  have hbyte : ['/'].utf8Encode = [0x2f].toByteArray := rfl
  have hutf8 : name.toUTF8 = front.utf8Encode ++ ([0x2f].toByteArray ++ back.utf8Encode) := by
    rw [String.toUTF8_eq_toByteArray, ← String.utf8Encode_toList, hsplit, List.utf8Encode_append,
      List.utf8Encode_cons, hbyte]
  have hlength : [(0x2f : UInt8)].toByteArray.size = 1 := rfl
  refine hbytes front.utf8Encode.size ?_ ?_
  · rw [hutf8, ByteArray.size_append, ByteArray.size_append, hlength]
    omega
  · rw [hutf8, Bytes.get_append_right (Nat.le_refl _), Nat.sub_self,
      Bytes.get_append_left (by decide)]
    rfl

end Mount

end ChainFs
