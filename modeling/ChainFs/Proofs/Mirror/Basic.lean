import ChainFs.Proofs.Ends
import ChainFs.Store.File

/-!
# A file and a byte string side by side

Inside its length a writable file is read and written like a byte string in memory. Past the end the
two go apart: a file tells other failures, lets empty reads pass, and grows when it is written.

* `SameAnswer` — two answers that differ at most in how a failed access is told;
* `Store.Mirrors` — a file that holds the bytes of a store in memory and is as long as it was
  opened;
* `Edit.Mirrored` — an edit that keeps such a pair alike and answers the same on both. The rules
  take an edit apart along its steps: a question has to read at least one byte at a time, and a
  write has to stay inside the length.

Only the failures of accesses may differ, and no step of a volume looks at them, so what follows a
failure is the same as well. That the file does not grow is a matter for the writes alone; each of
them has to be shown to stay inside, which is what a mirrored edit asks of its steps.
-/

namespace ChainFs

open Store

/-! ## Answers -/

/-- The same answer, or failed accesses, which may be told differently. -/
def SameAnswer {α : Type} (answer answer' : Except Error α) : Prop :=
  answer' = answer ∨
    ∃ fault fault', answer = .error (.io fault) ∧ answer' = .error (.io fault')

namespace SameAnswer

variable {α β : Type} {answer answer' : Except Error α}

theorem refl (answer : Except Error α) : SameAnswer answer answer :=
  .inl rfl

theorem io (fault fault' : AccessFault) :
    SameAnswer (.error (.io fault) : Except Error α) (.error (.io fault')) :=
  .inr ⟨fault, fault', rfl, rfl⟩

theorem of_ok {a : α} (h : SameAnswer answer answer') (hok : answer = .ok a) :
    answer' = .ok a := by
  rcases h with rfl | ⟨fault, fault', rfl, -⟩
  · exact hok
  · cases hok

theorem of_error {e : Error} (h : SameAnswer answer answer') (herror : answer = .error e) :
    ∃ e', answer' = .error e' ∧
      ∀ {β : Type}, SameAnswer (.error e : Except Error β) (.error e') := by
  rcases h with rfl | ⟨fault, fault', rfl, rfl⟩
  · exact ⟨e, herror, .refl _⟩
  · obtain rfl := Except.error.inj herror
    exact ⟨.io fault', rfl, .io fault fault'⟩

theorem bind {f f' : α → Except Error β} (h : SameAnswer answer answer')
    (hf : ∀ a, answer = .ok a → SameAnswer (f a) (f' a)) :
    SameAnswer (answer >>= f) (answer' >>= f') := by
  rcases h with rfl | ⟨fault, fault', rfl, rfl⟩
  · rcases answer' with e | a
    · exact .refl _
    · exact hf a rfl
  · exact io fault fault'

theorem map (f : α → β) (h : SameAnswer answer answer') :
    SameAnswer (answer.map f) (answer'.map f) := by
  rcases h with rfl | ⟨fault, fault', rfl, rfl⟩
  · exact .refl _
  · exact io fault fault'

end SameAnswer

/-! ## Stores -/

/-- A byte string is read back as it was put into a file. -/
theorem Bytes.Sparse.toBytes_ofBytes (bytes : ByteArray) :
    (Bytes.Sparse.ofBytes bytes).toBytes = bytes := by
  have hwhole : bytes.extract 0 bytes.size = bytes := ByteArray.extract_zero_size
  have hsize : (Bytes.Sparse.ofBytes bytes).size = bytes.size := by
    rw [ofBytes, ofContent, hwhole]
    exact (Nat.max_eq_right (Nat.le_add_left ..)).trans (Nat.zero_add _)
  refine Bytes.ext_get ?_ fun i hi => ?_
  · rw [toBytes, size_read, hsize]
  · rw [toBytes, size_read, hsize] at hi
    rw [toBytes, get_read, hsize, if_pos hi, ofBytes, ofContent, hwhole, get_write,
      if_pos (by omega)]
    simp

namespace Store

/-- A read of a byte string that succeeds stays inside it. -/
theorem Memory.end_le_of_read {memory : Memory} {offset length : Nat} {bytes : ByteArray}
    (h : Store.read memory offset length = .ok bytes) : offset + length ≤ memory.bytes.size := by
  by_contra hout
  have hread : Store.read memory offset length = .error (.io (.pastEnd offset length)) :=
    if_neg hout
  rw [hread] at h
  cases h

/-- A writable file of `size` bytes, opened at that length, that holds what a store in memory holds.
Positions in a file are below `File.positionLimit`. -/
structure Mirrors (size : Nat) (memory : Memory) (file : File) : Prop where
  size_lt : size < File.positionLimit
  size_memory : memory.bytes.size = size
  size_opened : file.openedSize = size
  size_content : file.content.size = size
  writable : file.writable = true
  get_eq : ∀ i < size, file.content.get i = Bytes.get memory.bytes i

namespace Mirrors

variable {size : Nat} {memory : Memory} {file : File} (mirrors : Mirrors size memory file)
  {offset length : Nat}
include mirrors

theorem size_eq : Store.size file = Store.size memory :=
  mirrors.size_opened.trans mirrors.size_memory.symm

/-- All the bytes are the same. -/
theorem toBytes_eq : file.content.toBytes = memory.bytes := by
  refine Bytes.ext_get ?_ fun i hi => ?_
  · rw [Bytes.Sparse.toBytes, Bytes.Sparse.size_read, mirrors.size_content, mirrors.size_memory]
  · rw [Bytes.Sparse.toBytes, Bytes.Sparse.size_read, mirrors.size_content] at hi
    rw [Bytes.Sparse.toBytes, Bytes.Sparse.get_read, mirrors.size_content, if_pos hi, Nat.zero_add,
      mirrors.get_eq i hi]

/-- A read of at least one byte has the same answer. -/
theorem read_same (hlength : 0 < length) :
    SameAnswer (Store.read memory offset length) (Store.read file offset length) := by
  obtain ⟨hlt, hmemory, -, hcontent, -, hget⟩ := mirrors
  have hread' : Store.read file offset length = _ := if_neg (Nat.ne_of_gt hlength)
  rw [hread']
  by_cases hin : offset + length ≤ size
  · have hread : Store.read memory offset length = _ := if_pos (hmemory.symm ▸ hin)
    rw [hread, if_neg (by omega), if_pos (by omega)]
    refine .inl (congrArg Except.ok (Bytes.ext_get ?_ fun i hi => ?_))
    · rw [Bytes.Sparse.size_read, ByteArray.size_extract]
      omega
    · rw [Bytes.Sparse.size_read] at hi
      rw [Bytes.Sparse.get_read, if_pos hi, Bytes.get_extract, if_pos (by omega),
        hget _ (by omega)]
  · have hread : Store.read memory offset length = _ := if_neg (hmemory.symm ▸ hin)
    rw [hread]
    split
    · exact .io _ _
    · rw [if_neg (by omega)]
      exact .io _ _

/-- A write inside the length takes place on both sides. -/
theorem write_both {bytes : ByteArray} (hend : offset + bytes.size ≤ size) :
    ∃ memory' file', (Store.write offset bytes : Edit Memory Unit) memory = .ok () memory' ∧
      (Store.write offset bytes : Edit File Unit) file = .ok () file' ∧
      Mirrors size memory' file' := by
  obtain ⟨hlt, hmemory, hopened, hcontent, hwritable, hget⟩ := mirrors
  obtain ⟨held⟩ := memory
  obtain ⟨content, openedSize, writable, sizeLimit⟩ := file
  dsimp only at hmemory hopened hcontent hwritable hget
  have hfits : offset + bytes.size ≤ held.size := hmemory.symm ▸ hend
  have hwrite : (Store.write offset bytes : Edit Memory Unit) ⟨held⟩
      = .ok () ⟨Bytes.overlay held offset bytes⟩ := if_pos hfits
  have hsize := Bytes.size_overlay hfits
  have hstart : offset ≤ held.size := by omega
  have hoverlay := Bytes.get_overlay bytes hstart
  have hwrite' : (Store.write offset bytes : Edit File Unit)
      ⟨content, openedSize, writable, sizeLimit⟩ = _ := if_neg (by simp [hwritable])
  by_cases hempty : bytes.size = 0
  · rw [if_pos hempty] at hwrite'
    refine ⟨_, _, hwrite, hwrite', hlt, hsize.trans hmemory, hopened, hcontent, hwritable,
      fun i hi => ?_⟩
    rw [hoverlay, if_neg (by omega), hget i hi]
  · rw [if_neg hempty, if_neg (by omega), if_neg (by omega)] at hwrite'
    refine ⟨_, _, hwrite, hwrite', hlt, hsize.trans hmemory, hopened, ?_, hwritable,
      fun i hi => ?_⟩
    · exact (Nat.max_eq_left (hcontent.symm ▸ hend)).trans hcontent
    · rw [hoverlay, Bytes.Sparse.get_write, hget i hi]

end Mirrors

/-- A file with the bytes of a store in memory, opened for writing. -/
theorem mirrors_ofContent {bytes : ByteArray} {content : Bytes.Sparse}
    (hbytes : content.toBytes = bytes) (hlt : bytes.size < File.positionLimit) (sizeLimit : Nat) :
    Mirrors bytes.size ⟨bytes⟩ (File.ofContent sizeLimit content true) := by
  subst hbytes
  have hsize : content.toBytes.size = content.size := Bytes.Sparse.size_read ..
  refine ⟨hlt, rfl, hsize.symm, hsize.symm, rfl, fun i hi => ?_⟩
  rw [hsize] at hi
  rw [Bytes.Sparse.toBytes, Bytes.Sparse.get_read, if_pos hi, Nat.zero_add]
  rfl

end Store

/-! ## Edits -/

/-- An edit answers the same on a file and on the memory it mirrors, and leaves them alike. Its
value is as `good` says. -/
def Edit.Mirrored {α : Type} (act : Edit Memory α) (act' : Edit File α) (size : Nat)
    (good : α → Prop) : Prop :=
  ∀ memory file, Mirrors size memory file →
    SameAnswer (act.outcome memory).1 (act'.outcome file).1 ∧
      Mirrors size (act.outcome memory).2 (act'.outcome file).2 ∧
      ∀ a, (act.outcome memory).1 = .ok a → good a

namespace Edit.Mirrored

variable {α β : Type} {size : Nat} {P : α → Prop} {Q : β → Prop} {act : Edit Memory α}
  {act' : Edit File α}

/-- Steps that are alike one by one. -/
theorem bind {second : α → Edit Memory β} {second' : α → Edit File β}
    (hfirst : act.Mirrored act' size P)
    (hsecond : ∀ a, P a → (second a).Mirrored (second' a) size Q) :
    (act >>= second).Mirrored (act' >>= second') size Q := by
  intro memory file mirrors
  obtain ⟨hsame, hmirrors, hgood⟩ := hfirst memory file mirrors
  rw [outcome_bind, outcome_bind]
  rcases hend : act.outcome memory with ⟨e | a, after⟩
  all_goals
    rcases hend' : act'.outcome file with ⟨answer', after'⟩
    rw [hend, hend'] at hsame hmirrors
  · obtain ⟨e', rfl, herror⟩ := hsame.of_error rfl
    exact ⟨herror, hmirrors, fun b hb => nomatch hb⟩
  · obtain rfl := hsame.of_ok rfl
    exact hsecond a (hgood a (congrArg Prod.fst hend)) after after' hmirrors

theorem map {f : α → β} (h : act.Mirrored act' size fun a => Q (f a)) :
    (f <$> act).Mirrored (f <$> act') size Q := by
  intro memory file mirrors
  obtain ⟨hsame, hmirrors, hgood⟩ := h memory file mirrors
  rw [outcome_map, outcome_map]
  refine ⟨hsame.map f, hmirrors, fun b hb => ?_⟩
  rcases hr : (act.outcome memory).1 with e | a
  · rw [hr] at hb
    cases hb
  · rw [hr] at hb
    exact Except.ok.inj hb ▸ hgood a hr

/-- A question that is answered the same. -/
theorem ask {question : Memory → Except Error α} {question' : File → Except Error α}
    (h : ∀ memory file, Mirrors size memory file → SameAnswer (question memory) (question' file))
    (hgood : ∀ memory a, memory.bytes.size = size → question memory = .ok a → P a) :
    (Edit.ask question).Mirrored (Edit.ask question') size P := by
  intro memory file mirrors
  rw [outcome_ask, outcome_ask]
  exact ⟨h memory file mirrors, mirrors, fun a => hgood memory a mirrors.size_memory⟩

theorem ofExcept {r : Except Error α} (h : ∀ a, r = .ok a → P a) :
    (Edit.ofExcept r).Mirrored (Edit.ofExcept r) size P :=
  ask (fun _ _ _ => .refl r) fun _ a _ => h a

theorem pure {a : α} (h : P a) : Edit.Mirrored (Pure.pure a) (Pure.pure a) size P :=
  fun _ _ mirrors => ⟨.refl _, mirrors, fun _ hb => Except.ok.inj hb ▸ h⟩

theorem throw {e : Error} :
    Edit.Mirrored (MonadExcept.throw e) (MonadExcept.throw e) size P :=
  fun _ _ mirrors => ⟨.refl _, mirrors, fun _ h => nomatch h⟩

/-- A write inside the length. -/
theorem write {offset : Nat} {bytes : ByteArray} (hend : offset + bytes.size ≤ size) :
    Edit.Mirrored (Store.write offset bytes) (Store.write offset bytes) size fun _ => True := by
  intro memory file mirrors
  obtain ⟨memory', file', hwrite, hwrite', mirrors'⟩ := mirrors.write_both hend
  rw [outcome, outcome, hwrite, hwrite']
  exact ⟨.refl _, mirrors', fun _ _ => trivial⟩

end Edit.Mirrored

end ChainFs
