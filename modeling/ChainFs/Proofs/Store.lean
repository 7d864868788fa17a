import ChainFs.Store.Memory
import ChainFs.Proofs.Content

/-!
# Faithful stores and how edits end on them

* `Store.Faithful` — a store whose reads and writes inside its size are those of a content. A write
  may still fail, but then it leaves the content as it was;
* `Store.Reliable` — a faithful store on which no write inside its size fails;
* `Store.Limited` — a store that takes only so many more writes, as if it were cut off there;
* `Edit.Ends` — what an edit may end in, from any store of a size and a content. The rules
  `Edit.Ends.bind` and `Edit.Ends.write` take an edit apart.

A failed write is one of the ways an edit may end, so a statement `Edit.Ends` covers every point at
which the edit may be cut off.

Bytes in memory are reliable, and a store that is cut off is faithful still. So whatever is shown
for every faithful store holds wherever power may fail, and what needs a reliable one says so.
-/

namespace ChainFs

namespace Store

/-- A store that keeps a content. -/
class Faithful (σ : Type) [Store σ] where
  /-- What the store holds, by address. -/
  content : σ → Content
  /-- The failures that a write inside the store may meet. -/
  Fault : Error → Prop
  /-- A read inside the store brings what it holds. -/
  read_eq : ∀ {store : σ} {offset length : Nat}, offset + length ≤ Store.size store →
    Store.read store offset length = .ok ((content store).window offset length)
  /-- A write inside the store takes place as a whole or not at all. -/
  write_ends : ∀ (store : σ) {offset : Nat} {bytes : ByteArray},
    offset + bytes.size ≤ Store.size store →
    match (Store.write offset bytes : Edit σ Unit) store with
    | .ok _ after =>
      Store.size after = Store.size store ∧ content after = (content store).put offset bytes
    | .error e after =>
      Store.size after = Store.size store ∧ content after = content store ∧ Fault e
  /-- Making writes durable changes nothing. -/
  flush_ends : ∀ store : σ,
    match (Store.flush : Edit σ Unit) store with
    | .ok _ after => Store.size after = Store.size store ∧ content after = content store
    | .error e after =>
      Store.size after = Store.size store ∧ content after = content store ∧ Fault e

/-- A faithful store on which writes do not fail. -/
class Reliable (σ : Type) [Store σ] extends Faithful σ where
  not_fault : ∀ e, ¬ Fault e

export Faithful (content)

/-- The failures that a write inside a store of type `σ` may meet. -/
abbrev Fault (σ : Type) [Store σ] [Faithful σ] : Error → Prop :=
  Faithful.Fault σ

variable {σ : Type} [Store σ]

theorem read_eq [Faithful σ] {store : σ} {offset length : Nat}
    (h : offset + length ≤ Store.size store) :
    Store.read store offset length = .ok ((content store).window offset length) :=
  Faithful.read_eq h

theorem readNumber_eq [Faithful σ] {store : σ} {width offset : Nat}
    (h : offset + width ≤ Store.size store) :
    Store.readNumber width store offset = .ok ((content store).number offset width) := by
  rw [Store.readNumber, read_eq h, ← Content.number_window_zero]
  rfl

/-! ## The stores of this library -/

/-- Bytes in memory are a reliable store. -/
instance : Reliable Memory where
  content store := Bytes.get store.bytes
  Fault _ := False
  read_eq {store offset length} h := by
    have hread : Store.read store offset length = Memory.read store offset length := rfl
    have hsize : Store.size store = store.bytes.size := rfl
    rw [hsize] at h
    rw [hread, Memory.read, if_pos h]
    congr 1
    refine Bytes.ext_get ?_ fun i hi => ?_
    · rw [ByteArray.size_extract, Content.size_window]
      omega
    · rw [ByteArray.size_extract] at hi
      rw [Bytes.get_extract, if_pos (by omega), Content.get_window _ (by omega)]
  write_ends store offset bytes h := by
    obtain ⟨held⟩ := store
    have hsize : Store.size (σ := Memory) ⟨held⟩ = held.size := rfl
    have hwrite : (Store.write offset bytes : Edit Memory Unit) ⟨held⟩
        = .ok () ⟨Bytes.overlay held offset bytes⟩ :=
      if_pos h
    rw [hsize] at h
    rw [hwrite]
    refine ⟨?_, ?_⟩
    · exact Bytes.size_overlay h
    · funext i
      exact Bytes.get_overlay bytes (by omega) i
  flush_ends _ := ⟨rfl, rfl⟩
  not_fault _ := id

/-! ## Stores that are cut off -/

/-- A store that takes only so many more writes. -/
structure Limited (σ : Type) where
  store : σ
  left : Nat

namespace Limited

/-- What a store answers that takes no more writes. -/
def exhausted : Error :=
  .io (.other "no more writes")

instance : Store (Limited σ) where
  size limited := Store.size limited.store
  read limited := Store.read limited.store
  write offset bytes
    | ⟨store, 0⟩ => .error exhausted ⟨store, 0⟩
    | ⟨store, left + 1⟩ => (Store.write offset bytes : Edit σ Unit).inside store (⟨·, left⟩)
  flush
    | ⟨store, left⟩ => (Store.flush : Edit σ Unit).inside store (⟨·, left⟩)
  size_read := Store.size_read

/-- A limited store holds what the store below it holds. -/
instance [Faithful σ] : Faithful (Limited σ) where
  content limited := Faithful.content limited.store
  Fault e := e = exhausted ∨ Fault σ e
  read_eq {limited offset length} h :=
    @Faithful.read_eq σ _ _ limited.store offset length h
  write_ends limited offset bytes h := by
    obtain ⟨store, _ | left⟩ := limited
    · exact ⟨rfl, rfl, .inl rfl⟩
    · have hends := Faithful.write_ends store h
      have hwrite : (Store.write offset bytes : Edit (Limited σ) Unit) ⟨store, left + 1⟩
          = (Store.write offset bytes : Edit σ Unit).inside store (⟨·, left⟩) := rfl
      rw [hwrite, Edit.inside]
      cases hact : (Store.write offset bytes : Edit σ Unit) store with
      | ok a after =>
        rw [hact] at hends
        exact hends
      | error e after =>
        rw [hact] at hends
        exact ⟨hends.1, hends.2.1, .inr hends.2.2⟩
  flush_ends limited := by
    obtain ⟨store, left⟩ := limited
    have hends := Faithful.flush_ends store
    have hflush : (Store.flush : Edit (Limited σ) Unit) ⟨store, left⟩
        = (Store.flush : Edit σ Unit).inside store (⟨·, left⟩) := rfl
    rw [hflush, Edit.inside]
    cases hact : (Store.flush : Edit σ Unit) store with
    | ok a after =>
      rw [hact] at hends
      exact hends
    | error e after =>
      rw [hact] at hends
      exact ⟨hends.1, hends.2.1, .inr hends.2.2⟩

end Limited

end Store

end ChainFs
