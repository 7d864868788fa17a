import ChainFs.Bytes
import ChainFs.Error

/-!
# Byte stores

A volume lives in a store: a run of bytes that is read and overwritten at explicit addresses.
There is no position shared between accesses, and nothing is cached above the store.

* `Edit σ` — operations on a store of type `σ`: they may fail, and what they wrote before failing
  stays written;
* `Store σ` — what a type of stores offers;
* `Store.readNumber`, `Store.writeNumber` — numbers of fixed width, most significant byte first.
A question is a function of the store, so it cannot have written anything. A change is an `Edit`, and
where it fails, the store is handed on as it is by then; so what can be said of failures includes what
they have left behind.
-/

namespace ChainFs

/-- An operation that may change a store and may fail. The changes made up to a failure stay. -/
abbrev Edit (σ : Type) : Type → Type :=
  EStateM Error σ

namespace Edit

variable {σ τ α : Type}

/-- A question asked of the store as it is; the store stays the same. -/
def ask (question : σ → Except Error α) : Edit σ α := fun store =>
  match question store with
  | .ok answer => .ok answer store
  | .error e => .error e store

/-- A result that does not depend on the store. -/
def ofExcept (result : Except Error α) : Edit σ α :=
  ask fun _ => result

/-- Runs an operation on a store that is part of something larger, which `putBack` rebuilds
around the changed store. -/
@[inline] def inside (act : Edit σ α) (store : σ) (putBack : σ → τ) : EStateM.Result Error τ α :=
  match act store with
  | .ok a store => .ok a (putBack store)
  | .error e store => .error e (putBack store)

end Edit

/-- A store that can be read and overwritten at byte addresses. -/
class Store (σ : Type) where
  /-- Its length in bytes, as known when it was opened. -/
  size : σ → Nat
  /-- Exactly `length` bytes from `offset` on, or a failure. -/
  read : σ → (offset length : Nat) → Except Error ByteArray
  /-- Writes all the bytes from `offset` on, or fails without having written any. -/
  write : (offset : Nat) → ByteArray → Edit σ Unit
  /-- Makes what was written durable. -/
  flush : Edit σ Unit
  /-- A read that succeeds brings as many bytes as were asked for. -/
  size_read : ∀ {store offset length bytes}, read store offset length = .ok bytes →
    bytes.size = length

namespace Store

variable {σ : Type} [Store σ]

/-- The number stored in the `width` bytes at `offset`. -/
def readNumber (width : Nat) (store : σ) (offset : Nat) : Except Error Nat := do
  let bytes ← read store offset width
  return Bytes.number bytes 0 width

/-- Stores a number in the `width` bytes at `offset`. -/
def writeNumber (width : Nat) (offset n : Nat) : Edit σ Unit :=
  write offset (Bytes.ofNumber width n)

end Store

/-! ### Two kinds of store as one -/

/-- A store that is one of two kinds. -/
instance {σ τ : Type} [Store σ] [Store τ] : Store (σ ⊕ τ) where
  size
    | .inl store => Store.size store
    | .inr store => Store.size store
  read
    | .inl store => Store.read store
    | .inr store => Store.read store
  write offset bytes
    | .inl store => (Store.write offset bytes : Edit σ Unit).inside store .inl
    | .inr store => (Store.write offset bytes : Edit τ Unit).inside store .inr
  flush
    | .inl store => (Store.flush : Edit σ Unit).inside store .inl
    | .inr store => (Store.flush : Edit τ Unit).inside store .inr
  size_read := by
    rintro (_ | _) _ _ _ h <;> exact Store.size_read h

end ChainFs
