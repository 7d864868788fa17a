import ChainFs.Store.Basic

/-!
# Stores that count their flushes

A store with a tally of how often its content was asked to be made durable, by anyone.

Nothing else in a store shows that its content was made durable. The tally is what lets a run be
asked whether, and how often, this was done.
-/

namespace ChainFs.Store

/-- A store and how often it was flushed. -/
structure Counted (σ : Type) where
  store : σ
  flushes : Nat

namespace Counted

variable {σ : Type}

instance [Store σ] : Store (Counted σ) where
  size counted := Store.size counted.store
  read counted := Store.read counted.store
  write offset bytes := fun ⟨store, flushes⟩ =>
    (Store.write offset bytes : Edit σ Unit).inside store (⟨·, flushes⟩)
  flush := fun ⟨store, flushes⟩ =>
    (Store.flush : Edit σ Unit).inside store (⟨·, flushes + 1⟩)
  size_read := Store.size_read

end Counted

end ChainFs.Store
