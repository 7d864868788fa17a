import ChainFs.Mount.Inodes
import Std.Data.HashMap.Lemmas

/-!
# Tables of inode numbers

The two maps of a table are changed one after the other, and nothing but the way they are changed
makes them agree.

An assignment is three changes, of which each would break the agreement if it were alone: the new
number has to be new to one map, the path has to be new to the other, and the counter has to go on.
What makes them safe together is that the numbers in use are known exactly, and not only that they
are below the counter.

* `Mount.Inodes.Paired` — numbers and paths name each other, and the numbers in use are those from
  the root up to the counter;
* `Mount.Inodes.paired_initial`, `Mount.Inodes.assign_spec` — so they do at first, and with every
  number that is handed out;
* `Mount.Inodes.Extends` — a number keeps its path.
-/

namespace ChainFs.Mount.Inodes

variable {inodes inodes' inodes'' : Inodes} {number : Nat} {path : String}

/-! ## Tables in order -/

/-- Numbers and paths name each other, and all numbers up to the counter are in use. -/
structure Paired (inodes : Inodes) : Prop where
  root_eq : inodes.path? root = some "/"
  inverse : ∀ {number path}, inodes.path? number = some path ↔ inodes.number? path = some number
  used_iff : ∀ {number}, (∃ path, inodes.path? number = some path) ↔
    root ≤ number ∧ number < inodes.nextNumber

/-- At first one number is in use. -/
theorem initial_path?_iff : initial.path? number = some path ↔ number = root ∧ path = "/" := by
  rw [path?, initial, Std.HashMap.getElem?_insert, Std.HashMap.getElem?_empty]
  by_cases h : root = number
  · rw [if_pos (beq_iff_eq.mpr h), Option.some.injEq]
    exact ⟨fun hpath => ⟨h.symm, hpath.symm⟩, fun hboth => hboth.2.symm⟩
  · rw [if_neg (mt beq_iff_eq.mp h)]
    exact ⟨nofun, fun hboth => absurd hboth.1.symm h⟩

/-- At first one path is known. -/
theorem initial_number?_iff : initial.number? path = some number ↔ number = root ∧ path = "/" := by
  rw [number?, initial, Std.HashMap.getElem?_insert, Std.HashMap.getElem?_empty]
  by_cases h : "/" = path
  · rw [if_pos (beq_iff_eq.mpr h), Option.some.injEq]
    exact ⟨fun hnumber => ⟨hnumber.symm, h.symm⟩, fun hboth => hboth.1.symm⟩
  · rw [if_neg (mt beq_iff_eq.mp h)]
    exact ⟨nofun, fun hboth => absurd hboth.2.symm h⟩

/-- **The first table is paired.** -/
theorem paired_initial : initial.Paired where
  root_eq := initial_path?_iff.mpr ⟨rfl, rfl⟩
  inverse := initial_path?_iff.trans initial_number?_iff.symm
  used_iff := by
    intro number
    simp only [initial_path?_iff, exists_and_left, exists_eq, and_true]
    change number = root ↔ root ≤ number ∧ number < root + 1
    omega

namespace Paired

variable (paired : inodes.Paired)
include paired

/-- Each number has its own path. -/
theorem eq_of_path? {number' : Nat} (h : inodes.path? number = some path)
    (h' : inodes.path? number' = some path) : number = number' :=
  Option.some.inj ((paired.inverse.mp h).symm.trans (paired.inverse.mp h'))

/-- A number in use is below the counter, so the next one is new. -/
theorem lt_nextNumber (h : inodes.path? number = some path) : number < inodes.nextNumber :=
  (paired.used_iff.mp ⟨path, h⟩).2

/-- The number that is handed out next is not in use. -/
theorem path?_nextNumber : inodes.path? inodes.nextNumber = none := by
  rcases h : inodes.path? inodes.nextNumber with _ | path
  · rfl
  · exact absurd (paired.lt_nextNumber h) (Nat.lt_irrefl _)

end Paired

/-! ## Growing tables -/

/-- Every number keeps its path. -/
def Extends (inodes inodes' : Inodes) : Prop :=
  ∀ ⦃number path⦄, inodes.path? number = some path → inodes'.path? number = some path

/-- A table extends itself. -/
theorem Extends.refl (inodes : Inodes) : inodes.Extends inodes :=
  fun _ _ h => h

theorem Extends.trans (h : inodes.Extends inodes') (h' : inodes'.Extends inodes'') :
    inodes.Extends inodes'' :=
  fun _ _ hpath => h' (h hpath)

/-- A path that has a number keeps it. -/
theorem assign_of_path? (paired : inodes.Paired) (h : inodes.path? number = some path) :
    inodes.assign path = (number, inodes) := by
  rw [assign, paired.inverse.mp h]

/-! A new path is inserted into both maps. -/

section New

variable (hnew : inodes.number? path = none)
include hnew

/-- A new path is told the value of the counter. -/
theorem assign_fst_of_new : (inodes.assign path).1 = inodes.nextNumber := by
  rw [assign, hnew]

/-- The counter goes on. -/
theorem nextNumber_assign_of_new :
    (inodes.assign path).2.nextNumber = inodes.nextNumber + 1 := by
  rw [assign, hnew]

/-- All other numbers stand for what they stood for. -/
theorem path?_assign_of_new (number : Nat) : (inodes.assign path).2.path? number =
    if inodes.nextNumber = number then some path else inodes.path? number := by
  rw [assign, hnew, path?, Std.HashMap.getElem?_insert, path?]
  simp only [beq_iff_eq]

/-- All other paths have the numbers they had. -/
theorem number?_assign_of_new (path' : String) : (inodes.assign path).2.number? path' =
    if path = path' then some inodes.nextNumber else inodes.number? path' := by
  rw [assign, hnew, number?, Std.HashMap.getElem?_insert, number?]
  simp only [beq_iff_eq]

/-- The number handed out was not in use, so none has lost its path. -/
theorem Paired.extends_of_new (paired : inodes.Paired) :
    inodes.Extends (inodes.assign path).2 := by
  intro number path' h
  rw [path?_assign_of_new hnew, if_neg (Nat.ne_of_gt (paired.lt_nextNumber h))]
  exact h

/-- The new path gets a number that no path had, so both maps go on naming each other. -/
theorem Paired.assign_of_new (paired : inodes.Paired) : (inodes.assign path).2.Paired where
  root_eq := paired.extends_of_new hnew paired.root_eq
  inverse := by
    intro number path'
    rw [path?_assign_of_new hnew, number?_assign_of_new hnew]
    by_cases hnumber : inodes.nextNumber = number
    · subst hnumber
      rw [if_pos rfl]
      split
      · rename_i hpath
        exact iff_of_true (congrArg some hpath) rfl
      · rename_i hpath
        refine iff_of_false (fun h => hpath (Option.some.inj h)) fun h => ?_
        rw [← paired.inverse, paired.path?_nextNumber] at h
        cases h
    · rw [if_neg hnumber]
      split
      · rename_i hpath
        refine iff_of_false (fun h => ?_) fun h => hnumber (Option.some.inj h)
        rw [paired.inverse, ← hpath, hnew] at h
        cases h
      · exact paired.inverse
  used_iff := by
    intro number
    rw [path?_assign_of_new hnew, nextNumber_assign_of_new hnew]
    by_cases hnumber : inodes.nextNumber = number
    · rw [if_pos hnumber]
      have hroot := (paired.used_iff.mp ⟨_, paired.root_eq⟩).2
      exact iff_of_true ⟨path, rfl⟩ (by omega)
    · rw [if_neg hnumber, paired.used_iff]
      omega

end New

/-- A path that gets a number is what the number stands for from then on. Numbers keep their paths,
and no other path has come into the table. -/
theorem assign_spec (paired : inodes.Paired) (path : String) :
    (inodes.assign path).2.path? (inodes.assign path).1 = some path ∧
      inodes.Extends (inodes.assign path).2 ∧ (inodes.assign path).2.Paired ∧
      ∀ {number path'}, (inodes.assign path).2.path? number = some path' →
        inodes.path? number = some path' ∨ path' = path := by
  rcases hnumber : inodes.number? path with _ | number
  · refine ⟨?_, paired.extends_of_new hnumber, paired.assign_of_new hnumber,
      fun {number path'} h => ?_⟩
    · rw [assign_fst_of_new hnumber, path?_assign_of_new hnumber, if_pos rfl]
    · rw [path?_assign_of_new hnumber] at h
      split at h
      · exact .inr (Option.some.inj h).symm
      · exact .inl h
  · have hpath := paired.inverse.mpr hnumber
    rw [assign_of_path? paired hpath]
    exact ⟨hpath, .refl inodes, paired, .inl⟩

end ChainFs.Mount.Inodes
