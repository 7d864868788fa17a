import ChainFs.Store.Basic
import Mathlib.Algebra.Group.Nat.Defs

/-!
# Machine words

Numbers have no upper end in the definitions of a volume, and a byte string answers at every
position. Here the same steps are taken on a machine: a number is a word of 64 bits, a byte string
ends somewhere, and a loop may only go so far.

* `Crash` — what stops the machine itself, unlike an `Error`, which is an answer;
* `Checked`, `Changing` — questions and changes that end with an answer, an error or a crash;
* `add`, `sub`, `mul`, `div`, `mod`, `byteAt`, `slice`, `numberAt` — steps that look before they
  leap;
* `Checked.of`, `Changing.of` — what never crashes, seen as something that might;
* `Checked.bind_of`, `Changing.bind_of` — a machine does what it should if each step does.

A crash ends a call as an error does, but no caller is told of it. To show that a step does not
crash it is enough to show that it equals the plain step, which `of` makes into one that might; then
all that is known of the plain step is known of it.
-/

namespace ChainFs

/-- An edit ends with this value on some store. -/
def Edit.Answers {σ α : Type} (act : Edit σ α) (a : α) : Prop :=
  ∃ before after, act before = .ok a after

namespace Words

variable {σ α β : Type}

/-- What stops a machine. -/
inductive Crash
  /-- A number does not fit in a word, or is below zero. -/
  | overflow
  | divisionByZero
  /-- A position outside a byte string. -/
  | outOfRange
  /-- A loop has used up what it was allowed. -/
  | endless
  deriving DecidableEq, Repr

/-- How a step on a machine may fail. -/
inductive Stop
  | refused (error : Error)
  | crashed (crash : Crash)
  deriving DecidableEq, Repr

/-- What a machine finds out. -/
abbrev Checked : Type → Type :=
  Except Stop

/-- What a machine does to a store. -/
abbrev Changing (σ : Type) : Type → Type :=
  EStateM Stop σ

/-! ## Steps -/

/-- An answer that is an error. -/
def refuse (e : Error) : Checked α :=
  .error (.refused e)

/-- Ends with a crash. -/
def crash (c : Crash) : Checked α :=
  .error (.crashed c)

/-- Words are below this. -/
def limit : Nat :=
  2 ^ 64

/-- A number as a word. -/
def word (n : Nat) : Checked Nat :=
  if n < limit then .ok n else crash .overflow

/-- A sum that has to fit into a word. -/
def add (a b : Nat) : Checked Nat :=
  word (a + b)

/-- A product that has to fit into a word. -/
def mul (a b : Nat) : Checked Nat :=
  word (a * b)

/-- A difference that must not be negative. -/
def sub (a b : Nat) : Checked Nat :=
  if b ≤ a then .ok (a - b) else crash .overflow

/-- A quotient, unless the divisor is zero. -/
def div (a b : Nat) : Checked Nat :=
  if b = 0 then crash .divisionByZero else .ok (a / b)

/-- A remainder, unless the divisor is zero. -/
def mod (a b : Nat) : Checked Nat :=
  if b = 0 then crash .divisionByZero else .ok (a % b)

/-- How far a bit of a byte is shifted. -/
def shift (k : Nat) : Checked Nat :=
  if k < 8 then .ok k else crash .overflow

/-- A byte at a position inside. -/
def byteAt (bytes : ByteArray) (i : Nat) : Checked UInt8 :=
  if i < bytes.size then .ok (Bytes.get bytes i) else crash .outOfRange

/-- The bytes from `start` to `stop`. -/
def slice (bytes : ByteArray) (start stop : Nat) : Checked ByteArray :=
  if start ≤ stop ∧ stop ≤ bytes.size then .ok (bytes.extract start stop) else crash .outOfRange

/-- The number in `width` bytes, each of which has to be there. -/
def numberAt (bytes : ByteArray) (start width : Nat) : Checked Nat :=
  if start + width ≤ bytes.size then .ok (Bytes.number bytes start width) else crash .outOfRange

section

variable {a b k : Nat} {bytes : ByteArray} {start stop width : Nat}

theorem add_eq (h : a + b < 2 ^ 64) : add a b = .ok (a + b) :=
  if_pos h

theorem mul_eq (h : a * b < 2 ^ 64) : mul a b = .ok (a * b) :=
  if_pos h

theorem sub_eq (h : b ≤ a) : sub a b = .ok (a - b) :=
  if_pos h

theorem div_eq (h : 0 < b) : div a b = .ok (a / b) :=
  if_neg (Nat.ne_of_gt h)

theorem mod_eq (h : 0 < b) : mod a b = .ok (a % b) :=
  if_neg (Nat.ne_of_gt h)

theorem shift_eq (h : k < 8) : shift k = .ok k :=
  if_pos h

/-- A byte inside is that of `Bytes.get`, which answers everywhere. -/
theorem byteAt_eq (h : k < bytes.size) : byteAt bytes k = .ok (Bytes.get bytes k) :=
  if_pos h

/-- A slice inside is an extract. -/
theorem slice_eq (hle : start ≤ stop) (hstop : stop ≤ bytes.size) :
    slice bytes start stop = .ok (bytes.extract start stop) :=
  if_pos ⟨hle, hstop⟩

/-- A number inside is that of `Bytes.number`. -/
theorem numberAt_eq (h : start + width ≤ bytes.size) :
    numberAt bytes start width = .ok (Bytes.number bytes start width) :=
  if_pos h

end

/-! ## Questions -/

namespace Checked

/-- What can be refused only. -/
def of : Except Error α → Checked α
  | .ok a => .ok a
  | .error e => refuse e

@[simp] theorem of_ok (a : α) : of (.ok a) = .ok a :=
  rfl

@[simp] theorem ok_bind (a : α) (f : α → Checked β) : (Except.ok a : Checked α) >>= f = f a :=
  rfl

/-- Two steps are as they should be if each of them is. -/
theorem bind_of {checked : Checked α} {plain : Except Error α} {f : α → Checked β}
    {g : α → Except Error β} (hfirst : checked = of plain)
    (hsecond : ∀ a, plain = .ok a → f a = of (g a)) : checked >>= f = of (plain >>= g) := by
  subst hfirst
  cases plain with
  | error e => rfl
  | ok a => exact hsecond a rfl

/-- The same where the machine keeps more than the answer. -/
theorem map_bind_of {γ : Type} {checked : Checked β} {plain : Except Error α} {view : α → β}
    {f : β → Checked γ} {g : α → Except Error γ} (hfirst : checked = of (view <$> plain))
    (hsecond : ∀ a, plain = .ok a → f (view a) = of (g a)) : checked >>= f = of (plain >>= g) := by
  subst hfirst
  cases plain with
  | error e => rfl
  | ok a => exact hsecond a rfl

end Checked

/-! ## Changes -/

/-- Asks a question of the store as it is. -/
def ask (question : σ → Checked α) : Changing σ α := fun store =>
  match question store with
  | .ok answer => .ok answer store
  | .error stop => .error stop store

/-- A result that does not depend on the store. -/
def check (result : Checked α) : Changing σ α :=
  ask fun _ => result

namespace Changing

/-- An edit, which can be refused only. -/
def of (act : Edit σ α) : Changing σ α := fun store =>
  match act store with
  | .ok a after => .ok a after
  | .error e after => .error (.refused e) after

@[simp] theorem check_ok_bind (a : α) (f : α → Changing σ β) :
    (check (.ok a) : Changing σ α) >>= f = f a :=
  rfl

/-- A question that never crashes, asked in a change. -/
theorem ask_of {checked : σ → Checked α} {plain : σ → Except Error α}
    (h : ∀ store, checked store = .of (plain store)) : ask checked = of (Edit.ask plain) := by
  funext store
  simp only [ask, of, Edit.ask, h]
  cases plain store <;> rfl

/-- A check that never crashes, made in a change. -/
theorem check_of {checked : Checked α} {plain : Except Error α} (h : checked = .of plain) :
    (check checked : Changing σ α) = of (Edit.ofExcept plain) :=
  ask_of fun _ => h

/-- Two steps are as they should be if each of them is. -/
theorem bind_of {checked : Changing σ α} {plain : Edit σ α} {f : α → Changing σ β}
    {g : α → Edit σ β} (hfirst : checked = of plain)
    (hsecond : ∀ a, plain.Answers a → f a = of (g a)) : checked >>= f = of (plain >>= g) := by
  subst hfirst
  funext store
  simp only [bind, EStateM.bind, of]
  rcases hplain : plain store with ⟨a, after⟩ | ⟨e, after⟩
  · exact congrFun (hsecond a ⟨store, after, hplain⟩) after
  · rfl

theorem map_of {checked : Changing σ α} {plain : Edit σ α} (f : α → β)
    (h : checked = of plain) : f <$> checked = of (f <$> plain) := by
  subst h
  funext store
  simp only [Functor.map, EStateM.map, of]
  cases plain store <;> rfl

end Changing

end Words

/-! ## Answers of edits -/

namespace Edit.Answers

variable {σ α β : Type} {a : α} {b : β}

/-- What two steps answer, the second answers behind an answer of the first. -/
theorem of_bind {first : Edit σ α} {second : α → Edit σ β} (h : Answers (first >>= second) b) :
    ∃ a, Answers first a ∧ Answers (second a) b := by
  obtain ⟨before, after, h⟩ := h
  simp only [bind, EStateM.bind] at h
  split at h
  · rename_i a between hfirst
    exact ⟨a, ⟨before, between, hfirst⟩, between, after, h⟩
  · cases h

theorem of_ask {question : σ → Except Error α} (h : Answers (ask question) a) :
    ∃ store, question store = .ok a := by
  obtain ⟨before, after, h⟩ := h
  simp only [ask] at h
  split at h
  · rename_i a' hquestion
    cases h
    exact ⟨before, hquestion⟩
  · cases h

theorem of_pure {a' : α} (h : Answers (pure a' : Edit σ α) a) : a' = a := by
  obtain ⟨before, after, h⟩ := h
  cases h
  rfl

end Edit.Answers

end ChainFs
