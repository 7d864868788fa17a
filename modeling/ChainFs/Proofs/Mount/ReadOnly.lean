import ChainFs.Proofs.Mount.Effects
import ChainFs.Proofs.Mount.Timestamps

/-!
# Volumes that are mounted for reading

There, a request to change the volume is refused before anything is looked at. It leaves no trace,
neither in the store nor in the table of inode numbers, where a number that was handed out for a
refused request would shift all later ones.

* `Mount.Request.mutates` — the requests to change the volume;
* `Mount.exchanges` — requests with their answers, one after the other;
* `Mount.Untouched` — a run of requests in which those to change the volume have no effect;
* `Mount.untouched_of_reading` — every run on a volume that is mounted for reading is one.

The run without these requests is compared with the run itself, answer by answer. Requests that do
not mutate may still hand out numbers, and they do so in both.
-/

namespace ChainFs.Mount

open Store

/-- The request is to change the volume. -/
def Request.mutates : Request → Bool
  | .write .. | .makeDirectory .. | .createFile .. => true
  | _ => false

/-- A request at its time, with its answer. -/
structure Exchange where
  now : UInt64
  request : Request
  answer : Answer

variable {σ : Type} [Store σ]

/-- The requests with their answers, one after the other. -/
def exchanges (mount : Mount) : List (UInt64 × Request) → State σ → List Exchange
  | [], _ => []
  | (now, request) :: rest, state =>
    ⟨now, request, (mount.serve now request state).1⟩
      :: exchanges mount rest (mount.serve now request state).2

/-- The requests that are not to change the volume. -/
def questions (requests : List (UInt64 × Request)) : List (UInt64 × Request) :=
  requests.filter fun timed => !timed.2.mutates

/-- A run of requests in which those to change the volume have no effect. -/
structure Untouched (mount : Mount) (start : State σ) (requests : List (UInt64 × Request)) :
    Prop where
  /-- Whatever is asked, the store stays as it is. -/
  store_eq : (mount.after requests start).store = start.store
  /-- There are answers to all requests. -/
  answered : ∀ exchange ∈ mount.exchanges requests start, exchange.answer ≠ .serverDown
  /-- The kernel knows the refusal by the number of read-only file systems. -/
  refused : ∀ exchange ∈ mount.exchanges requests start, exchange.request.mutates →
    ∃ cause, exchange.answer = .refused cause ∧ cause = .readOnly ∧ cause.errno = 30
  /-- The other requests are answered as if they were the only ones. -/
  answers_eq : mount.exchanges (questions requests) start
    = (mount.exchanges requests start).filter fun exchange => !exchange.request.mutates
  /-- They also leave the same state, the table of inode numbers included. -/
  after_eq : mount.after (questions requests) start = mount.after requests start

/-! ## One request -/

variable {mount : Mount} {now : UInt64} {request : Request} {state : State σ}

/-- A request to change the volume is refused and leaves everything as it is. -/
theorem serve_mutating (hreading : mount.options.readWrite = false) (h : request.mutates)
    (now : UInt64) (state : State σ) :
    mount.serve now request state = (.refused .readOnly, state) := by
  have hrefuse : (requireWritable mount : Serving σ Unit) = Serving.refuse .readOnly := by
    rw [requireWritable, hreading]
    rfl
  cases request with
  | write inode offset data => simp only [serve, reply, write, hrefuse]; rfl
  | makeDirectory parent name => simp only [serve, reply, create, hrefuse]; rfl
  | createFile parent name => simp only [serve, reply, create, hrefuse]; rfl
  | _ => cases h

omit [Store σ] in
instance : Passage fun state state' : State σ => state'.store = state.store where
  refl _ := rfl
  trans h h' := h'.trans h
  assign _ _ := rfl

/-- Nothing that is asked changes the store. -/
theorem serve_store_eq (hreading : mount.options.readWrite = false) (now : UInt64)
    (request : Request) (state : State σ) :
    (mount.serve now request state).2.store = state.store := by
  refine serve_moves (R := fun state state' => state'.store = state.store) ?_ request state
  intro hwritable
  rw [hreading] at hwritable
  cases hwritable

/-- Attributes are only told as they stand in the store, and so the server stays up as long as their
times are within those of the kernel. -/
theorem serve_answered (hreading : mount.options.readWrite = false)
    (htimes : ∀ path stat, Volume.lookup mount.layout state.store path = .ok stat →
      stat.mtime.toNat < Attributes.timeLimit) :
    (mount.serve now request state).1 ≠ .serverDown := by
  intro hdown
  obtain ⟨path, store, htells, hcrashes⟩ := crashes_reply.mp (serverDown_iff.mp hdown)
  obtain ⟨stat, hlookup, hle⟩ := crashes_attributesAt.mp hcrashes
  cases htells with
  | lookup | getAttributes | setAttributes =>
    exact absurd hle (Nat.not_le.mpr (htimes _ stat hlookup))
  | created _ hwritable =>
    rw [hreading] at hwritable
    cases hwritable

/-! ## Runs of requests -/

theorem Untouched.nil (mount : Mount) (start : State σ) : Untouched mount start [] where
  store_eq := rfl
  answered _ h := absurd h List.not_mem_nil
  refused _ h := absurd h List.not_mem_nil
  answers_eq := rfl
  after_eq := rfl

/-- One request more in front of a run. -/
theorem Untouched.cons (hreading : mount.options.readWrite = false)
    (hanswered : (mount.serve now request state).1 ≠ .serverDown)
    {rest : List (UInt64 × Request)}
    (untouched : Untouched mount (mount.serve now request state).2 rest) :
    Untouched mount state ((now, request) :: rest) := by
  have hstore := untouched.store_eq.trans (serve_store_eq hreading now request state)
  have hall : ∀ exchange ∈ mount.exchanges ((now, request) :: rest) state,
      exchange.answer ≠ .serverDown := by
    rw [exchanges, List.forall_mem_cons]
    exact ⟨hanswered, untouched.answered⟩
  by_cases h : request.mutates
  · -- the request leaves the state in which the others are answered
    have hserve := serve_mutating hreading h now state
    rw [hserve] at untouched
    have hquestions : questions ((now, request) :: rest) = questions rest := by
      rw [questions, List.filter_cons_of_neg (by simp [h])]
      rfl
    refine ⟨hstore, hall, ?_, ?_, ?_⟩
    · rw [exchanges, List.forall_mem_cons, hserve]
      exact ⟨fun _ => ⟨.readOnly, rfl, rfl, rfl⟩, untouched.refused⟩
    · rw [hquestions, untouched.answers_eq, exchanges, hserve,
        List.filter_cons_of_neg (by simp [h])]
    · rw [hquestions, untouched.after_eq, after_cons, hserve]
  · -- the request is answered in both runs, and from the same state on
    have hquestions : questions ((now, request) :: rest) = (now, request) :: questions rest := by
      rw [questions, List.filter_cons_of_pos (by simp [h])]
      rfl
    refine ⟨hstore, hall, ?_, ?_, ?_⟩
    · rw [exchanges, List.forall_mem_cons]
      exact ⟨fun hmutates => absurd hmutates h, untouched.refused⟩
    · rw [hquestions, exchanges, exchanges, List.filter_cons_of_pos (by simp [h]),
        untouched.answers_eq]
    · rw [hquestions, after_cons, after_cons, untouched.after_eq]

/-- Whatever is asked of a volume that is mounted for reading, requests to change it are refused and
have no effect. The times that can be looked up have to be within those of the kernel. -/
theorem untouched_of_reading {mount : Mount} (hreading : mount.options.readWrite = false)
    {start : State σ}
    (htimes : ∀ path stat, Volume.lookup mount.layout start.store path = .ok stat →
      stat.mtime.toNat < Attributes.timeLimit)
    (requests : List (UInt64 × Request)) : Untouched mount start requests := by
  induction requests generalizing start with
  | nil => exact .nil mount start
  | cons timed rest ih =>
    obtain ⟨now, request⟩ := timed
    refine .cons hreading (serve_answered hreading htimes) (ih ?_)
    rwa [serve_store_eq hreading]

/-- A volume that holds a directory is opened and mounted for reading. -/
theorem untouched_on_written :
    ∃ store : Memory, Volume.load store 512 = .ok Volume.smallest ∧
      (∀ path stat, Volume.lookup Volume.smallest store path = .ok stat →
        stat.mtime.toNat < Attributes.timeLimit) ∧
      Untouched ⟨Volume.smallest, ⟨false, false⟩⟩ ⟨Inodes.initial, store⟩
        [(6, .makeDirectory 1 "e".toUTF8), (7, .lookup 1 "d".toUTF8), (8, .createFile 2 "f".toUTF8),
          (9, .readDirectory 1 0 4096), (10, .write 2 (-1) "text".toUTF8),
          (11, .setAttributes 2 (some 0))] := by
  obtain ⟨volume, hformat⟩ := Volume.format_blank
  obtain ⟨branches, sound, dated⟩ := Volume.Call.runAll_dated [(5, .makeDirectory "/d")]
    (Volume.formatted_of_format hformat).sound (Volume.dated_rootOnly Volume.smallest [5])
    (List.Subset.refl _)
  obtain ⟨regular, fits, sealed, -⟩ := sound.toTallied
  have charted : Charted (Mount.mk Volume.smallest ⟨false, false⟩).layout _ _ ⟨Inodes.initial, _⟩
    branches := charted_initial sound dated
  have hclock : ∀ time ∈ [(5 : UInt64)], time.toNat < Attributes.timeLimit :=
    List.forall_mem_singleton.mpr (by decide)
  have htimes : ∀ path stat, Volume.lookup Volume.smallest
      (Volume.Call.runAll Volume.smallest [(5, .makeDirectory "/d")] volume).2 path = .ok stat →
      stat.mtime.toNat < Attributes.timeLimit :=
    fun path stat => charted.mtime_lt hclock
  exact ⟨_, sealed.load_eq regular fits, htimes, untouched_of_reading rfl htimes _⟩

end ChainFs.Mount
