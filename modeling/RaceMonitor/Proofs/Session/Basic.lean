import RaceMonitor.Engine.Basic

/-! Sessions.

A session is an engine without any population and the events that it is then given. Its events
are known by their position, and position `n` has a state before it (`state n`), a state after
it (`state (n + 1)`) and what the engine let out (`output n`). The race callback takes note of
races; the order in which populations are enumerated is any. -/
namespace RaceMonitor

/-- The range as the program means it, without an end of the address space. -/
def Extent.covers (e : Extent) (a : Word) : Prop :=
  e.base.toNat ≤ a.toNat ∧ a.toNat < e.base.toNat + e.size.toNat

structure Session where
  start : State
  order : Enumeration
  events : List Event
  fresh : start.tables = Tables.empty start.config.maxFreed start.tables.heap.nextSeq

/-- The events of a session with the default configuration and a race callback. -/
def Session.default (events : List Event) : Session where
  start := (State.new .replay Config.default).opened Config.default
  order := .sorted
  events := events
  fresh := rfl

/-- The same under limits of one's own. -/
def Session.under (config : Config) (events : List Event) : Session where
  start := (State.new .replay Config.default).opened config
  order := .sorted
  events := events
  fresh := rfl

/-- The thread whose event it is. -/
def Event.actor? : Event → Option ThreadId
  | .fork parent _ | .join parent _ => some parent
  | .detach by_ _ | .finish by_ _ => some by_
  | .read tid .. | .write tid .. | .alloc tid .. | .free tid _ => some tid
  | .acquire tid .. | .release tid .. => some tid
  | .happensBefore tid _ | .happensAfter tid _ => some tid
  | .enter tid _ | .exit tid => some tid
  | .mapShadow .. => none

/-- The thread that a read, write or free is made by. -/
def Event.memory? : Event → Option ThreadId
  | .read tid .. | .write tid .. | .free tid _ => some tid
  | _ => none

theorem Event.actor_of_memory {e : Event} {tid : ThreadId} (h : e.memory? = some tid) :
    e.actor? = some tid := by
  cases e <;> first | exact h | cases h

/-- What an event can name beside threads. -/
inductive Subject where
  | location (addr : Word)
  | lock (id : Word)
  | signal (id : Word)
  deriving DecidableEq, Repr, Inhabited

/-- What it names beside threads. -/
def Event.subject? : Event → Option Subject
  | .read _ _ addr _ | .write _ _ addr _ => some (.location addr)
  | .acquire _ lock .. | .release _ lock _ => some (.lock lock)
  | .happensBefore _ id | .happensAfter _ id => some (.signal id)
  | _ => none

/-- Whether an event looks at the heap blocks. -/
def Event.heeds : Event → Bool
  | .read .. | .write .. | .alloc .. | .free .. => true
  | _ => false

/-- The region that an event announces. -/
def Event.region? : Event → Option Extent
  | .mapShadow start size => some ⟨start, size⟩
  | _ => none

/-- A read or write, with its thread, program counter, address and size. -/
def Event.access (write : Bool) (tid : ThreadId) (pc addr size : Word) : Event :=
  if write then .write tid pc addr size else .read tid pc addr size

theorem Event.access_inj {write write' : Bool} {tid tid' : ThreadId} {pc pc' addr addr' : Word}
    {size size' : Word} :
    Event.access write tid pc addr size = .access write' tid' pc' addr' size' ↔
      write = write' ∧ tid = tid' ∧ pc = pc' ∧ addr = addr' ∧ size = size' := by
  cases write <;> cases write' <;> simp [access]

theorem Event.actor?_access (write : Bool) (tid : ThreadId) (pc addr size : Word) :
    (Event.access write tid pc addr size).actor? = some tid := by
  cases write <;> rfl

theorem Event.subject?_access (write : Bool) (tid : ThreadId) (pc addr size : Word) :
    (Event.access write tid pc addr size).subject? = some (.location addr) := by
  cases write <;> rfl

theorem Event.heeds_access (write : Bool) (tid : ThreadId) (pc addr size : Word) :
    (Event.access write tid pc addr size).heeds = true := by
  cases write <;> rfl

theorem State.step_access (s : State) (h : Host) (write : Bool) (tid : ThreadId)
    (pc addr size : Word) :
    s.step h (.access write tid pc addr size) = s.access h write tid pc addr size := by
  cases write <;> rfl

namespace Session

variable (r : Session)

/-- The engine's surroundings: races are taken note of. -/
def host : Host := ⟨r.order, fun _ s => (s, [])⟩

/-- The state that event `n` meets. -/
def state (n : Nat) : State := (r.start.run r.host (r.events.take n)).1

/-- What event `n` lets out. -/
def output (n : Nat) : List Output :=
  match r.events[n]? with
  | some e => ((r.state n).step r.host e).2
  | none => []

/-- The races that event `n` delivers. -/
def races (n : Nat) : List Race := (r.output n).filterMap Output.race?

/-- Event `i` is a read, write or free by the thread `tid`, which is tracked and is `t` then. -/
structure Touches (i : Nat) (tid : ThreadId) (t : Thread) : Prop where
  event : ∃ e, r.events[i]? = some e ∧ e.memory? = some tid
  tracked : (r.state (i + 1)).tables.threads[tid]? = some t

/-- Event `i` is a read or write that is processed for the tracked thread `t`. -/
structure Processed (i : Nat) (write : Bool) (tid : ThreadId) (pc addr size : Word) (t : Thread) :
    Prop where
  event : r.events[i]? = some (.access write tid pc addr size)
  tracked : (r.state (i + 1)).tables.threads[tid]? = some t

/-- Event `i` allocates a range around `x`, and allocations are tracked. -/
def Resets (i : Nat) (x : Word) : Prop :=
  r.start.config.trackAllocations = true ∧ ∃ tid pc addr size,
    r.events[i]? = some (.alloc tid pc addr size) ∧ Extent.covers ⟨addr, size⟩ x

theorem state_zero : r.state 0 = r.start := rfl

variable {r}

theorem state_eq_foldl (r : Session) (n : Nat) :
    r.state n = (r.events.take n).foldl (fun s e => (s.step r.host e).1) r.start := by
  unfold state
  generalize r.start = s
  induction r.events.take n generalizing s with
  | nil => rfl
  | cons e es ih => exact ih _

theorem state_succ {n : Nat} {e : Event} (h : r.events[n]? = some e) :
    r.state (n + 1) = ((r.state n).step r.host e).1 := by
  have htake : r.events.take (n + 1) = r.events.take n ++ [e] := by
    rw [List.take_add_one, h]
    rfl
  unfold state
  rw [htake, State.run_append]
  rfl

theorem state_succ_of_none {n : Nat} (h : r.events[n]? = none) : r.state (n + 1) = r.state n := by
  unfold state
  rw [List.take_add_one, h]
  simp

theorem output_eq {n : Nat} {e : Event} (h : r.events[n]? = some e) :
    r.output n = ((r.state n).step r.host e).2 := by
  unfold output
  rw [h]

/-- What holds at the start and is kept by every step holds throughout. -/
theorem invariant {p : State → Prop} (start : p r.start)
    (step : ∀ n e, r.events[n]? = some e → p (r.state n) → p ((r.state n).step r.host e).1)
    (n : Nat) : p (r.state n) := by
  induction n with
  | zero => exact start
  | succ n ih =>
    cases h : r.events[n]? with
    | none => exact state_succ_of_none h ▸ ih
    | some e => exact state_succ h ▸ step n e h ih

end Session

end RaceMonitor
