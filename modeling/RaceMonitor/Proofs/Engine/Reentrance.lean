import RaceMonitor.Proofs.Engine.Recast
import RaceMonitor.Proofs.Engine.Step

/-! Callbacks that turn back to the engine.

A race callback may hand the engine further commands while the event that raced is still being
processed. By then all that the event does is done: its counters are counted, its location has its
history, its block is marked as reported. So the commands might as well come after the event
(`State.step_defers`, for any callback), and a run with such a callback is a run without one in
which the commands follow every event that delivers a race (`State.run_reentrant`). Only the log
can tell: the note of the access itself comes last. -/
namespace RaceMonitor

/-- A host that only takes note of races. -/
def Host.recorder (order : Enumeration) : Host := ⟨order, fun _ s => (s, [])⟩

theorem Host.recorder_quiet (order : Enumeration) : (Host.recorder order).Quiet := fun _ _ => rfl

/-- What an event comes to under a race callback (on the right), from what it comes to when races
are only taken note of (on the left): the same, or if that delivers a race, the callback is called
in the state that is left, and nothing but notes come after. -/
inductive Defers (h : Host) : State × List Output → State × List Output → Prop where
  | silent (s : State) (out : List Output) (none : races out = []) : Defers h (s, out) (s, out)
  | called (race : Race) (s : State) (before after : List Output) (first : races before = [])
    (last : delivered after = []) :
    Defers h (s, before ++ .race race :: after)
      ((h.onRace race s).1, before ++ .race race :: ((h.onRace race s).2 ++ after))

namespace Defers

variable {h : Host} {plain nested : State × List Output}

theorem of_eq (same : nested = plain) (none : races plain.2 = []) : Defers h plain nested := by
  rw [same]
  exact .silent plain.1 plain.2 none

/-- Notes may come before and after. -/
theorem around (defers : Defers h plain nested) {before after : List Output}
    (first : races before = []) (last : delivered after = []) :
    Defers h (plain.1, before ++ plain.2 ++ after) (nested.1, before ++ nested.2 ++ after) := by
  cases defers with
  | silent s out none =>
    have none' : races after = [] := by rw [← races_delivered, last]; rfl
    exact .silent s _ (by simp [first, none, none'])
  | called race s before' after' first' last' =>
    have called := Defers.called (h := h) race s (before ++ before') (after' ++ after)
      (by simp [first, first']) (by simp [last, last'])
    simpa [List.append_assoc] using called

theorem andThen (defers : Defers h plain nested) {before : List Output}
    (first : races before = []) :
    Defers h (plain.1, before ++ plain.2) (nested.1, before ++ nested.2) := by
  have last : delivered [] = [] := rfl
  simpa using defers.around first last

end Defers

namespace State

variable (s : State) (h : Host)

/-! ### Deliveries -/

/-- A race is counted before the callback is called. -/
theorem deliver_defers (race : Race) :
    Defers h (s.deliver (.recorder h.order) race) (s.deliver h race) := by
  let counted := s.count fun c => { c with races := c.races + 1 }
  have hears : counted.heard = s.heard := rfl
  unfold deliver
  cases heard : s.heard with
  | true =>
    have called := Defers.called (h := h) race counted [.note (.raceDetected race)] [] rfl rfl
    rw [List.append_nil] at called
    simp only [hears, heard, if_true, counted]
    exact called
  | false =>
    simp only [hears, heard, counted]
    exact .silent counted _ rfl

theorem raiseConflict_defers (addr : Word) (kind : RaceKind) (prior current : Access) :
    Defers h (s.raiseConflict (.recorder h.order) addr kind prior current)
      (s.raiseConflict h addr kind prior current) :=
  deliver_defers s h _

theorem raiseUse_defers (addr : Word) (hit : UseAfterFree) (current : Access) :
    Defers h (s.raiseUse (.recorder h.order) addr hit current) (s.raiseUse h addr hit current) :=
  deliver_defers _ h _

theorem settleUse_defers (addr : Word) (current : Access) (hit : Option UseAfterFree) :
    Defers h (s.settleUse (.recorder h.order) addr current hit)
      (s.settleUse h addr current hit) := by
  cases hit with
  | none => exact .silent s [] rfl
  | some hit => exact raiseUse_defers s h addr hit current

theorem settle_defers (addr : Word) (current : Access) (outcome : Outcome) :
    Defers h (s.settle (.recorder h.order) addr current outcome)
      (s.settle h addr current outcome) := by
  cases outcome with
  | sameEpoch => exact .silent _ [] rfl
  | ordered => exact .silent s [] rfl
  | race kind prior => exact raiseConflict_defers s h addr kind prior current

/-! ### Accesses -/

/-- The three ways of reporting an access, a use after free of an untracked location among them,
all have the callback called last. -/
theorem accessBy_defers (t : Thread) (write : Bool) (pc addr size : Word) :
    Defers h (s.accessBy (.recorder h.order) t write pc addr size)
      (s.accessBy h t write pc addr size) := by
  have made := s.accessBy_made h t write pc addr size
  generalize s.accessBy h t write pc addr size = res at made ⊢
  cases made with
  | @untracked hit s₁ s₂ _ noted _ used looked told =>
    have plain : s.accessBy (.recorder h.order) t write pc addr size = _ :=
      (Made.untracked used looked rfl).eq
    rw [plain]
    exact (told ▸ settleUse_defers s₂.countUntracked h addr _ hit).andThen
      (location_plain looked).races
  | used used looked checked told =>
    have plain : s.accessBy (.recorder h.order) t write pc addr size = _ :=
      (Made.used used looked checked rfl).eq
    rw [plain]
    exact (told ▸ raiseUse_defers _ h addr _ _).andThen (location_plain looked).races
  | settled used looked checked told =>
    have plain : s.accessBy (.recorder h.order) t write pc addr size = _ :=
      (Made.settled used looked checked rfl).eq
    rw [plain]
    exact (told ▸ settle_defers _ h addr _ _).around (location_plain looked).races rfl

theorem access_defers (write : Bool) (tid : ThreadId) (pc addr size : Word) :
    Defers h (s.access (.recorder h.order) write tid pc addr size)
      (s.access h write tid pc addr size) := by
  rcases met : (s.countAccess write addr).thread tid with ⟨_ | t, s₁, noted⟩
  · rw [access_refused met, access_refused met]
    exact .silent _ _ (thread_plain met).races
  · rw [access_entered met, access_entered met]
    exact (accessBy_defers s₁ h t write pc addr size).andThen (thread_plain met).races

/-! ### Steps and runs -/

/-- Whatever the race callback does, it might as well do after the event. -/
theorem step_defers (e : Event) : Defers h (s.step (.recorder h.order) e) (s.step h e) := by
  cases heeds : e.heeds with
  | false =>
    have same : s.step h e = s.step (.recorder h.order) e := by
      cases e <;> first | rfl | cases heeds
    exact .of_eq same (s.reports_of_heedless _ heeds).races
  | true =>
    cases e with
    | read tid pc addr size => exact access_defers s h false tid pc addr size
    | write tid pc addr size => exact access_defers s h true tid pc addr size
    | alloc tid pc addr size => exact .of_eq rfl (s.allocate_allocated _ tid pc addr size).2
    | free tid addr => exact .of_eq rfl (s.deallocate_deallocated _ tid addr).2
    | _ => cases heeds

end State

/-- What an event comes to when commands come after it, if it has delivered a race. -/
def State.followed (order : Enumeration) (commands : List Command) (res : State × List Output) :
    State × List Output :=
  if (races res.2).isEmpty then res
  else
    let (s, out) := res.1.execAll (.recorder order) commands
    (s, res.2 ++ out)

/-- A callback that turns to the engine with commands. -/
theorem Defers.reentrant {order : Enumeration} {commands : List Command}
    {plain nested : State × List Output}
    (defers : Defers (.reentrant order commands) plain nested) :
    nested.1 = (State.followed order commands plain).1 ∧
      delivered nested.2 = delivered (State.followed order commands plain).2 := by
  cases defers with
  | silent s out none => simp [State.followed, none]
  | called race s before after first last =>
    simp only [State.followed, races_append, races_race, first, List.nil_append,
      List.isEmpty_cons, Bool.false_eq_true, if_false, delivered_append, delivered_race, last,
      List.append_nil]
    refine ⟨rfl, ?_⟩
    rw [List.append_assoc]
    rfl

namespace State

/-- The event, and if it delivers a race, the commands after it. Races are only taken note of. -/
def stepThen (s : State) (order : Enumeration) (commands : List Command) (e : Event) :
    State × List Output :=
  followed order commands (s.step (.recorder order) e)

def runThen (s : State) (order : Enumeration) (commands : List Command) :
    List Event → State × List Output
  | [] => (s, [])
  | e :: es =>
    let (s, out) := s.stepThen order commands e
    let (s, out') := s.runThen order commands es
    (s, out ++ out')

/-- **What a race callback asks of the engine is done as if it had been asked after the event.**
The callback takes note of the race and, unless it is called while it is at this, hands the engine
some commands; these may name the same location, block or thread, and even close the session. The
state that is left, with its counters, and the sequence of races and anomalies are those of an
engine whose callback only takes note, and that is handed the commands after the event, just when
the event has delivered a race. -/
theorem step_reentrant (s : State) (order : Enumeration) (commands : List Command) (e : Event) :
    (s.step (.reentrant order commands) e).1 = (s.stepThen order commands e).1 ∧
      delivered (s.step (.reentrant order commands) e).2 =
        delivered (s.stepThen order commands e).2 :=
  (s.step_defers (.reentrant order commands) e).reentrant

/-- The same of a whole run: every event that delivers a race is followed by the commands. -/
theorem run_reentrant (s : State) (order : Enumeration) (commands : List Command)
    (es : List Event) :
    (s.run (.reentrant order commands) es).1 = (s.runThen order commands es).1 ∧
      delivered (s.run (.reentrant order commands) es).2 =
        delivered (s.runThen order commands es).2 := by
  induction es generalizing s with
  | nil => exact ⟨rfl, rfl⟩
  | cons e es ih =>
    have same : (s.step (.reentrant order commands) e).1 = (s.stepThen order commands e).1 ∧
        delivered (s.step (.reentrant order commands) e).2 =
          delivered (s.stepThen order commands e).2 :=
      (s.step_defers (.reentrant order commands) e).reentrant
    obtain ⟨state, out⟩ := same
    obtain ⟨rest, outs⟩ := ih (s.stepThen order commands e).1
    simp only [run, runThen, delivered_append, state, out, rest, outs, and_self]

end State

end RaceMonitor
