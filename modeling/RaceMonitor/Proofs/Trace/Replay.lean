import RaceMonitor.Backend
import RaceMonitor.Proofs.Engine.Anomalies
import RaceMonitor.Proofs.Trace.RoundTrip

/-! Reading a trace at once, and feeding it to a backend line by line.

Both take the events of the lines before the first one that cannot be read, and report what is
wrong with that one (`Trace.goodFrom`). So a replay comes to a run of the events before the bad
line, or of all there are, and a trace may be replayed in parts that are cut at ends of lines
(`Backend.replay_runs`). -/
namespace RaceMonitor

namespace Trace

/-- A fault in a text that has `k` more lines in front. -/
def Fault.behind (k : Nat) : Fault → Fault
  | malformed line fault => malformed (line + k) fault
  | other => other

/-- The events before the first line that cannot be read, and what is wrong with that one. -/
def goodFrom (number : Nat) : List Bytes → List Event × Option Fault
  | [] => ([], none)
  | line :: rest =>
    match eventOf number line with
    | .error fault => ([], some fault)
    | .ok e =>
      let (es, fault) := goodFrom (number + 1) rest
      (e.toList ++ es, fault)

/-- The value, if nothing went wrong. -/
def settle {α : Type} (a : α) : Option Fault → Except Fault α
  | some fault => .error fault
  | none => .ok a

variable (number : Nat) (ls : List Bytes)

theorem eventsFrom_eq :
    eventsFrom number ls = settle (goodFrom number ls).1 (goodFrom number ls).2 := by
  induction ls generalizing number with
  | nil => rfl
  | cons line rest ih =>
    rw [eventsFrom, goodFrom]
    cases eventOf number line with
    | error fault => rfl
    | ok e =>
      dsimp only
      rw [ih]
      cases (goodFrom (number + 1) rest).2 <;> rfl

theorem feedFrom_eq {σ : Type} (step : σ → Event → σ) (count : Nat) (s : σ) :
    feedFrom step number count s ls =
      (settle (count + (goodFrom number ls).1.length) (goodFrom number ls).2,
        (goodFrom number ls).1.foldl step s) := by
  induction ls generalizing number count s with
  | nil => rfl
  | cons line rest ih =>
    rw [feedFrom, goodFrom]
    cases eventOf number line with
    | error fault => rfl
    | ok e =>
      cases e with
      | none => exact ih (number + 1) count s
      | some e =>
        dsimp only
        rw [ih]
        simp [Nat.add_assoc, Nat.add_comm 1]

/-- The bad line is where the numbering says, and the lines before it can be read. -/
theorem goodFrom_bad {fault : Fault} (bad : (goodFrom number ls).2 = some fault) :
    ∃ k line, ls[k]? = some line ∧ eventOf (number + k) line = .error fault ∧
      eventsFrom number (ls.take k) = .ok (goodFrom number ls).1 := by
  induction ls generalizing number with
  | nil => cases bad
  | cons line rest ih =>
    rw [goodFrom] at bad ⊢
    cases read : eventOf number line with
    | error fault' =>
      rw [read] at bad
      obtain rfl : fault' = fault := Option.some.inj bad
      exact ⟨0, line, rfl, read, rfl⟩
    | ok e =>
      rw [read] at bad
      obtain ⟨k, line', there, wrong, before⟩ := ih (number + 1) bad
      refine ⟨k + 1, line', there, ?_, ?_⟩
      · rw [← wrong, Nat.add_assoc, Nat.add_comm 1]
      · rw [List.take_succ_cons, eventsFrom, read]
        dsimp only
        rw [before]

/-- A fault names the line that it is found in. -/
theorem malformed_number {number number' : Nat} {line : Bytes} {fault : Json.Fault}
    (wrong : eventOf number line = .error (.malformed number' fault)) : number' = number := by
  unfold eventOf at wrong
  split at wrong
  · cases wrong
  · split at wrong
    · cases wrong
    · cases wrong
    · split at wrong <;> cases wrong
      rfl

theorem eventOf_behind (k : Nat) (line : Bytes) :
    eventOf (number + k) line = (eventOf number line).mapError (Fault.behind k) := by
  unfold eventOf
  split
  · rfl
  · split
    · rfl
    · rfl
    · split <;> rfl

theorem goodFrom_behind (k : Nat) :
    goodFrom (number + k) ls =
      ((goodFrom number ls).1, (goodFrom number ls).2.map (Fault.behind k)) := by
  induction ls generalizing number with
  | nil => rfl
  | cons line rest ih =>
    rw [goodFrom, goodFrom, eventOf_behind]
    cases eventOf number line with
    | error fault => rfl
    | ok e =>
      have more := ih (number + 1)
      rw [Nat.add_right_comm] at more
      simp only [Except.mapError, more]

theorem goodFrom_append {ls : List Bytes} (good : (goodFrom number ls).2 = none)
    (more : List Bytes) :
    goodFrom number (ls ++ more) =
      ((goodFrom number ls).1 ++ (goodFrom (number + ls.length) more).1,
        (goodFrom (number + ls.length) more).2) := by
  induction ls generalizing number with
  | nil => rfl
  | cons line rest ih =>
    rw [goodFrom] at good
    rw [List.cons_append, goodFrom, goodFrom]
    cases read : eventOf number line with
    | error fault =>
      rw [read] at good
      cases good
    | ok e =>
      rw [read] at good
      dsimp only
      rw [ih (number + 1) good, List.length_cons, Nat.add_assoc, Nat.add_comm 1,
        List.append_assoc]

/-- The events of a trace up to its first bad line. -/
def good (bytes : Bytes) : List Event × Option Fault := goodFrom 1 (lines bytes)

theorem read_eq (bytes : Bytes) : read bytes = settle (good bytes).1 (good bytes).2 :=
  eventsFrom_eq 1 (lines bytes)

theorem feed_eq {σ : Type} (step : σ → Event → σ) (s : σ) (bytes : Bytes) :
    feed step s bytes =
      (settle (good bytes).1.length (good bytes).2, (good bytes).1.foldl step s) := by
  rw [feed, feedFrom_eq, Nat.zero_add]
  rfl

theorem good_of_read {bytes : Bytes} {es : List Event} (done : read bytes = .ok es) :
    good bytes = (es, none) := by
  rw [read_eq] at done
  generalize good bytes = g at done ⊢
  obtain ⟨es', fault⟩ := g
  cases fault with
  | none =>
    cases done
    rfl
  | some fault => cases done

theorem good_of_fault {bytes : Bytes} {fault : Fault} (failed : read bytes = .error fault) :
    (good bytes).2 = some fault := by
  rw [read_eq] at failed
  generalize good bytes = g at failed ⊢
  obtain ⟨es', fault'⟩ := g
  cases fault' with
  | none => cases failed
  | some fault =>
    cases failed
    rfl

/-- Behind a text that ends with a line, the lines are numbered on. -/
theorem good_append {x : Bytes} (ended : x.getLast? = some lineFeed) {es : List Event}
    (done : read x = .ok es) (y : Bytes) :
    good (x ++ y) = (es ++ (good y).1, (good y).2.map (Fault.behind (x.count lineFeed))) := by
  have all : goodFrom 1 (lines x) = (es, none) := good_of_read done
  have last : (goodFrom 1 (lines x)).2 = none := by rw [all]
  have appended := goodFrom_append 1 last (lines y)
  rw [all, length_lines ended, goodFrom_behind] at appended
  rw [good, lines_append ended, appended]
  rfl

end Trace

namespace Backend

/-- A run of events. -/
def run (b : Backend) (h : Host) : List Event → Backend × List Output
  | [] => (b, [])
  | e :: es =>
    let (_, b, out) := b.exec h (.event e)
    let (b, out') := b.run h es
    (b, out ++ out')

variable (b : Backend) (h : Host)

/-- Of an engine it is the run of the engine. -/
theorem run_engine (s : State) (es : List Event) :
    (engine s).run h es = (engine (s.run h es).1, (s.run h es).2) := by
  induction es generalizing s with
  | nil => rfl
  | cons e es ih =>
    have first : (engine s).exec h (.event e) = (none, engine (s.step h e).1, (s.step h e).2) := rfl
    rw [run, first]
    dsimp only
    rw [ih]
    rfl

theorem run_append (es es' : List Event) :
    b.run h (es ++ es') = (((b.run h es).1.run h es').1,
      (b.run h es).2 ++ ((b.run h es).1.run h es').2) := by
  induction es generalizing b with
  | nil => rfl
  | cons e es ih => simp only [List.cons_append, run, ih, List.append_assoc]

theorem run_name (es : List Event) : (b.run h es).1.name = b.name := by
  induction es generalizing b with
  | nil => rfl
  | cons e es ih =>
    have same : (b.exec h (.event e)).2.1.name = b.name := by
      cases b <;> rfl
    exact (ih _).trans same

theorem foldl_take (es : List Event) (out : List Output) :
    es.foldl (take h) (b, out) = ((b.run h es).1, (b.run h es).2.reverse ++ out) := by
  induction es generalizing b out with
  | nil => rfl
  | cons e es ih =>
    rw [List.foldl_cons, take]
    dsimp only
    rw [ih]
    simp [run]

/-- What a replay comes to, by the events before the first bad line. -/
theorem replay_eq (x : Trace.Bytes) :
    b.replay h x =
      (Trace.settle (Trace.good x).1.length (Trace.good x).2, (b.run h (Trace.good x).1).1,
        (b.run h (Trace.good x).1).2 ++
          if (Trace.good x).2 = none then [.note (.replayed b.name (Trace.good x).1.length)]
          else []) := by
  unfold replay
  rw [Trace.feed_eq, foldl_take]
  cases (Trace.good x).2 with
  | none => simp [Trace.settle, run_name]
  | some fault => simp [Trace.settle]

/-- Replayed into an engine, a trace is a run of its events. -/
theorem replay_engine (s : State) {x : Trace.Bytes} {es : List Event}
    (done : Trace.read x = .ok es) :
    (engine s).replay h x = (.ok es.length, engine (s.run h es).1,
      (s.run h es).2 ++ [.note (.replayed (engine s).name es.length)]) := by
  rw [replay_eq, Trace.good_of_read done, run_engine]
  rfl

/-- **A replay is a run of the events before the first bad line.** If the trace can be read, the
replay hands on exactly its events, in order, and returns their number. If it cannot be read, the
replay fails with the same fault, and all that has happened is a run of the events of the lines
before the bad one; a fault of a malformed line names that line, counted from 1, with the lines
that hold no event. And behind a trace that can be read and ends with a line, a second one is
replayed as if it came by itself: the backend and what it has delivered are the same, the numbers of
events are added, and the lines are numbered on. -/
theorem replay_runs (x : Trace.Bytes) :
    (∀ es, Trace.read x = .ok es → b.replay h x =
      (.ok es.length, (b.run h es).1,
        (b.run h es).2 ++ [.note (.replayed b.name es.length)])) ∧
    (∀ fault, Trace.read x = .error fault → ∃ k line es, (Trace.lines x)[k]? = some line ∧
      Trace.eventOf (k + 1) line = .error fault ∧
      (∀ number wrong, fault = .malformed number wrong → number = k + 1) ∧
      Trace.eventsFrom 1 ((Trace.lines x).take k) = .ok es ∧
      b.replay h x = (.error fault, b.run h es)) ∧
    (x.getLast? = some Trace.lineFeed → ∀ es, Trace.read x = .ok es → ∀ y,
      let first := b.replay h x
      let second := first.2.1.replay h y
      let whole := b.replay h (x ++ y)
      whole.1 = (match second.1 with
        | .ok count => .ok (es.length + count)
        | .error fault => .error (fault.behind (x.count Trace.lineFeed))) ∧
      whole.2.1 = second.2.1 ∧
      delivered whole.2.2 = delivered first.2.2 ++ delivered second.2.2) := by
  refine ⟨fun es done => ?_, fun fault failed => ?_, fun ended es done y => ?_⟩
  · rw [replay_eq, Trace.good_of_read done]
    rfl
  · have bad := Trace.good_of_fault failed
    obtain ⟨k, line, there, wrong, before⟩ := Trace.goodFrom_bad 1 (Trace.lines x) bad
    rw [Nat.add_comm] at wrong
    refine ⟨k, line, (Trace.good x).1, there, wrong, ?_, before, ?_⟩
    · rintro number fault rfl
      exact Trace.malformed_number wrong
    · rw [replay_eq, bad, if_neg nofun, List.append_nil]
      rfl
  · have appended := Trace.good_append ended done y
    have first := Trace.good_of_read done
    simp only [replay_eq, appended, first, run_append]
    cases (Trace.good y).2 with
    | none => simp [Trace.settle]
    | some fault => simp [Trace.settle]

/-- Two events, and behind them a comment and a line that ends too early. -/
theorem replay_runs_comment :
    let b := engine (State.new .replay Config.default)
    let x := Trace.write [.write 1 5 256 8, .exit 1]
    let y : Trace.Bytes := [35, Trace.lineFeed, 102]
    Trace.read x = .ok [.write 1 5 256 8, .exit 1] ∧
      Trace.read y = .error (.malformed 2 .eof) ∧ x.getLast? = some Trace.lineFeed ∧
      (b.replay .recording x).1 = .ok 2 ∧
      (b.replay .recording (x ++ y)).1 = .error (.malformed (2 + x.count Trace.lineFeed) .eof) ∧
      (b.replay .recording (x ++ y)).2.1 =
        ((b.replay .recording x).2.1.replay .recording y).2.1 := by
  intro b x y
  have done : Trace.read x = .ok [.write 1 5 256 8, .exit 1] := by
    rw [Trace.read, Trace.lines_write, Trace.eventsFrom_toJson]
  have failed : Trace.read y = .error (.malformed 2 .eof) := rfl
  have ended : x.getLast? = some Trace.lineFeed := by
    simp [x, Trace.write, Trace.texts, List.getLast?_cons]
  obtain ⟨all, _, parts⟩ := replay_runs b .recording x
  have first := all _ done
  obtain ⟨_, _, _, _, _, _, _, second⟩ :=
    (replay_runs (b.replay .recording x).2.1 .recording y).2.1 _ failed
  obtain ⟨result, state, _⟩ := parts ended _ done y
  refine ⟨done, failed, ended, by rw [first]; rfl, ?_, state⟩
  rw [result, second]
  rfl

end Backend

end RaceMonitor
