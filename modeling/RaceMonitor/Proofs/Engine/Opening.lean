import RaceMonitor.Proofs.Engine.Renumbered

/-! Opening a session on a used engine.

With arguments that are rejected nothing happens at all. Otherwise the engine is from then on as
a new one would be that was built with the resulting configuration (`State.init_fresh`). Of what
it was before, only the numbering of freed blocks is left, and nothing that comes after shows
that. -/
namespace RaceMonitor.State

variable {s : State}

theorem init_of_error {args : List String} {fault : Fault}
    (rejected : s.config.apply args = .error fault) :
    (s.init args).1 = false ∧ (s.init args).2.1 = s := by
  unfold Config.apply at rejected
  simp only [init, rejected]
  exact ⟨trivial, trivial⟩

theorem init_of_ok {args : List String} {config : Config}
    (accepted : s.config.apply args = .ok config) :
    (s.init args).1 = true ∧ (s.init args).2.1 = s.opened config := by
  unfold Config.apply at accepted
  simp only [init, accepted]
  exact ⟨trivial, trivial⟩

/-- A new engine numbers its freed blocks from 0; a session opened on a used one goes on from the
number that is next there. -/
theorem opened_renumbered (s : State) (config : Config) :
    (build s.policy config true s.listening).1.Renumbered s.tables.heap.nextSeq
      (s.opened config) := by
  have blocks := Heap.Renumbered.empty config.maxFreed 0 s.tables.heap.nextSeq
  rw [Nat.zero_add] at blocks
  exact ⟨_, blocks, rfl⟩

/-- Opening a session changes nothing when it rejects the arguments. When it accepts them, all
that is then observed, whatever comes, is as on a new engine with the resulting configuration and
the same callbacks. The callbacks may turn back to the engine, and the two engines may enumerate
their populations in different orders. -/
theorem init_fresh {h h' : Host} (alike : h'.Alike h) (s : State) (args : List String) :
    (∀ fault, s.config.apply args = .error fault →
      (s.init args).1 = false ∧ (s.init args).2.1 = s) ∧
    ∀ config, s.config.apply args = .ok config → (s.init args).1 = true ∧
      ∀ commands : List Command,
        let used := (s.init args).2.1.execAll h commands
        let new := (build s.policy config true s.listening).1.execAll h' commands
        used.2 = new.2 ∧ used.1.counters = new.1.counters ∧ used.1.sizes = new.1.sizes ∧
          used.1.config = new.1.config := by
  refine ⟨fun fault rejected => init_of_error rejected, fun config accepted => ?_⟩
  obtain ⟨opened, state⟩ := init_of_ok accepted
  refine ⟨opened, fun commands => ?_⟩
  rw [state]
  obtain ⟨⟨heap, blocks, same⟩, out⟩ :=
    execAll_follows alike (s.opened_renumbered config) commands
  refine ⟨out, ?_⟩
  rw [same]
  refine ⟨rfl, ?_, rfl⟩
  show [_, _, _, heap.live.size, heap.freed.size] = _
  rw [blocks.live, blocks.freed.size]
  rfl

/-- An engine that has numbered seven freed blocks is opened with a limit on threads, and two
threads write to one location. -/
theorem init_fresh_numbered :
    Host.recording.Alike Host.recording ∧
    Config.default.apply ["--max-threads=2"] = .ok { Config.default with maxThreads := 2 } ∧
    let s := (State.new .replay Config.default).withTables (Tables.empty 65536 7)
    let commands : List Command := [.event (.write 1 5 256 8), .event (.write 2 6 256 8)]
    (s.init ["--max-threads=2"]).1 = true ∧
      ((s.init ["--max-threads=2"]).2.1.execAll .recording commands).2 =
        ((build .replay { Config.default with maxThreads := 2 } true false).1.execAll .recording
          commands).2 := by
  have alike : Host.recording.Alike Host.recording := Host.recording_alike .sorted .sorted
  have accepted : Config.default.apply ["--max-threads=2"] =
    .ok { Config.default with maxThreads := 2 } := rfl
  obtain ⟨_, fresh⟩ := init_fresh alike
    ((State.new .replay Config.default).withTables (Tables.empty 65536 7)) ["--max-threads=2"]
  obtain ⟨opened, after⟩ := fresh _ accepted
  exact ⟨alike, accepted, opened, (after _).1⟩

end RaceMonitor.State
