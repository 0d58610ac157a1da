import RaceMonitor.Proofs.Engine.Step
import RaceMonitor.Proofs.Order.Exactness

/-! Accesses in a session.

The history of a location changes only when an access there is processed, and when a range
around it is allocated (`shadow_succ`). Races come from processed accesses only
(`mem_races`). -/
namespace RaceMonitor.Session

variable {r : Session}

theorem config_heard (r : Session) (n : Nat) :
    (r.state n).config = r.start.config ∧ (r.state n).heard = r.start.heard := by
  refine r.invariant (p := fun s => s.config = r.start.config ∧ s.heard = r.start.heard)
    ⟨rfl, rfl⟩ (fun n e _ ⟨config, heard⟩ => ?_) n
  have frame := State.step_frame r.quiet (r.state n) e
  exact ⟨frame.config.trans config, frame.heard.trans heard⟩

theorem config (r : Session) (n : Nat) : (r.state n).config = r.start.config := (r.config_heard n).1

theorem heard (r : Session) (n : Nat) : (r.state n).heard = r.start.heard := (r.config_heard n).2

/-- What event `n` does to histories and blocks, and the races that it delivers. -/
theorem remembers {n : Nat} {e : Event} (h : r.events[n]? = some e) :
    State.Remembers (r.state n) r.host e (r.state (n + 1)) (r.races n) := by
  have step := (r.state n).step_remembers r.quiet e
  rw [← state_succ h, ← output_eq h] at step
  exact step

theorem Processed.touches {n : Nat} {write : Bool} {tid : ThreadId} {pc addr size : Word}
    {t : Thread} (h : r.Processed n write tid pc addr size t) : r.Touches n tid t :=
  ⟨⟨_, h.event, by cases write <;> rfl⟩, h.tracked⟩

theorem Processed.tid_eq {n : Nat} {write : Bool} {tid : ThreadId} {pc addr size : Word}
    {t : Thread} (h : r.Processed n write tid pc addr size t) : t.tid = tid :=
  (r.tidy (n + 1)).keyed tid t h.tracked

/-- An access of a tracked thread, handled, is processed for it. -/
theorem processed_of_handled {n : Nat} {write : Bool} {tid : ThreadId} {pc addr size : Word}
    (event : r.events[n]? = some (.access write tid pc addr size)) {delivered : List Race}
    (handled : Handled (r.state n) write tid pc addr size (r.state (n + 1)) delivered) :
    (tid ∉ (r.state (n + 1)).tables.threads ∧
      (r.state (n + 1)).tables = (r.state n).tables ∧ delivered = []) ∨
    ∃ t, r.Processed n write tid pc addr size t ∧
      Accessed (r.state n) t write pc addr size (r.state (n + 1)) delivered := by
  generalize hs : r.state (n + 1) = s' at handled
  cases handled with
  | refused missing _ config heard tables =>
    exact .inl ⟨tables ▸ missing, hs ▸ tables, rfl⟩
  | entered t s₁ enter _ threads _ accessed =>
    have tracked : (r.state (n + 1)).tables.threads[tid]? = some t := by
      rw [hs, threads.1]
      exact enter.there
    exact .inr ⟨t, ⟨event, tracked⟩, accessed⟩

theorem handled {n : Nat} {write : Bool} {tid : ThreadId} {pc addr size : Word}
    (event : r.events[n]? = some (.access write tid pc addr size)) :
    Handled (r.state n) write tid pc addr size (r.state (n + 1)) (r.races n) := by
  have handled := State.access_handled r.quiet (r.state n) write tid pc addr size
  rw [← State.step_access, ← state_succ event, ← output_eq event] at handled
  exact handled

theorem processed_of_tracked {n : Nat} {write : Bool} {tid : ThreadId} {pc addr size : Word}
    {t : Thread} (event : r.events[n]? = some (.access write tid pc addr size))
    (tracked : (r.state n).tables.threads[tid]? = some t) :
    r.Processed n write tid pc addr size t := by
  have there : tid ∈ (r.state n).tables.threads := Table.mem_iff_exists.mpr ⟨t, tracked⟩
  have handled := handled event
  refine ⟨event, ?_⟩
  generalize r.state (n + 1) = s' at handled
  generalize r.races n = delivered at handled
  cases handled with
  | refused missing => exact absurd there missing
  | entered t' s₁ enter _ threads =>
    rw [threads.1]
    cases enter with
    | known t' there' => exact there'.trans (there'.symm.trans tracked)
    | made missing => exact absurd there missing

theorem Processed.accessed {n : Nat} {write : Bool} {tid : ThreadId} {pc addr size : Word}
    {t : Thread} (h : r.Processed n write tid pc addr size t) :
    Accessed (r.state n) t write pc addr size (r.state (n + 1)) (r.races n) := by
  rcases processed_of_handled h.event (handled h.event) with ⟨missing, _⟩ | ⟨t', h', accessed⟩
  · exact absurd (Table.mem_iff_exists.mpr ⟨t, h.tracked⟩) missing
  · rw [show t = t' from Option.some.inj (h.tracked.symm.trans h'.tracked)]
    exact accessed

/-- Event `n` drops the history of `x`. -/
def Wipes (r : Session) (n : Nat) (x : Word) : Prop :=
  r.start.config.trackAllocations = true ∧ ∃ tid pc addr size,
    r.events[n]? = some (.alloc tid pc addr size) ∧ Extent.spans ⟨addr, size⟩ x = true

/-- Up to the end of the address space, an allocation reaches as far as the program means. -/
theorem wipes_iff_resets {n : Nat} {x : Word} (hx : x ≠ Word.top) :
    r.Wipes n x ↔ r.Resets n x := by
  simp only [Wipes, Resets, Extent.spans_iff hx]

/-- Only allocations drop anything. -/
theorem not_wipes_of_other {n : Nat} {e : Event} (event : r.events[n]? = some e)
    (other : ∀ tid pc addr size, e ≠ .alloc tid pc addr size) (x : Word) : ¬ r.Wipes n x := by
  rintro ⟨_, tid, pc, addr, size, event', _⟩
  exact other tid pc addr size (Option.some.inj (event.symm.trans event'))

theorem not_wipes_of_access {n : Nat} {write : Bool} {tid : ThreadId} {pc addr size : Word}
    (event : r.events[n]? = some (.access write tid pc addr size)) (x : Word) : ¬ r.Wipes n x :=
  not_wipes_of_other event (by cases write <;> exact nofun) x

theorem Processed.not_wipes {n : Nat} {write : Bool} {tid : ThreadId} {pc addr size : Word}
    {t : Thread} (h : r.Processed n write tid pc addr size t) (x : Word) : ¬ r.Wipes n x :=
  not_wipes_of_access h.event x

/-- An allocation drops the histories in its range, where allocations are tracked. -/
theorem wipes_iff_spans {n : Nat} {tid : ThreadId} {pc addr size : Word}
    (event : r.events[n]? = some (.alloc tid pc addr size)) (x : Word) :
    r.Wipes n x ↔
      (r.state n).config.trackAllocations = true ∧ Extent.spans ⟨addr, size⟩ x = true := by
  rw [r.config, Wipes]
  refine and_congr_right fun _ => ⟨?_, fun spans => ⟨tid, pc, addr, size, event, spans⟩⟩
  rintro ⟨_, _, _, _, event', spans⟩
  cases event.symm.trans event'
  exact spans

/-- What event `n` does to the history of `x`. -/
theorem shadow_succ (r : Session) (n : Nat) (x : Word) :
    (∃ write tid pc size t, r.Processed n write tid pc x size t ∧
      (r.state (n + 1)).tables.shadow[x]? =
        some ((r.state n).checked t write pc x size).2) ∨
    (r.Wipes n x ∧ (r.state (n + 1)).tables.shadow[x]? = none) ∨
    (¬ r.Wipes n x ∧ (r.state (n + 1)).tables.shadow[x]? = (r.state n).tables.shadow[x]?) := by
  cases event : r.events[n]? with
  | none =>
    have unwiped : ¬ r.Wipes n x := fun ⟨_, _, _, _, _, event', _⟩ =>
      nomatch event.symm.trans event'
    exact .inr (.inr ⟨unwiped, by rw [state_succ_of_none event]⟩)
  | some e =>
    have step := remembers event
    generalize r.races n = delivered at step
    generalize hs : r.state (n + 1) = s' at step
    cases step with
    | @accessed write tid pc addr size _ _ handled =>
      subst hs
      rcases processed_of_handled event handled with ⟨_, tables, _⟩ | ⟨t, processed, accessed⟩
      · exact .inr (.inr ⟨not_wipes_of_access event x, by rw [tables]⟩)
      · rw [accessed.shadow]
        split
        · rename_i here
          obtain ⟨rfl, _⟩ := here
          exact .inl ⟨write, tid, pc, size, t, processed, rfl⟩
        · exact .inr (.inr ⟨not_wipes_of_access event x, rfl⟩)
    | allocated allocated =>
      rw [wipes_iff_spans event, allocated.shadow_get]
      split
      · rename_i wiped
        exact .inr (.inl ⟨wiped, rfl⟩)
      · rename_i unwiped
        exact .inr (.inr ⟨unwiped, rfl⟩)
    | freed deallocated =>
      exact .inr (.inr ⟨not_wipes_of_other event nofun x, by rw [deallocated.shadow]⟩)
    | aside _ unallocated aside =>
      exact .inr (.inr ⟨not_wipes_of_other event unallocated x, by rw [aside.shadow]⟩)

/-- A race comes from a processed access. -/
theorem mem_races {n : Nat} {race : Race} (h : race ∈ r.races n) :
    ∃ write tid pc addr size t, r.Processed n write tid pc addr size t ∧
      race ∈ (r.state n).report t write pc addr size := by
  cases event : r.events[n]? with
  | none => simp [races, output, event] at h
  | some e =>
    have step := remembers event
    generalize r.races n = delivered at step h
    generalize hs : r.state (n + 1) = s' at step
    cases step with
    | accessed handled =>
      rename_i write tid pc addr size
      subst hs
      rcases processed_of_handled event handled with ⟨_, _, none⟩ | ⟨t, processed, accessed⟩
      · simp [none] at h
      · rw [accessed.races] at h
        split at h
        · exact ⟨write, tid, pc, addr, size, t, processed, h⟩
        · simp at h
    | allocated | freed | aside => simp at h

end RaceMonitor.Session
