import RaceMonitor.Engine.Basic

/-! What the log says about limits.

An engine warns of a limit the first time it binds, and remembers that it did until a session is
opened. A reader of the log can keep the same account (`Exhausted.follow`); a log on which the two
agree warns of no resource twice between two openings (`Exhausted.warns_le`). -/
namespace RaceMonitor

namespace Output

/-- The note of a session that has been opened. -/
def opens : Output → Bool
  | .note (.initialized ..) => true
  | _ => false

/-- The warning that the limit on `r` is reached. -/
def warns (r : Resource) : Output → Bool
  | .note (.limitReached r' _) => r' == r
  | _ => false

end Output

/-- The log says that a session has been opened just when the arguments were accepted. -/
theorem State.init_opens (s : State) (args : List String) :
    (s.init args).2.2.any Output.opens = (s.init args).1 := by
  have ignored : ∀ l : List String,
      (l.map fun a => Output.note (.argumentIgnored a)).any Output.opens = false := fun l => by
    simp [Output.opens]
  unfold init
  dsimp only
  split <;> simp [ignored, Output.opens]

namespace Exhausted

@[simp] theorem get_none (r : Resource) : none.get r = false := by
  cases r <;> rfl

@[simp] theorem get_mark (e : Exhausted) (r r' : Resource) :
    (e.mark r).get r' = (r == r' || e.get r') := by
  cases r <;> cases r' <;> simp [mark, get]

/-- The account after one more line of the log. There is none after a second warning. -/
def hear (e : Exhausted) : Output → Option Exhausted
  | .note (.initialized ..) => some .none
  | .note (.limitReached r _) => if e.get r then Option.none else some (e.mark r)
  | _ => some e

def follow (e : Exhausted) (out : List Output) : Option Exhausted := out.foldlM hear e

@[simp] theorem follow_nil (e : Exhausted) : e.follow [] = some e := rfl

@[simp] theorem follow_cons (e : Exhausted) (o : Output) (out : List Output) :
    e.follow (o :: out) = (e.hear o).bind (·.follow out) := rfl

@[simp] theorem follow_append (e : Exhausted) (a b : List Output) :
    e.follow (a ++ b) = (e.follow a).bind (·.follow b) :=
  List.foldlM_append

/-- Where no session is opened, a resource that has been warned of stays so. -/
theorem warns_le {e e' : Exhausted} {out : List Output} (followed : e.follow out = some e')
    (none : out.any Output.opens = false) (r : Resource) :
    out.countP (Output.warns r) + (e.get r).toNat ≤ 1 := by
  induction out generalizing e with
  | nil => exact Nat.le_trans (by simp) (Bool.toNat_le (e.get r))
  | cons o out ih =>
    obtain ⟨first, none⟩ := Bool.or_eq_false_iff.mp none
    obtain ⟨e₁, heard, followed⟩ := Option.bind_eq_some_iff.mp followed
    have rest := ih followed none
    rw [List.countP_cons]
    have aside : o.warns r = false → e₁ = e →
        out.countP (Output.warns r) + (if o.warns r then 1 else 0) + (e.get r).toNat ≤ 1 := by
      rintro quiet rfl
      simpa [quiet] using rest
    cases o with
    | race race => exact aside rfl (Option.some.inj heard).symm
    | anomaly a => exact aside rfl (Option.some.inj heard).symm
    | note n =>
      cases n with
      | initialized policy config => cases first
      | limitReached r' limit =>
        simp only [hear, Option.ite_none_left_eq_some, Option.some.injEq] at heard
        obtain ⟨unmarked, rfl⟩ := heard
        by_cases same : r' = r
        · subst same
          simp [Output.warns, unmarked] at rest ⊢
          omega
        · have apart : (r' == r) = false := by simpa using same
          simpa [Output.warns, apart] using rest
      | _ => exact aside rfl (Option.some.inj heard).symm

end Exhausted

/-- A stretch of log that says nothing about limits and openings. -/
def Tacit (out : List Output) : Prop := ∀ e : Exhausted, e.follow out = some e

namespace Tacit

theorem nil : Tacit [] := fun _ => rfl

theorem append {a b : List Output} (first : Tacit a) (second : Tacit b) : Tacit (a ++ b) :=
  fun e => by rw [Exhausted.follow_append, first e, Option.bind_some, second e]

theorem tickNote (t : Thread) : Tacit (State.tickNote t) := by
  unfold State.tickNote
  split <;> exact fun _ => rfl

end Tacit

end RaceMonitor
