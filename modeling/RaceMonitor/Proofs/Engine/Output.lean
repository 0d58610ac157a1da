import RaceMonitor.Note

/-! What a step lets out.

Races and anomalies are handed to their callbacks, and an anomaly is noted as well, whether or not
there is a callback for it. Everything else is a note. What a look-up lets out is `Plain`: notes,
and of no anomaly. -/
namespace RaceMonitor

/-- The races that an event hands to the callback. -/
def races (out : List Output) : List Race := out.filterMap Output.race?

@[simp] theorem races_nil : races [] = [] := rfl

@[simp] theorem races_append (a b : List Output) : races (a ++ b) = races a ++ races b :=
  List.filterMap_append

@[simp] theorem races_note (n : Note) (out : List Output) :
    races (.note n :: out) = races out := rfl

@[simp] theorem races_race (r : Race) (out : List Output) :
    races (.race r :: out) = r :: races out := rfl

/-- The anomaly that an output takes note of. -/
def Output.noted? : Output → Option Anomaly
  | .note (.anomaly a) => some a
  | _ => none

/-- The anomalies that an event is reported for, whether or not there is a callback. -/
def anomalies (out : List Output) : List Anomaly := out.filterMap Output.noted?

@[simp] theorem anomalies_nil : anomalies [] = [] := rfl

@[simp] theorem anomalies_append (a b : List Output) :
    anomalies (a ++ b) = anomalies a ++ anomalies b :=
  List.filterMap_append

@[simp] theorem anomalies_cons (o : Output) (out : List Output) :
    anomalies (o :: out) = o.noted?.toList ++ anomalies out := by
  cases found : o.noted? <;> simp [anomalies, found]

/-- What the callbacks are handed: all but the notes. -/
def delivered (out : List Output) : List Output :=
  out.filter fun
    | .note _ => false
    | _ => true

@[simp] theorem delivered_nil : delivered [] = [] := rfl

@[simp] theorem delivered_append (a b : List Output) :
    delivered (a ++ b) = delivered a ++ delivered b :=
  List.filter_append ..

@[simp] theorem delivered_note (n : Note) (out : List Output) :
    delivered (.note n :: out) = delivered out := rfl

@[simp] theorem delivered_race (r : Race) (out : List Output) :
    delivered (.race r :: out) = .race r :: delivered out := rfl

@[simp] theorem delivered_anomaly (a : Anomaly) (out : List Output) :
    delivered (.anomaly a :: out) = .anomaly a :: delivered out := rfl

theorem races_delivered (out : List Output) : races (delivered out) = races out := by
  induction out with
  | nil => rfl
  | cons o out ih =>
    cases o with
    | note n => exact ih
    | race r => exact congrArg (r :: ·) ih
    | anomaly a => exact ih

/-- The anomalies that are handed to the callback. -/
def announced (out : List Output) : List Anomaly := out.filterMap Output.anomaly?

@[simp] theorem announced_nil : announced [] = [] := rfl

@[simp] theorem announced_append (a b : List Output) :
    announced (a ++ b) = announced a ++ announced b :=
  List.filterMap_append

/-- The callbacks are handed races and anomalies. -/
theorem length_delivered (out : List Output) :
    (delivered out).length = (races out).length + (announced out).length := by
  induction out with
  | nil => rfl
  | cons o out ih =>
    cases o with
    | note n => exact ih
    | race r =>
      show (delivered out).length + 1 = (races out).length + 1 + (announced out).length
      omega
    | anomaly a =>
      show (delivered out).length + 1 = (races out).length + ((announced out).length + 1)
      omega

/-- Notes, of anything but anomalies. -/
structure Plain (out : List Output) : Prop where
  delivered : delivered out = []
  anomalies : anomalies out = []

namespace Plain

variable {out out' : List Output}

theorem nil : Plain [] := ⟨rfl, rfl⟩

theorem note (n : Note) (other : ∀ a, n ≠ .anomaly a) : Plain [.note n] := by
  refine ⟨rfl, ?_⟩
  cases n with
  | anomaly a => exact absurd rfl (other a)
  | _ => rfl

theorem append (plain : Plain out) (plain' : Plain out') : Plain (out ++ out') :=
  ⟨by rw [delivered_append, plain.delivered, plain'.delivered]; rfl,
    by rw [anomalies_append, plain.anomalies, plain'.anomalies]; rfl⟩

theorem races (plain : Plain out) : races out = [] := by
  rw [← races_delivered, plain.delivered, races_nil]

theorem announced (plain : Plain out) : announced out = [] := by
  have lengths := length_delivered out
  rw [plain.delivered, List.length_nil] at lengths
  exact List.length_eq_zero_iff.mp (by omega)

end Plain

end RaceMonitor
