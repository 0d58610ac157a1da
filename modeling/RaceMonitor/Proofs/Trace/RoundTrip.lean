import RaceMonitor.Proofs.Json.Written
import RaceMonitor.Proofs.Trace.Lines

/-! Traces that were written are read as they were.

An event is written as an object: its kind first, and then the fields of that kind, each under its
own name. The reader collects the fields (`Event.takes_members`) and finds each of them again
(`Event.ofFields_fields`). The text has no line feed in it and no blank at its ends, so it comes
back as one line of the trace (`Trace.eventOf_toJson`). -/
namespace RaceMonitor

namespace Event

theorem Kind.plain (k : Kind) : Json.Plain k.name := by
  cases k <;> decide

theorem Kind.ofName?_name (k : Kind) : ofName? k.name = some k := by
  cases k <;> rfl

/-- No field is mistaken for the kind. -/
theorem members_names (e : Event) :
    (e.members.2.all fun m => m.1 != "event" && m.1.toList.all Json.plain) = true := by
  cases e <;> simp only [members, members.place, List.all_cons, List.all_nil] <;> decide

/-- Every value can be read. -/
theorem members_values (e : Event) : ∀ m ∈ e.members.2, m.2.Legible := by
  have word : ∀ w : Word, (members.word w).Legible := fun w => w.toNat_lt_size
  have thread : ∀ t : ThreadId, (members.id t).Legible := fun t =>
    Nat.lt_trans t.toNat_lt_size (by decide)
  have boolean : ∀ b : Bool, (Json.Scalar.boolean b).Legible := fun _ => trivial
  cases e <;> simp [members, members.place, word, thread, boolean]

theorem members_legible (e : Event) {m : String × Json.Scalar} (mem : m ∈ e.members.2) :
    m.1 ≠ "event" ∧ Json.Plain m.1 ∧ m.2.Legible := by
  have name := List.all_eq_true.mp e.members_names m mem
  rw [Bool.and_eq_true, bne_iff_ne] at name
  exact ⟨name.1, name.2, e.members_values m mem⟩

/-- What the fields are read as. -/
def fields (e : Event) : List (String × Json.Value) :=
  e.members.2.map fun m => (m.1, m.2.value)

theorem scanMember_kind (k : Kind) {rest : List Char} (ends : Json.Ends rest) :
    scanMember (none, []) "event" (':' :: ((Json.Scalar.name k.name).text.toList ++ rest)) =
      .ok ((some k, []), rest) := by
  have colon : ∀ cs, Json.colon (':' :: cs) = .ok cs := fun cs => rfl
  rw [scanMember, if_neg (by simp), colon]
  dsimp only
  rw [if_pos rfl, scanKind, Json.stringValue_text k.plain ends]
  dsimp only
  rw [Kind.ofName?_name]
  rfl

theorem scanMember_field {m : String × Json.Scalar} (other : m.1 ≠ "event")
    (legible : m.2.Legible) (k : Option Kind) (read : List (String × Json.Value))
    {rest : List Char} (ends : Json.Ends rest) :
    scanMember (k, read) m.1 (':' :: (m.2.text.toList ++ rest)) =
      .ok ((k, read ++ [(m.1, m.2.value)]), rest) := by
  have colon : ∀ cs, Json.colon (':' :: cs) = .ok cs := fun cs => rfl
  rw [scanMember, if_neg (fun both => other both.1), colon]
  dsimp only
  rw [if_neg other, scanInner, Json.value_text legible ends]
  rfl

theorem takes_fields {ms : List (String × Json.Scalar)}
    (legible : ∀ m ∈ ms, m.1 ≠ "event" ∧ Json.Plain m.1 ∧ m.2.Legible) (k : Option Kind)
    (read : List (String × Json.Value)) :
    Json.Takes scanMember (k, read) ms (k, read ++ ms.map fun m => (m.1, m.2.value)) := by
  induction ms generalizing read with
  | nil =>
    rw [List.map_nil, List.append_nil]
    exact .nil _
  | cons m ms ih =>
    obtain ⟨other, key, value⟩ := legible m List.mem_cons_self
    have more := ih (fun m' mem => legible m' (List.mem_cons_of_mem m mem))
      (read ++ [(m.1, m.2.value)])
    rw [List.append_assoc] at more
    exact .cons key (fun rest ends => scanMember_field other value k read ends) more

/-- The reader gets to the kind and the fields of an event. -/
theorem takes_members (e : Event) :
    Json.Takes scanMember (none, []) (("event", .name e.members.1.name) :: e.members.2)
      (some e.members.1, e.fields) := by
  have key : Json.Plain "event" := by decide
  exact .cons key (fun _ ends => scanMember_kind e.members.1 ends)
    (takes_fields (fun _ mem => e.members_legible mem) _ [])

/-! ### Fields -/

section Fields

variable {f : Fields} {name : String} {position : Nat}

theorem word_of_value {w : Word}
    (found : f.value? name position = .ok (some (members.word w).value)) :
    f.word name position = .ok w := by
  simp only [Fields.word, found, members.word, Json.Scalar.value, UInt64.ofNat_toNat]
  rfl

theorem thread_of_value {t : ThreadId}
    (found : f.value? name position = .ok (some (members.id t).value)) :
    f.thread name position = .ok t := by
  have small := t.toNat_lt_size
  have fits : t.toNat < UInt64.size := Nat.lt_trans small (by decide)
  have word : f.word name position = .ok (UInt64.ofNat t.toNat) := by
    simp only [Fields.word, found, members.id, Json.Scalar.value]
    rfl
  have same : (UInt64.ofNat t.toNat).toNat = t.toNat := UInt64.toNat_ofNat_of_lt' fits
  simp only [Fields.thread, word, bind, Except.bind, same, small, if_true, UInt32.ofNat_toNat]

theorem boolean_of_value {b ifAbsent : Bool}
    (found : f.value? name position = .ok (some (Json.Scalar.boolean b).value)) :
    f.boolean name position ifAbsent = .ok b := by
  simp only [Fields.boolean, found, Json.Scalar.value]
  rfl

end Fields

section Members

variable {ms : List (String × Json.Value)} {a b : String} {x y : ThreadId} {u v w : Word}

theorem pair_fields {make : ThreadId → ThreadId → Event}
    (first : (Fields.named ms).value? a 0 = .ok (some (members.id x).value))
    (second : (Fields.named ms).value? b 1 = .ok (some (members.id y).value)) :
    ofFields.pair (.named ms) a b make = .ok (make x y) := by
  rw [ofFields.pair, thread_of_value first, thread_of_value second]
  rfl

theorem point_fields {make : ThreadId → Word → Event}
    (first : (Fields.named ms).value? "tid" 0 = .ok (some (members.id x).value))
    (second : (Fields.named ms).value? a 1 = .ok (some (members.word u).value)) :
    ofFields.point (.named ms) a make = .ok (make x u) := by
  rw [ofFields.point, thread_of_value first, word_of_value second]
  rfl

theorem place_fields {make : ThreadId → Word → Word → Word → Event}
    (named : ms = (members.place x u v w).map fun m => (m.1, m.2.value)) :
    ofFields.place (.named ms) make = .ok (make x u v w) := by
  subst named
  rw [ofFields.place, thread_of_value rfl, word_of_value rfl, word_of_value rfl,
    word_of_value rfl]
  rfl

end Members

/-- Every field is found under its name. -/
theorem ofFields_fields (e : Event) : ofFields (.named e.fields) e.members.1 = .ok e := by
  cases e with
  | fork parent child => exact pair_fields rfl rfl
  | join parent child => exact pair_fields rfl rfl
  | detach by_ tid => exact pair_fields rfl rfl
  | finish by_ tid => exact pair_fields rfl rfl
  | read tid pc addr size => exact place_fields rfl
  | write tid pc addr size => exact place_fields rfl
  | alloc tid pc addr size => exact place_fields rfl
  | free tid addr => exact point_fields rfl rfl
  | happensBefore tid id => exact point_fields rfl rfl
  | happensAfter tid id => exact point_fields rfl rfl
  | enter tid pc => exact point_fields rfl rfl
  | acquire tid lock recursive isWrite =>
    let f := Fields.named (Event.acquire tid lock recursive isWrite).fields
    have thread : f.thread "tid" 0 = .ok tid := thread_of_value rfl
    have word : f.word "lock" 1 = .ok lock := word_of_value rfl
    have again : f.boolean "recursive" 2 false = .ok recursive := boolean_of_value rfl
    have alone : f.boolean "is_write" 3 true = .ok isWrite := boolean_of_value rfl
    show ofFields f .acquire = _
    rw [ofFields, thread, word, again, alone]
    rfl
  | release tid lock isWrite =>
    let f := Fields.named (Event.release tid lock isWrite).fields
    have thread : f.thread "tid" 0 = .ok tid := thread_of_value rfl
    have word : f.word "lock" 1 = .ok lock := word_of_value rfl
    have alone : f.boolean "is_write" 2 true = .ok isWrite := boolean_of_value rfl
    show ofFields f .release = _
    rw [ofFields, thread, word, alone]
    rfl
  | exit tid =>
    let f := Fields.named (Event.exit tid).fields
    have thread : f.thread "tid" 0 = .ok tid := thread_of_value rfl
    show ofFields f .exit = _
    rw [ofFields, thread]
    rfl
  | mapShadow start size =>
    let f := Fields.named (Event.mapShadow start size).fields
    have first : f.word "start" 0 = .ok start := word_of_value rfl
    have second : f.word "size" 1 = .ok size := word_of_value rfl
    show ofFields f .mapShadow = _
    rw [ofFields, first, second]
    rfl

/-- An event is read as it was written. -/
theorem ofJson_toJson (e : Event) : ofJson e.toJson.toList = .ok e := by
  have scanned : scanFields e.toJson.toList = .ok ((e.members.1, .named e.fields), []) := by
    have read := e.takes_members.members_text []
    rw [toJson, Json.objectText_toList, scanFields, Json.skipBlanks_cons rfl]
    simp only [read]
  rw [ofJson, Json.whole, scan, scanned]
  dsimp only
  rw [ofFields_fields]
  rfl

end Event

/-- Nothing is trimmed off a text that has no blanks at its ends. -/
theorem Text.trim_solid {first last : Char} (solid : isBlank first = false)
    (solid' : isBlank last = false) (cs : List Char) :
    trim (first :: (cs ++ [last])) = first :: (cs ++ [last]) := by
  have whole : ∀ {c : Char} (_ : isBlank c = false) (cs : List Char),
      (c :: cs).dropWhile isBlank = c :: cs := fun solid _ =>
    List.dropWhile_cons_of_neg (by simp [solid])
  rw [trim, whole solid, ← List.cons_append, List.reverse_append, List.reverse_singleton,
    List.singleton_append, whole solid', List.reverse_cons, List.reverse_reverse]

namespace Trace

theorem eventOf_toJson (number : Nat) (e : Event) :
    eventOf number e.toJson.toUTF8.toList = .ok (some e) := by
  have text : e.toJson.toList = '{' ::
      ((Json.memberText ("event", .name e.members.1.name)).toList ++
        Json.laterText e.members.2 ++ ['}']) := by
    rw [Event.toJson, Json.objectText_toList, List.append_assoc]
  have read := e.ofJson_toJson
  unfold eventOf
  rw [fromUTF8?_toUTF8]
  dsimp only
  rw [text] at read ⊢
  rw [Text.trim_solid rfl rfl]
  split
  · rename_i empty
    cases empty
  · rename_i comment
    cases (List.cons.inj comment).1
  · rw [read]

/-- The text of an event is one line. -/
theorem lineFeed_not_mem_toJson (e : Event) : lineFeed ∉ e.toJson.toUTF8.toList := by
  have legible : ∀ m ∈ ("event", Json.Scalar.name e.members.1.name) :: e.members.2,
      Json.Plain m.1 ∧ m.2.Legible := by
    intro m mem
    rcases List.mem_cons.mp mem with rfl | mem
    · have key : Json.Plain "event" := by decide
      exact ⟨key, e.members.1.plain⟩
    · exact (e.members_legible mem).2
  refine lineFeed_not_mem fun c mem => ?_
  simpa [Json.visible] using List.all_eq_true.mp (Json.visible_object legible) c mem

/-- A trace that was written has one line for each event. -/
theorem lines_write (es : List Event) :
    lines (write es) = es.map fun e => e.toJson.toUTF8.toList := by
  induction es with
  | nil => rfl
  | cons e es ih =>
    have written : write (e :: es) = e.toJson.toUTF8.toList ++ [lineFeed] ++ write es := by
      simp [write, texts]
    rw [written, lines_line (lineFeed_not_mem_toJson e), ih, List.map_cons]

theorem eventsFrom_toJson (es : List Event) (number : Nat) :
    eventsFrom number (es.map fun e => e.toJson.toUTF8.toList) = .ok es := by
  induction es generalizing number with
  | nil => rfl
  | cons e es ih =>
    rw [List.map_cons, eventsFrom, eventOf_toJson]
    dsimp only
    rw [ih]
    rfl

/-- **A trace that was written is read as it was**: whatever the events are, and whatever their
fields hold, reading the bytes gives back the same events in the same order. -/
theorem read_write (es : List Event) : read (write es) = .ok es := by
  rw [read, lines_write, eventsFrom_toJson]

end Trace

end RaceMonitor
