import RaceMonitor.Proofs.Engine.Opening

/-! Arguments one after the other.

A flag that takes a number takes the next argument for it, whatever that looks like, so arguments
cannot be read one by one. They can be read in groups: an argument alone, or a flag and the
argument behind it (`Takes`). Accepted arguments are such groups one after the other
(`apply_applied`), and what is said of one group extends to all of them: the arguments behind
apply to what those before made of the configuration, and of a setting that is given more than
once the last value stays (`apply_composes`). -/
namespace RaceMonitor.Config

/-! ### Flags -/

def noTrackingFlag : String := "--no-alloc-tracking"

/-- The argument is the flag, alone or with a value behind an equals sign. -/
def Carries (arg flag : String) : Prop := arg = flag ∨ ∃ value, arg = flag ++ "=" ++ value

/-- The ways to give a setting a value. -/
def Spells (s : Setting) (raw : String) (used : List String) : Prop :=
  used = [s.flag ++ "=" ++ raw] ∨ used = [s.flag, raw]

/-- What an argument is split into. -/
inductive Split (arg : String) : String × Option String → Prop where
  | alone (plain : '=' ∉ arg.toList) : Split arg (arg, none)
  | valued (flag value : String) (plain : '=' ∉ flag.toList) (joined : arg = flag ++ "=" ++ value) :
    Split arg (flag, some value)

theorem splitArgument_split (arg : String) : Split arg (splitArgument arg) := by
  have parts := List.takeWhile_append_dropWhile (p := (· != '=')) (l := arg.toList)
  have plain : '=' ∉ arg.toList.takeWhile (· != '=') := fun mem => by
    simpa using List.all_eq_true.mp List.all_takeWhile '=' mem
  have head := List.head?_dropWhile_not (· != '=') arg.toList
  unfold splitArgument
  generalize arg.toList.takeWhile (· != '=') = front at parts plain
  generalize arg.toList.dropWhile (· != '=') = back at parts head
  cases back with
  | nil =>
    rw [List.append_nil] at parts
    exact .alone (parts ▸ plain)
  | cons c value =>
    obtain rfl : c = '=' := by simpa using head
    refine .valued _ _ (by rwa [String.toList_ofList]) ?_
    apply String.toList_inj.mp
    rw [← parts]
    simp

theorem splitArgument_flag {flag : String} (plain : '=' ∉ flag.toList) :
    splitArgument flag = (flag, none) := by
  have split := splitArgument_split flag
  generalize splitArgument flag = result at split
  cases split with
  | alone => rfl
  | valued front value _ joined => simp [joined] at plain

theorem splitArgument_value {flag : String} (plain : '=' ∉ flag.toList) (value : String) :
    splitArgument (flag ++ "=" ++ value) = (flag, some value) := by
  have passes : ∀ c ∈ flag.toList, (c != '=') = true := fun c mem => by
    simpa using fun same : c = '=' => plain (same ▸ mem)
  have text : (flag ++ "=" ++ value).toList = flag.toList ++ '=' :: value.toList := by simp
  simp [splitArgument, text, List.takeWhile_append_of_pos passes,
    List.dropWhile_append_of_pos passes]

theorem carries_iff {arg flag : String} (plain : '=' ∉ flag.toList) :
    Carries arg flag ↔ (splitArgument arg).1 = flag := by
  constructor
  · rintro (rfl | ⟨value, rfl⟩)
    · rw [splitArgument_flag plain]
    · rw [splitArgument_value plain]
  · have split := splitArgument_split arg
    generalize splitArgument arg = result at split
    intro same
    cases split with
    | alone => exact .inl same
    | valued front value _ joined => exact .inr ⟨value, same ▸ joined⟩

theorem Setting.flag_plain (s : Setting) : '=' ∉ s.flag.toList := by
  cases s <;> decide

theorem Setting.flag_injective {s s' : Setting} (same : s.flag = s'.flag) : s = s' := by
  cases s <;> cases s' <;> first | rfl | exact absurd same (by decide)

theorem Setting.flag_ne_noTracking (s : Setting) : s.flag ≠ noTrackingFlag := by
  cases s <;> decide

theorem noTrackingFlag_plain : '=' ∉ noTrackingFlag.toList := by decide

theorem Setting.ofFlag?_flag (s : Setting) : Setting.ofFlag? s.flag = some s := by
  cases s <;> decide

/-- An argument carries one flag at most. -/
theorem Carries.eq {arg flag flag' : String} (plain : '=' ∉ flag.toList)
    (plain' : '=' ∉ flag'.toList) (own : Carries arg flag) (own' : Carries arg flag') :
    flag = flag' :=
  ((carries_iff plain).mp own).symm.trans ((carries_iff plain').mp own')

/-! ### What an argument asks for -/

inductive Asks (arg : String) : Request → Prop where
  | noTracking (own : Carries arg noTrackingFlag) : Asks arg .noTracking
  | flag (s : Setting) (own : arg = s.flag) : Asks arg (.set s none)
  | valued (s : Setting) (raw : String) (own : arg = s.flag ++ "=" ++ raw) :
    Asks arg (.set s (some raw))
  | unknown (tracking : ¬ Carries arg noTrackingFlag)
    (foreign : ∀ s : Setting, ¬ Carries arg s.flag) : Asks arg .unknown

theorem ofArgument_asks (arg : String) : Asks arg (Request.ofArgument arg) := by
  have tracking : Carries arg noTrackingFlag ↔ _ := carries_iff noTrackingFlag_plain
  have carries (s : Setting) : Carries arg s.flag ↔ _ := carries_iff s.flag_plain
  have split := splitArgument_split arg
  unfold Request.ofArgument
  rw [show "--no-alloc-tracking" = noTrackingFlag from rfl]
  generalize splitArgument arg = result at tracking carries split
  obtain ⟨flag, value⟩ := result
  dsimp only at tracking carries ⊢
  split
  · rename_i own
    exact .noTracking (tracking.mpr (by simpa using own))
  · rename_i other
    have other : flag ≠ noTrackingFlag := by simpa using other
    split
    · rename_i s found
      obtain rfl : s.flag = flag := by simpa using List.find?_some found
      cases split with
      | alone => exact .flag s rfl
      | valued _ raw _ joined => exact .valued s raw joined
    · rename_i none
      refine .unknown (fun own => other (tracking.mp own)) fun s own => ?_
      rw [(carries s).mp own, s.ofFlag?_flag] at none
      cases none

theorem ofArgument_noTracking {arg : String} (own : Carries arg noTrackingFlag) :
    Request.ofArgument arg = .noTracking := by
  unfold Request.ofArgument
  rcases own with rfl | ⟨value, rfl⟩
  · rw [splitArgument_flag noTrackingFlag_plain]
    rfl
  · rw [splitArgument_value noTrackingFlag_plain]
    rfl

theorem ofArgument_flag (s : Setting) : Request.ofArgument s.flag = .set s none := by
  unfold Request.ofArgument
  rw [splitArgument_flag s.flag_plain]
  cases s <;> rfl

theorem ofArgument_value (s : Setting) (raw : String) :
    Request.ofArgument (s.flag ++ "=" ++ raw) = .set s (some raw) := by
  unfold Request.ofArgument
  rw [splitArgument_value s.flag_plain]
  cases s <;> rfl

theorem ofArgument_unknown {arg : String} (tracking : ¬ Carries arg noTrackingFlag)
    (foreign : ∀ s : Setting, ¬ Carries arg s.flag) : Request.ofArgument arg = .unknown := by
  have asks := ofArgument_asks arg
  generalize Request.ofArgument arg = request at asks
  cases asks with
  | noTracking own => exact absurd own tracking
  | flag s own => exact absurd (.inl own) (foreign s)
  | valued s raw own => exact absurd (.inr ⟨raw, own⟩) (foreign s)
  | unknown => rfl

/-! ### Groups of arguments -/

/-- The value of a setting. -/
def value (c : Config) : Setting → Word
  | .stackSize => c.maxStackSize
  | .maxThreads => c.maxThreads
  | .maxLocks => c.maxLocks
  | .maxLocations => c.maxLocations
  | .maxFreed => c.maxFreed

theorem value_put (c : Config) (v : Word) (s s' : Setting) :
    (c.put v s).value s' = if s' = s then v else c.value s' := by
  cases s <;> cases s' <;> rfl

theorem trackAllocations_put (c : Config) (v : Word) (s : Setting) :
    (c.put v s).trackAllocations = c.trackAllocations := by
  cases s <;> rfl

/-- A group of arguments makes of `c` another configuration. -/
inductive Takes (c : Config) : List String → Config → Prop where
  | unknown (arg : String) (tracking : ¬ Carries arg noTrackingFlag)
    (foreign : ∀ s : Setting, ¬ Carries arg s.flag) : Takes c [arg] c
  | noTracking (arg : String) (own : Carries arg noTrackingFlag) :
    Takes c [arg] { c with trackAllocations := false }
  | set (s : Setting) (raw : String) (used : List String) (spells : Spells s raw used) (v : Word)
    (word : Text.word raw.toList = .ok v) (admits : s.admits v = true) : Takes c used (c.put v s)

/-- What applying arguments comes to: groups are taken one after the other, up to a flag that has
no value or one that is refused. -/
inductive Applied : Config → List String → Except Fault Config → Prop where
  | nil (c : Config) : Applied c [] (.ok c)
  | group {c c₁ : Config} {used args : List String} {result : Except Fault Config}
    (takes : Takes c used c₁) (rest : Applied c₁ args result) : Applied c (used ++ args) result
  | missing (c : Config) (s : Setting) :
    Applied c [s.flag] (.error (.invalidArgument s.flag ValueFault.missing.text))
  | refused {c : Config} {used : List String} (args : List String) (s : Setting) (raw : String)
    (spells : Spells s raw used) (why : ValueFault) (refuses : c.assign s raw = .error why) :
    Applied c (used ++ args) (.error (.invalidArgument s.flag why.text))

variable {c c₁ c' : Config} {s : Setting} {raw : String} {used args : List String}

theorem assign_eq_ok : c.assign s raw = .ok c₁ ↔
    ∃ v, Text.word raw.toList = .ok v ∧ s.admits v = true ∧ c.put v s = c₁ := by
  unfold assign
  cases Text.word raw.toList with
  | error fault => simp
  | ok v => cases admits : s.admits v <;> simp [admits]

/-- Both spellings assign the value, and then apply what comes behind. -/
theorem apply_spelled (spells : Spells s raw used) (c : Config) (args : List String) :
    c.apply (used ++ args) =
      match c.assign s raw with
      | .ok c₁ => c₁.apply args
      | .error fault => .error (.invalidArgument s.flag fault.text) := by
  rcases spells with rfl | rfl
  · rw [List.singleton_append, apply, walk, ofArgument_value]
    dsimp only
    cases c.assign s raw <;> rfl
  · rw [List.cons_append, List.singleton_append, apply, walk, ofArgument_flag]
    dsimp only
    cases c.assign s raw <;> rfl

theorem Takes.apply (takes : Takes c used c₁) (args : List String) :
    c.apply (used ++ args) = c₁.apply args := by
  cases takes with
  | unknown arg tracking foreign =>
    rw [List.singleton_append, Config.apply, walk, ofArgument_unknown tracking foreign]
    rfl
  | noTracking arg own =>
    rw [List.singleton_append, Config.apply, walk, ofArgument_noTracking own]
    rfl
  | set s raw _ spells v word admits =>
    rw [apply_spelled spells, assign_eq_ok.mpr ⟨v, word, admits, rfl⟩]

theorem takes_of_assign (spells : Spells s raw used) (assigned : c.assign s raw = .ok c₁) :
    Takes c used c₁ := by
  obtain ⟨v, word, admits, rfl⟩ := assign_eq_ok.mp assigned
  exact .set s raw used spells v word admits

theorem asks_of_ofArgument {arg : String} {request : Request}
    (asked : Request.ofArgument arg = request) : Asks arg request := asked ▸ ofArgument_asks arg

theorem apply_applied (c : Config) (args : List String) : Applied c args (c.apply args) := by
  unfold Config.apply
  fun_induction walk c args with
  | case1 c => exact .nil c
  | case2 c arg args asked ih =>
    cases asks_of_ofArgument asked with
    | noTracking own => exact .group (.noTracking arg own) ih
  | case3 c arg args asked passed result walked ih =>
    rw [walked] at ih
    cases asks_of_ofArgument asked with
    | unknown tracking foreign => exact .group (.unknown arg tracking foreign) ih
  | case4 c arg args s raw asked c₁ assigned ih =>
    cases asks_of_ofArgument asked with
    | valued _ _ own =>
      have spells : Spells s raw [arg] := .inl (own ▸ rfl)
      exact .group (takes_of_assign spells assigned) ih
  | case5 c arg args s raw asked why refuses =>
    cases asks_of_ofArgument asked with
    | valued _ _ own =>
      have spells : Spells s raw [arg] := .inl (own ▸ rfl)
      exact .refused args s raw spells why refuses
  | case6 c arg s asked =>
    cases asks_of_ofArgument asked with
    | flag _ own => exact own ▸ .missing c s
  | case7 c arg s asked raw args c₁ assigned ih =>
    cases asks_of_ofArgument asked with
    | flag _ own =>
      have spells : Spells s raw [arg, raw] := .inr (own ▸ rfl)
      exact .group (takes_of_assign spells assigned) ih
  | case8 c arg s asked raw args why refuses =>
    cases asks_of_ofArgument asked with
    | flag _ own =>
      have spells : Spells s raw [arg, raw] := .inr (own ▸ rfl)
      exact .refused args s raw spells why refuses

/-- Arguments behind accepted ones apply to what those have made. -/
theorem Applied.apply_append {result : Except Fault Config} (applied : Applied c args result)
    (ok : result = .ok c') (more : List String) : c.apply (args ++ more) = c'.apply more := by
  induction applied with
  | nil c =>
    cases ok
    rfl
  | group takes rest ih => rw [List.append_assoc, takes.apply, ih ok]
  | missing | refused => cases ok

theorem Applied.invalidArgument {result : Except Fault Config} (applied : Applied c args result)
    {fault : Fault} (error : result = .error fault) :
    ∃ (s : Setting) (why : ValueFault), fault = .invalidArgument s.flag why.text := by
  induction applied with
  | nil => cases error
  | group takes rest ih => exact ih error
  | missing c s =>
    cases error
    exact ⟨s, .missing, rfl⟩
  | refused args s raw spells why =>
    cases error
    exact ⟨s, why, rfl⟩

/-! ### What is left of a field -/

/-- A number is not a flag. -/
theorem not_carries_of_word {flag : String} {v : Word} (dash : flag.toList.head? = some '-')
    (word : Text.word raw.toList = .ok v) : ¬ Carries raw flag := by
  intro own
  have head : raw.toList.head? = some '-' := by
    rcases own with rfl | ⟨value, rfl⟩
    · exact dash
    · simp [dash]
  obtain ⟨rest, text⟩ := List.head?_eq_some_iff.mp head
  rw [text] at word
  cases word

theorem Setting.flag_dash (s : Setting) : s.flag.toList.head? = some '-' := by
  cases s <;> rfl

theorem noTrackingFlag_dash : noTrackingFlag.toList.head? = some '-' := rfl

/-- A value that is spelled carries its own flag only. -/
theorem Spells.carries {flag : String} {v : Word} (spells : Spells s raw used)
    (word : Text.word raw.toList = .ok v) (plain : '=' ∉ flag.toList)
    (dash : flag.toList.head? = some '-') {arg : String} (mem : arg ∈ used)
    (own : Carries arg flag) : s.flag = flag := by
  rcases spells with rfl | rfl
  · obtain rfl := List.mem_singleton.mp mem
    exact Carries.eq s.flag_plain plain (.inr ⟨raw, rfl⟩) own
  · rcases List.mem_cons.mp mem with rfl | mem
    · exact Carries.eq s.flag_plain plain (.inl rfl) own
    · obtain rfl := List.mem_singleton.mp mem
      exact absurd own (not_carries_of_word dash word)

/-- The value of a setting is as it was and no argument carries its flag, or it is what the last
argument that does says. -/
inductive Settled (base : Config) (args : List String) (c : Config) (s : Setting) : Prop where
  | kept (absent : ∀ arg ∈ args, ¬ Carries arg s.flag) (same : c.value s = base.value s)
  | last (before used after : List String) (parts : args = before ++ used ++ after) (c₁ : Config)
    (accepted : base.apply before = .ok c₁) (raw : String) (spells : Spells s raw used)
    (word : Text.word raw.toList = .ok (c.value s))
    (absent : ∀ arg ∈ after, ¬ Carries arg s.flag)

theorem Takes.settled (takes : Takes c used c₁) (s : Setting) :
    ((∀ arg ∈ used, ¬ Carries arg s.flag) ∧ c₁.value s = c.value s) ∨
      ∃ raw, Spells s raw used ∧ Text.word raw.toList = .ok (c₁.value s) := by
  cases takes with
  | unknown arg tracking foreign => exact .inl ⟨by simpa using foreign s, rfl⟩
  | noTracking arg own =>
    refine .inl ⟨fun arg' mem own' => ?_, by cases s <;> rfl⟩
    obtain rfl := List.mem_singleton.mp mem
    exact s.flag_ne_noTracking (Carries.eq s.flag_plain noTrackingFlag_plain own' own)
  | set s' raw _ spells v word admits =>
    rw [value_put]
    split
    · rename_i same
      exact .inr ⟨raw, same ▸ spells, word⟩
    · rename_i other
      refine .inl ⟨fun arg mem own => other ?_, rfl⟩
      exact Setting.flag_injective (spells.carries word s.flag_plain s.flag_dash mem own).symm

theorem Applied.settled {result : Except Fault Config} (applied : Applied c args result)
    (ok : result = .ok c') (s : Setting) : Settled c args c' s := by
  induction applied with
  | nil c =>
    cases ok
    exact .kept (fun _ mem => absurd mem List.not_mem_nil) rfl
  | @group c c₁ used args result takes rest ih =>
    cases ih ok with
    | kept absent same =>
      rcases takes.settled s with ⟨absent', same'⟩ | ⟨raw, spells, word⟩
      · refine .kept (fun arg mem => ?_) (same.trans same')
        exact (List.mem_append.mp mem).elim (absent' arg) (absent arg)
      · exact .last [] used args rfl c rfl raw spells (same ▸ word) absent
    | last before used' after parts c₂ accepted raw spells word absent =>
      refine .last (used ++ before) used' after ?_ c₂ ?_ raw spells word absent
      · rw [parts, List.append_assoc, List.append_assoc, List.append_assoc]
      · rw [takes.apply, accepted]
  | missing | refused => cases ok

/-- Allocations are tracked as they were and no argument says otherwise, or one does. -/
def TrackingSettled (base : Config) (args : List String) (c : Config) : Prop :=
  (∀ arg ∈ args, ¬ Carries arg noTrackingFlag) ∧ c.trackAllocations = base.trackAllocations ∨
    (∃ arg ∈ args, Carries arg noTrackingFlag) ∧ c.trackAllocations = false

theorem Takes.trackingSettled (takes : Takes c used c₁) : TrackingSettled c used c₁ := by
  cases takes with
  | unknown arg tracking foreign => exact .inl ⟨by simpa using tracking, rfl⟩
  | noTracking arg own => exact .inr ⟨⟨arg, List.mem_singleton.mpr rfl, own⟩, rfl⟩
  | set s raw _ spells v word admits =>
    refine .inl ⟨fun arg mem own => s.flag_ne_noTracking ?_, c.trackAllocations_put v s⟩
    exact spells.carries word noTrackingFlag_plain noTrackingFlag_dash mem own

theorem Applied.trackingSettled {result : Except Fault Config} (applied : Applied c args result)
    (ok : result = .ok c') : TrackingSettled c args c' := by
  induction applied with
  | nil c =>
    cases ok
    exact .inl ⟨fun _ mem => absurd mem List.not_mem_nil, rfl⟩
  | group takes rest ih =>
    rcases ih ok with ⟨absent, same⟩ | ⟨⟨arg, mem, own⟩, off⟩
    · rcases takes.trackingSettled with ⟨absent', same'⟩ | ⟨⟨arg, mem, own⟩, off⟩
      · refine .inl ⟨fun arg mem => ?_, same.trans same'⟩
        exact (List.mem_append.mp mem).elim (absent' arg) (absent arg)
      · exact .inr ⟨⟨arg, List.mem_append_left _ mem, own⟩, same.trans off⟩
    · exact .inr ⟨⟨arg, List.mem_append_right _ mem, own⟩, off⟩
  | missing | refused => cases ok

/-- **Arguments compose from left to right.** Arguments that are accepted make a configuration,
and whatever comes behind them applies to that; there a flag and its value may be one argument or
two. Each setting then has the value that was given for it last, or is as it was if no argument
carries its flag, and so it is with the tracking of allocations. Arguments that are not accepted
are so for the sake of a flag's value, and an engine that is given them stays as it is. -/
theorem apply_composes (base : Config) (args : List String) :
    match base.apply args with
    | .ok c =>
      (∀ more, base.apply (args ++ more) = c.apply more) ∧
      (∀ (s : Setting) (raw : String) (more : List String),
        base.apply (args ++ [s.flag ++ "=" ++ raw] ++ more) =
          base.apply (args ++ [s.flag, raw] ++ more)) ∧
      (∀ s, Settled base args c s) ∧ TrackingSettled base args c
    | .error fault =>
      (∃ (s : Setting) (why : ValueFault), fault = .invalidArgument s.flag why.text) ∧
      ∀ st : State, st.config = base → (st.init args).1 = false ∧ (st.init args).2.1 = st := by
  have applied := apply_applied base args
  cases result : base.apply args with
  | ok c =>
    have append := applied.apply_append result
    refine ⟨append, fun s raw more => ?_, applied.settled result, applied.trackingSettled result⟩
    rw [List.append_assoc, List.append_assoc, append, append, apply_spelled (.inl rfl),
      apply_spelled (.inr rfl)]
  | error fault =>
    refine ⟨applied.invalidArgument result, fun st config => ?_⟩
    have refused : st.config.apply args = .error fault := config ▸ result
    exact State.init_of_error refused

/-- A flag takes the flag behind it for its value, which is not a number; a number is, and of two
values for one setting the second stays. -/
example : (Config.default.apply ["--max-locks", "--max-threads=3"]).toOption = none ∧
    Config.default.apply ["--max-locks", "7", "app", "--max-locks=+9"] =
      .ok { Config.default with maxLocks := 9 } := by
  decide +kernel

end RaceMonitor.Config
