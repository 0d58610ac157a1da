import Mathlib.Data.List.Basic
import RaceMonitor.Json.Value
import RaceMonitor.Json.Writer

/-! Reading what was written.

A scalar is read back up to the comma or brace behind it (`Json.valueWith_text`), which is where
the digits of a number end. The members of an object are handed on one by one, in the order in
which they were written (`Json.Takes.members_text`); what the reader makes of them is left open. -/
namespace RaceMonitor.Json

/-- A character that is written in a string as it is. -/
def plain (c : Char) : Bool := c != '"' && c != '\\' && 0x20 ≤ c.toNat

/-- A name that needs no escapes. -/
def Plain (s : String) : Prop := s.toList.all plain = true

instance (s : String) : Decidable (Plain s) := inferInstanceAs (Decidable (_ = true))

/-- What may come behind a member. -/
inductive Ends : List Char → Prop where
  | comma (cs : List Char) : Ends (',' :: cs)
  | brace (cs : List Char) : Ends ('}' :: cs)

namespace Scalar

/-- What a scalar is read as. -/
def value : Scalar → Value
  | natural n => .number (.natural (UInt64.ofNat n))
  | boolean b => .boolean b
  | name s => .string s

/-- A number that fits a word, or a name that needs no escapes. -/
def Legible : Scalar → Prop
  | natural n => n < UInt64.size
  | boolean _ => True
  | name s => Plain s

end Scalar

theorem skipBlanks_cons {c : Char} (solid : isBlank c = false) (cs : List Char) :
    skipBlanks (c :: cs) = c :: cs :=
  List.dropWhile_cons_of_neg (by simp [solid])

/-! ### Strings -/

theorem stringFrom_plain {cs : List Char} (all : cs.all plain = true) (strict : Bool)
    (rest : List Char) : stringFrom strict .plain (cs ++ '"' :: rest) = .ok (cs, rest) := by
  induction cs with
  | nil => rfl
  | cons c cs ih =>
    simp only [List.all_cons, Bool.and_eq_true, plain, bne_iff_ne, decide_eq_true_eq] at all
    obtain ⟨⟨⟨quote, slash⟩, visible⟩, all⟩ := all
    have taken : advance strict c (cs ++ '"' :: rest) .plain = .ok ([c], .plain) := by
      rw [advance, if_neg slash, if_neg (Nat.not_lt.mpr visible)]
    rw [List.cons_append, stringFrom, if_neg (fun both => quote both.2), taken]
    dsimp only
    rw [ih (by simpa [plain] using all)]
    rfl

/-! ### Numbers -/

theorem digits_append {ds : List Char} (some : ds ≠ []) (all : ∀ d ∈ ds, d.isDigit = true)
    {rest : List Char} (ends : Ends rest) (early : Fault) :
    digits early (ds ++ rest) = .ok (ds, rest) := by
  have stops : rest.takeWhile Char.isDigit = [] ∧ rest.dropWhile Char.isDigit = rest := by
    cases ends <;> exact ⟨rfl, rfl⟩
  cases ds with
  | nil => exact absurd rfl some
  | cons d ds =>
    rw [List.cons_append, digits, if_pos (all d List.mem_cons_self), ← List.cons_append,
      List.takeWhile_append_of_pos all, List.dropWhile_append_of_pos all, stops.1, stops.2,
      List.append_nil]

/-- Only zero is written with a leading zero. -/
theorem head_toDigits {n : Nat} (positive : n ≠ 0) : (Nat.toDigits 10 n).head? ≠ some '0' := by
  induction n using Nat.strongRecOn with
  | ind n ih =>
    rw [Nat.toDigits_eq_if (by decide)]
    split
    · rename_i small
      have : ∀ n < 10, n ≠ 0 → some n.digitChar ≠ some '0' := by decide
      exact this n small positive
    · rename_i large
      rw [List.head?_append_of_ne_nil _ Nat.toDigits_ne_nil]
      exact ih (n / 10) (by omega) (by omega)

theorem wholePart_toDigits (n : Nat) {rest : List Char} (ends : Ends rest) (early : Fault) :
    wholePart early (Nat.toDigits 10 n ++ rest) = .ok (Nat.toDigits 10 n, rest) := by
  have digit : ∀ d ∈ Nat.toDigits 10 n, d.isDigit = true := fun d mem =>
    Nat.isDigit_of_mem_toDigits (by decide) (by decide) mem
  have short : ¬ ((Nat.toDigits 10 n).head? = some '0' ∧ (Nat.toDigits 10 n).length ≠ 1) := by
    by_cases zero : n = 0
    · subst zero
      decide
    · exact fun both => head_toDigits zero both.1
  rw [wholePart, digits_append Nat.toDigits_ne_nil digit ends]
  dsimp only
  rw [if_neg short]

/-- A number ends where its digits do, and is read as a natural one if it fits a word. -/
theorem unsigned_toDigits {n : Nat} (fits : n < UInt64.size) {rest : List Char}
    (ends : Ends rest) :
    unsigned true false (Nat.toDigits 10 n ++ rest) = .ok (.natural (UInt64.ofNat n), rest) := by
  have fraction : fractionPart .eof rest = .ok (none, rest) := by
    cases ends <;> rfl
  have exponent : exponentPart .eof rest = .ok (none, rest) := by
    cases ends <;> rfl
  have number : numberOf false (Nat.toDigits 10 n) none none =
      .ok (.natural (UInt64.ofNat n)) := by
    simp [numberOf, fits]
  unfold unsigned
  simp only [if_true, wholePart_toDigits n ends, fraction, exponent, number]
  rfl

/-! ### Values -/

/-- A digit starts a number and nothing else. -/
theorem valueWith_digit {c : Char} (digit : c.isDigit = true)
    (compound : Char → List Char → Scan Value) (cs : List Char) :
    valueWith true compound (c :: cs) =
      (unsigned true false (c :: cs)).map fun p => (.number p.1, p.2) := by
  have other : ∀ c', c'.isDigit = false → c ≠ c' := by
    rintro c' not rfl
    cases digit.symm.trans not
  have solid : isBlank c = false := by
    simp only [isBlank, Bool.or_eq_false_iff, beq_eq_false_iff_ne]
    exact ⟨⟨⟨other _ rfl, other _ rfl⟩, other _ rfl⟩, other _ rfl⟩
  rw [valueWith, skipBlanks_cons solid]
  dsimp only
  rw [if_neg (other _ rfl), if_neg (other _ rfl), if_neg (other _ rfl), if_neg (other _ rfl),
    if_neg (other _ rfl), if_pos digit]

theorem valueWith_text {s : Scalar} (legible : s.Legible) {rest : List Char} (ends : Ends rest)
    (compound : Char → List Char → Scan Value) :
    valueWith true compound (s.text.toList ++ rest) = .ok (s.value, rest) := by
  cases s with
  | natural n =>
    have text : (Scalar.natural n).text.toList = Nat.toDigits 10 n := String.toList_ofList
    have read := unsigned_toDigits legible ends
    rw [text]
    cases digits : Nat.toDigits 10 n with
    | nil => exact absurd digits Nat.toDigits_ne_nil
    | cons d ds =>
      have digit : d.isDigit = true := Nat.isDigit_of_mem_toDigits (by decide) (by decide)
        (digits ▸ List.mem_cons_self)
      rw [digits] at read
      rw [List.cons_append, valueWith_digit digit, ← List.cons_append, read]
      rfl
  | boolean b =>
    cases b <;> rfl
  | name s =>
    have text : (Scalar.name s).text.toList ++ rest = '"' :: (s.toList ++ '"' :: rest) := by
      simp [Scalar.text]
    have read := stringFrom_plain legible true rest
    rw [text, valueWith, skipBlanks_cons rfl]
    dsimp only
    rw [if_neg (by decide), if_neg (by decide), if_neg (by decide), if_pos rfl, read]
    simp [Except.map, Scalar.value]

/-- Scalars have no levels of arrays and objects. -/
theorem value_text {s : Scalar} (legible : s.Legible) {rest : List Char} (ends : Ends rest)
    (depth : Nat) : value true depth (s.text.toList ++ rest) = .ok (s.value, rest) := by
  cases depth with
  | zero => exact valueWith_text legible ends _
  | succ depth => exact valueWith_text legible ends _

theorem stringValue_text {s : String} (legible : Plain s) {rest : List Char} (ends : Ends rest) :
    stringValue ((Scalar.name s).text.toList ++ rest) = .ok (s, rest) := by
  rw [stringValue, value_text (s := .name s) legible ends]
  rfl

/-! ### Objects -/

/-- The members of an object behind its first one. -/
def laterText (ms : List (String × Scalar)) : List Char :=
  ms.flatMap fun m => ',' :: (memberText m).toList

theorem memberText_toList (m : String × Scalar) :
    (memberText m).toList = '"' :: (m.1.toList ++ '"' :: ':' :: m.2.text.toList) := by
  simp [memberText]

theorem intercalate_cons {α : Type} (separator : α) (first : List α) (rest : List (List α)) :
    [separator].intercalate (first :: rest) = first ++ rest.flatMap (separator :: ·) := by
  induction rest generalizing first with
  | nil => simp
  | cons next rest ih =>
    rw [List.intercalate_cons_cons, ih]
    simp

theorem objectText_toList (m : String × Scalar) (ms : List (String × Scalar)) :
    (objectText (m :: ms)).toList = '{' :: ((memberText m).toList ++ (laterText ms ++ ['}'])) := by
  have comma : ",".toList = [','] := rfl
  simp only [objectText, String.toList_append, String.toList_intercalate, List.map_cons, comma,
    intercalate_cons, laterText, List.flatMap_map]
  simp

theorem length_le_laterText (ms : List (String × Scalar)) : ms.length ≤ (laterText ms).length := by
  induction ms with
  | nil => exact Nat.le_refl _
  | cons m ms ih =>
    simp only [laterText, List.flatMap_cons, List.length_append, List.length_cons] at ih ⊢
    omega

theorem ends_later (ms : List (String × Scalar)) (rest : List Char) :
    Ends (laterText ms ++ '}' :: rest) := by
  cases ms with
  | nil => exact .brace rest
  | cons m ms => exact .comma _

/-- The reader `member` gets from one state to another over some members as they are written. -/
inductive Takes {σ : Type} (member : σ → String → List Char → Scan σ) :
    σ → List (String × Scalar) → σ → Prop where
  | nil (s : σ) : Takes member s [] s
  | cons {s s' s'' : σ} {m : String × Scalar} {ms : List (String × Scalar)} (key : Plain m.1)
    (step : ∀ rest, Ends rest → member s m.1 (':' :: (m.2.text.toList ++ rest)) = .ok (s', rest))
    (more : Takes member s' ms s'') : Takes member s (m :: ms) s''

namespace Takes

variable {σ : Type} {member : σ → String → List Char → Scan σ} {s s' : σ}

/-- One round of the loop over an object. -/
theorem round {m : String × Scalar} (key : Plain m.1)
    (step : ∀ rest, Ends rest → member s m.1 (':' :: (m.2.text.toList ++ rest)) = .ok (s', rest))
    {first : Bool} {cs rest : List Char} (ends : Ends rest)
    (next : nextMember first cs =
      .ok (.item (m.1.toList ++ '"' :: ':' :: (m.2.text.toList ++ rest)))) (n : Nat) :
    membersFrom true member (n + 1) first s cs = membersFrom true member n false s' rest := by
  rw [membersFrom, next]
  dsimp only
  rw [stringFrom_plain key true]
  dsimp only
  rw [String.ofList_toList, step rest ends]

theorem membersFrom_later {ms : List (String × Scalar)} (takes : Takes member s ms s') {n : Nat}
    (rounds : ms.length < n) (rest : List Char) :
    membersFrom true member n false s (laterText ms ++ '}' :: rest) = .ok (s', rest) := by
  induction takes generalizing n with
  | nil s =>
    cases n with
    | zero => cases rounds
    | succ n => rfl
  | @cons s s' s'' m ms key step more ih =>
    cases n with
    | zero => cases rounds
    | succ n =>
      have next : nextMember false (laterText (m :: ms) ++ '}' :: rest) =
          .ok (.item (m.1.toList ++ '"' :: ':' ::
            (m.2.text.toList ++ (laterText ms ++ '}' :: rest)))) := by
        simp [laterText, memberText_toList, nextMember, skipBlanks, isBlank]
      rw [round key step (ends_later ms rest) next]
      exact ih (Nat.lt_of_succ_lt_succ rounds)

/-- An object that was written is read member by member. -/
theorem members_text {m : String × Scalar} {ms : List (String × Scalar)}
    (takes : Takes member s (m :: ms) s') (rest : List Char) :
    members true member s ((memberText m).toList ++ (laterText ms ++ '}' :: rest)) =
      .ok (s', rest) := by
  cases takes with
  | cons key step more =>
    have next : nextMember true ((memberText m).toList ++ (laterText ms ++ '}' :: rest)) =
        .ok (.item (m.1.toList ++ '"' :: ':' ::
          (m.2.text.toList ++ (laterText ms ++ '}' :: rest)))) := by
      simp [memberText_toList, nextMember, skipBlanks, isBlank]
    have rounds : ms.length < ((memberText m).toList ++ (laterText ms ++ '}' :: rest)).length := by
      have := length_le_laterText ms
      simp only [List.length_append, List.length_cons]
      omega
    rw [members, round key step (ends_later ms rest) next]
    exact more.membersFrom_later rounds rest

end Takes

/-! ### One line -/

/-- No control character, and so no end of a line. -/
def visible (c : Char) : Bool := 0x20 ≤ c.toNat

theorem visible_of_plain {cs : List Char} (all : cs.all plain = true) : cs.all visible = true := by
  rw [List.all_eq_true] at all ⊢
  intro c mem
  have plain := all c mem
  simp only [Json.plain, Bool.and_eq_true] at plain
  exact plain.2

theorem visible_scalar {s : Scalar} (legible : s.Legible) : s.text.toList.all visible = true := by
  cases s with
  | natural n =>
    have text : (Scalar.natural n).text.toList = Nat.toDigits 10 n := String.toList_ofList
    rw [text, List.all_eq_true]
    intro c mem
    have digit := Nat.isDigit_of_mem_toDigits (by decide) (by decide) mem
    simp only [Char.isDigit, Bool.and_eq_true, decide_eq_true_eq] at digit
    have : '0'.toNat ≤ c.toNat := digit.1
    have : '0'.toNat = 48 := rfl
    simp only [visible, decide_eq_true_eq]
    omega
  | boolean b => cases b <;> rfl
  | name s =>
    have quote : visible '"' = true := rfl
    simp [Scalar.text, quote, visible_of_plain legible]

theorem visible_member {m : String × Scalar} (key : Plain m.1) (legible : m.2.Legible) :
    (memberText m).toList.all visible = true := by
  have quote : visible '"' = true := rfl
  have colon : visible ':' = true := rfl
  simp only [memberText_toList, List.all_cons, List.all_append, quote, colon,
    visible_of_plain key, visible_scalar legible, Bool.and_self]

theorem visible_object {m : String × Scalar} {ms : List (String × Scalar)}
    (legible : ∀ m' ∈ m :: ms, Plain m'.1 ∧ m'.2.Legible) :
    (objectText (m :: ms)).toList.all visible = true := by
  have text : ∀ m' ∈ m :: ms, (memberText m').toList.all visible = true := fun m' mem =>
    visible_member (legible m' mem).1 (legible m' mem).2
  have later : (laterText ms).all visible = true := by
    simp only [laterText, List.all_flatMap, List.all_cons, List.all_eq_true]
    intro m' mem
    exact text m' (List.mem_cons_of_mem m mem)
  rw [objectText_toList, List.all_cons, List.all_append, List.all_append,
    text m List.mem_cons_self, later]
  rfl

end RaceMonitor.Json
