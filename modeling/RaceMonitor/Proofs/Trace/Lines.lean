import RaceMonitor.Trace.Basic

/-! Lines and their bytes.

A text that ends in a line feed has as many lines as line feeds, and what comes behind it does not
change them. Characters other than controls have no line feed among their bytes. -/
namespace RaceMonitor.Trace

/-! ### Lines -/

theorem linesFrom_append (line x y : Bytes) :
    linesFrom line (x ++ lineFeed :: y) = linesFrom line (x ++ [lineFeed]) ++ lines y := by
  induction x generalizing line with
  | nil => rfl
  | cons b x ih =>
    simp only [List.cons_append, linesFrom]
    split
    · rw [ih, List.cons_append]
    · exact ih (b :: line)

theorem length_linesFrom (line x : Bytes) :
    (linesFrom line (x ++ [lineFeed])).length = x.count lineFeed + 1 := by
  induction x generalizing line with
  | nil => rfl
  | cons b x ih =>
    simp only [List.cons_append, linesFrom]
    split
    · rename_i feed
      rw [List.length_cons, ih, feed, List.count_cons_self]
    · rename_i other
      rw [ih, List.count_cons_of_ne other]

theorem linesFrom_line {l : Bytes} (single : lineFeed ∉ l) (line : Bytes) :
    linesFrom line (l ++ [lineFeed]) = [line.reverse ++ l] := by
  induction l generalizing line with
  | nil => simp [linesFrom]
  | cons b l ih =>
    have other : b ≠ lineFeed := (List.ne_of_not_mem_cons single).symm
    rw [List.cons_append, linesFrom, if_neg other, ih (List.not_mem_of_not_mem_cons single)]
    simp

section Ended

variable {x : Bytes} (ended : x.getLast? = some lineFeed)
include ended

theorem lines_append (y : Bytes) : lines (x ++ y) = lines x ++ lines y := by
  obtain ⟨x, rfl⟩ := List.getLast?_eq_some_iff.mp ended
  rw [List.append_assoc]
  exact linesFrom_append [] x y

theorem length_lines : (lines x).length = x.count lineFeed := by
  obtain ⟨x, rfl⟩ := List.getLast?_eq_some_iff.mp ended
  rw [List.count_append]
  exact length_linesFrom [] x

end Ended

/-- A line, and the text behind it. -/
theorem lines_line {l : Bytes} (single : lineFeed ∉ l) (rest : Bytes) :
    lines (l ++ [lineFeed] ++ rest) = l :: lines rest := by
  rw [lines_append (by simp), lines, linesFrom_line single]
  rfl

/-! ### Bytes -/

theorem toList_loop (bytes : ByteArray) (i : Nat) (before : Bytes) :
    ByteArray.toList.loop bytes i before = before.reverse ++ bytes.data.toList.drop i := by
  fun_induction ByteArray.toList.loop with
  | case1 i before inside ih =>
    have inside : i < bytes.data.toList.length := inside
    rw [ih, List.drop_eq_getElem_cons inside, List.reverse_cons, List.append_assoc,
      List.singleton_append]
    congr 2
    exact getElem!_pos bytes.data i inside
  | case2 i before outside =>
    rw [List.drop_eq_nil_of_le (Nat.not_lt.mp outside), List.append_nil]

theorem toList_toUTF8 (s : String) : s.toUTF8.toList = s.toUTF8.data.toList :=
  toList_loop s.toUTF8 0 []

/-- The bytes of a text are read as that text. -/
theorem fromUTF8?_toUTF8 (s : String) :
    String.fromUTF8? (ByteArray.mk s.toUTF8.toList.toArray) = some s := by
  rw [toList_toUTF8]
  exact dif_pos s.isValidUTF8

theorem lineFeed_not_mem_utf8EncodeChar {c : Char} (visible : 0x20 ≤ c.toNat) :
    lineFeed ∉ String.utf8EncodeChar c := by
  have byte : ∀ n, n % 256 ≠ 10 → lineFeed ≠ UInt8.ofNat n := fun n other same =>
    other (congrArg UInt8.toNat same).symm
  have visible : 0x20 ≤ c.val.toNat := visible
  unfold String.utf8EncodeChar
  dsimp only
  generalize c.val.toNat = v at visible
  split
  · simp only [List.mem_singleton]
    exact byte v (by omega)
  · split
    · simp only [List.mem_cons, List.not_mem_nil, or_false, not_or]
      exact ⟨byte _ (by omega), byte _ (by omega)⟩
    · split
      · simp only [List.mem_cons, List.not_mem_nil, or_false, not_or]
        exact ⟨byte _ (by omega), byte _ (by omega), byte _ (by omega)⟩
      · simp only [List.mem_cons, List.not_mem_nil, or_false, not_or]
        exact ⟨byte _ (by omega), byte _ (by omega), byte _ (by omega), byte _ (by omega)⟩

theorem lineFeed_not_mem {s : String} (visible : ∀ c ∈ s.toList, 0x20 ≤ c.toNat) :
    lineFeed ∉ s.toUTF8.toList := by
  have encoded : s.toUTF8.toList = s.toList.flatMap String.utf8EncodeChar := by
    rw [toList_toUTF8, String.toUTF8, ← String.utf8Encode_toList, List.utf8Encode]
    simp
  rw [encoded, List.mem_flatMap]
  rintro ⟨c, mem, feed⟩
  exact lineFeed_not_mem_utf8EncodeChar (visible c mem) feed

end RaceMonitor.Trace
