import Std.Data.ExtTreeMap
import Std.Data.ExtTreeSet
import Std.Data.TreeMap.Slice

/-! Keyed tables.

Every population the monitor keeps (threads, locks, locations, blocks) is a finite map that
is equal to another as soon as all look-ups agree, so that two ways of reaching the same
population reach the same state. The one ordered query is `PairSet.between`: the members of
a half-open interval, in order (`PairSet.between_eq_filter`). -/
namespace RaceMonitor

/-- A finite map, equal to another when all look-ups agree. -/
abbrev Table (κ : Type) (α : Type) [Ord κ] : Type := Std.ExtTreeMap κ α

/-- A finite set of keys. -/
abbrev KeySet (κ : Type) [Ord κ] : Type := Std.ExtTreeSet κ

/-- Pairs in lexicographic order. -/
def pairOrder {α β : Type} [Ord α] [Ord β] : α × β → α × β → Ordering :=
  compareLex (compareOn Prod.fst) (compareOn Prod.snd)

instance {α β : Type} [Ord α] [Ord β] [Std.TransOrd α] [Std.TransOrd β] :
    Std.TransCmp (pairOrder (α := α) (β := β)) :=
  inferInstanceAs (Std.TransCmp (compareLex (compareOn Prod.fst) (compareOn Prod.snd)))

instance {α β : Type} [Ord α] [Ord β] [Std.LawfulEqOrd α] [Std.LawfulEqOrd β] :
    Std.LawfulEqCmp (pairOrder (α := α) (β := β)) where
  compare_self := by simp [pairOrder, compareLex, compareOn]
  eq_of_compare {a b} h := by
    simp only [pairOrder, compareLex, compareOn, Ordering.then_eq_eq] at h
    exact Prod.ext (Std.LawfulEqOrd.eq_of_compare h.1) (Std.LawfulEqOrd.eq_of_compare h.2)

/-- A finite set of pairs. -/
abbrev PairSet (α β : Type) [Ord α] [Ord β] : Type := Std.ExtTreeSet (α × β) pairOrder

namespace Table

variable {κ α : Type} [Ord κ] [Std.TransOrd κ]

/-- The value at `k`, after putting `v` there if nothing was. -/
def getOrInsert (t : Table κ α) (k : κ) (v : α) : α × Table κ α :=
  match t[k]? with
  | some a => (a, t)
  | none => (v, t.insert k v)

/-- Overwrites the value at `k` and leaves a table without `k` alone. -/
def overwrite (t : Table κ α) (k : κ) (v : α) : Table κ α := t.modify k fun _ => v

end Table

namespace PairSet

variable {α β : Type} [Ord α] [Ord β] [Std.TransOrd α] [Std.TransOrd β]

/-- The members of `s` from `lo` on and before `hi`, in order. -/
def between (s : PairSet α β) (lo hi : α × β) : List (α × β) :=
  s.inner.inner.lift
    (fun m => ((Std.TreeMap.mk m : Std.TreeMap (α × β) Unit pairOrder)[lo...hi]).toList.map Prod.fst)
    (fun a b h => by
      simp only [Std.TreeMap.toList_rco]
      have : (Std.TreeMap.mk a : Std.TreeMap (α × β) Unit pairOrder).toList =
          (Std.TreeMap.mk b : Std.TreeMap (α × β) Unit pairOrder).toList := h.constToList_eq
      rw [this])

theorem between_eq_filter (s : PairSet α β) (lo hi : α × β) :
    s.between lo hi = s.toList.filter fun p => (pairOrder p lo).isGE && (pairOrder p hi).isLT := by
  obtain ⟨⟨⟨m⟩⟩⟩ := s
  induction m using Quotient.inductionOn
  rename_i m
  change ((Std.TreeMap.mk m : Std.TreeMap (α × β) Unit pairOrder)[lo...hi]).toList.map Prod.fst =
    m.keys.filter _
  rw [Std.TreeMap.toList_rco pairOrder]
  change ((Std.DTreeMap.Const.toList m).filter _).map Prod.fst = _
  rw [← Std.DTreeMap.Const.map_fst_toList_eq_keys, List.filter_map]
  simp only [Function.comp_def, Bool.decide_and, Bool.decide_eq_true]

end PairSet

end RaceMonitor
