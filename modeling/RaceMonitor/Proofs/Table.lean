import Mathlib.Data.List.Sort
import RaceMonitor.Table

/-! Look-ups in tables and membership in key sets, with equality of keys in the place of the
comparison. Entries may be changed in any order (`Table.insert_comm`, `Table.modify_comm`). A table
keyed by numbers may be the same as another but for where its numbers start (`Table.Shifted`);
then what is enumerated is the same, too. -/
namespace RaceMonitor

/-- Lists in one strict order are equal if they have the same members. -/
theorem eq_of_ordered {α : Type} {R : α → α → Prop} (asymm : ∀ a b, R a b → ¬ R b a)
    {l l' : List α} (ordered : l.Pairwise R) (ordered' : l'.Pairwise R)
    (mem : ∀ a, a ∈ l ↔ a ∈ l') : l = l' := by
  have : Std.Irrefl R := ⟨fun a h => asymm a a h h⟩
  have : Std.Antisymm R := ⟨fun a b h h' => absurd h' (asymm a b h)⟩
  exact ordered.eq_of_mem_iff ordered' mem

/-- The loop that looks for a hit. -/
theorem forIn_any {β : Type} (p : β → Bool) (l : List β) :
    (forIn l (none, ()) fun x _ => if p x = true then pure (ForInStep.done (some true, ()))
      else pure (ForInStep.yield (none, ())) : Id (Option Bool × Unit)) =
    if l.any p = true then (some true, ()) else (none, ()) := by
  induction l with
  | nil => rfl
  | cons x l ih =>
    rw [List.forIn_cons, List.any_cons]
    cases p x with
    | true => rfl
    | false => exact ih

variable {κ α : Type} [Ord κ] [Std.TransOrd κ] [Std.LawfulEqOrd κ]

namespace Table

variable {t : Table κ α}

theorem get_insert [DecidableEq κ] (k a : κ) (v : α) :
    (t.insert k v)[a]? = if a = k then some v else t[a]? := by
  rw [Std.ExtTreeMap.getElem?_insert]
  simp only [Std.LawfulEqOrd.compare_eq_iff_eq, @eq_comm _ a k]

theorem get_erase [DecidableEq κ] (k a : κ) : (t.erase k)[a]? = if a = k then none else t[a]? := by
  rw [Std.ExtTreeMap.getElem?_erase]
  simp only [Std.LawfulEqOrd.compare_eq_iff_eq, @eq_comm _ a k]

theorem get_modify [DecidableEq κ] (k a : κ) (f : α → α) :
    (t.modify k f)[a]? = if a = k then t[k]?.map f else t[a]? := by
  rw [Std.ExtTreeMap.getElem?_modify]
  simp only [Std.LawfulEqOrd.compare_eq_iff_eq, @eq_comm _ a k]

theorem mem_insert_iff {k a : κ} {v : α} : a ∈ t.insert k v ↔ a = k ∨ a ∈ t := by
  rw [Std.ExtTreeMap.mem_insert, Std.LawfulEqOrd.compare_eq_iff_eq, eq_comm]

theorem mem_erase_iff {k a : κ} : a ∈ t.erase k ↔ a ≠ k ∧ a ∈ t := by
  rw [Std.ExtTreeMap.mem_erase, ne_eq, Std.LawfulEqOrd.compare_eq_iff_eq, ne_comm]

omit [Std.LawfulEqOrd κ] in
theorem mem_iff_exists {a : κ} : a ∈ t ↔ ∃ v, t[a]? = some v := by
  rw [Std.ExtTreeMap.mem_iff_isSome_getElem?, Option.isSome_iff_exists]

omit [Std.LawfulEqOrd κ] in
theorem not_mem_iff {a : κ} : a ∉ t ↔ t[a]? = none := by
  rw [Std.ExtTreeMap.mem_iff_isSome_getElem?, Bool.not_eq_true, Option.isSome_eq_false_iff,
    Option.isNone_iff_eq_none]

theorem size_le_of_subset {t' : Table κ α} (subset : ∀ k, k ∈ t → k ∈ t') : t.size ≤ t'.size := by
  have keys : t.keys ⊆ t'.keys := fun k hk =>
    Std.ExtTreeMap.mem_keys.mpr (subset k (Std.ExtTreeMap.mem_keys.mp hk))
  rw [← Std.ExtTreeMap.length_keys, ← Std.ExtTreeMap.length_keys]
  exact (List.subperm_of_subset Std.ExtTreeMap.nodup_keys keys).length_le

omit [Std.LawfulEqOrd κ] in
theorem size_insert_of_mem {k : κ} (there : k ∈ t) (v : α) : (t.insert k v).size = t.size := by
  rw [Std.ExtTreeMap.size_insert, if_pos (Std.ExtTreeMap.mem_iff_contains.mp there)]

omit [Std.LawfulEqOrd κ] in
theorem size_erase_of_mem {k : κ} (there : k ∈ t) : (t.erase k).size = t.size - 1 := by
  rw [Std.ExtTreeMap.size_erase, if_pos (Std.ExtTreeMap.mem_iff_contains.mp there)]

omit [Std.LawfulEqOrd κ] in
theorem values_eq_map_toList (t : Table κ α) : t.values = t.toList.map Prod.snd := by
  change t.foldr (fun _ v vs => v :: vs) [] = _
  rw [Std.ExtTreeMap.foldr_eq_foldr_toList, List.map_eq_foldr]

theorem mem_values {v : α} : v ∈ t.values ↔ ∃ k : κ, t[k]? = some v := by
  simp [values_eq_map_toList]

omit [Std.LawfulEqOrd κ] in
theorem any_eq_any_toList (t : Table κ α) (p : κ → α → Bool) :
    t.any p = t.toList.any fun q => p q.1 q.2 := by
  obtain ⟨⟨m⟩⟩ := t
  induction m using Quotient.inductionOn
  rename_i m
  change m.inner.any p = (Std.DTreeMap.Internal.Impl.Const.toList m.inner).any _
  have loop := (Std.DTreeMap.Internal.Impl.Const.forIn_eq_forIn_toList (t := m.inner) (m := Id)
    (f := fun (a : κ) (b : α) (_ : Option Bool × Unit) =>
      if p a b = true then pure (ForInStep.done (some true, ()))
      else pure (ForInStep.yield (none, ())))).trans
    (forIn_any (fun q : κ × α => p q.1 q.2) _)
  rw [Std.DTreeMap.Internal.Impl.any,
    show (forIn m.inner (none, ()) fun x _ => match x with
      | ⟨a, b⟩ => if p a b = true then pure (ForInStep.done (some true, ()))
        else pure (ForInStep.yield (none, ())) : Id (Option Bool × Unit)) = _ from loop]
  split
  · rename_i hit
    exact hit.symm
  · rename_i none
    exact (Bool.not_eq_true _ ▸ none).symm

theorem any_iff {p : κ → α → Bool} :
    t.any p = true ↔ ∃ (k : κ) (v : α), t[k]? = some v ∧ p k v = true := by
  simp [any_eq_any_toList, Std.ExtTreeMap.mem_toList_iff_getElem?_eq_some]

/-! ### Changes one after the other -/

section Changes

variable [DecidableEq κ] {k j : κ} {a b : α} {f g : α → α}

theorem insert_insert : (t.insert k a).insert k b = t.insert k b := by
  refine Std.ExtTreeMap.ext_getElem? fun x => ?_
  simp only [get_insert]
  split <;> rfl

theorem insert_of_found (found : t[k]? = some a) : t.insert k a = t := by
  refine Std.ExtTreeMap.ext_getElem? fun x => ?_
  rw [get_insert]
  split
  · rename_i same
    rw [same, found]
  · rfl

theorem insert_comm (ne : k ≠ j) : (t.insert k a).insert j b = (t.insert j b).insert k a := by
  refine Std.ExtTreeMap.ext_getElem? fun x => ?_
  simp only [get_insert]
  split
  · rename_i same
    rw [if_neg (same ▸ ne.symm)]
  · rfl

theorem modify_of_found (found : t[k]? = some a) : t.modify k f = t.insert k (f a) := by
  refine Std.ExtTreeMap.ext_getElem? fun x => ?_
  rw [get_modify, get_insert, found]
  rfl

theorem modify_comm (comm : ∀ v, g (f v) = f (g v)) :
    (t.modify k f).modify j g = (t.modify j g).modify k f := by
  refine Std.ExtTreeMap.ext_getElem? fun x => ?_
  simp only [get_modify]
  by_cases same : k = j
  · subst same
    split
    · simp only [if_true, Option.map_map]
      exact congrArg (Option.map · t[k]?) (funext comm)
    · rfl
  · split
    · rename_i here
      rw [if_neg (Ne.symm same), if_neg (here ▸ same ∘ Eq.symm)]
    · rfl

end Changes
end Table

/-! ### Numbers that start elsewhere -/

namespace Table

variable {k : Nat} {t t' : Table Nat α}

/-- The same values, with keys `k` higher. -/
def Shifted (k : Nat) (t t' : Table Nat α) : Prop :=
  ∀ i, t'[i]? = if k ≤ i then t[i - k]? else none

namespace Shifted

theorem get (shifted : Shifted k t t') (i : Nat) : t'[i + k]? = t[i]? := by
  rw [shifted, if_pos (Nat.le_add_left k i), Nat.add_sub_cancel]

theorem get_iff (shifted : Shifted k t t') {i : Nat} {v : α} :
    t'[i]? = some v ↔ ∃ j, j + k = i ∧ t[j]? = some v := by
  rw [shifted]
  split
  · rename_i le
    refine ⟨fun found => ⟨i - k, Nat.sub_add_cancel le, found⟩, ?_⟩
    rintro ⟨j, rfl, found⟩
    rwa [Nat.add_sub_cancel]
  · rename_i lt
    refine ⟨nofun, ?_⟩
    rintro ⟨j, rfl, _⟩
    exact absurd (Nat.le_add_left k j) lt

theorem insert (shifted : Shifted k t t') (i : Nat) (v : α) :
    Shifted k (t.insert i v) (t'.insert (i + k) v) := by
  intro j
  simp only [get_insert, shifted j]
  grind

theorem erase (shifted : Shifted k t t') (i : Nat) :
    Shifted k (t.erase i) (t'.erase (i + k)) := by
  intro j
  simp only [get_erase, shifted j]
  grind

theorem modify (shifted : Shifted k t t') (i : Nat) (f : α → α) :
    Shifted k (t.modify i f) (t'.modify (i + k) f) := by
  intro j
  simp only [get_modify, shifted.get, shifted j]
  grind

theorem toList (shifted : Shifted k t t') :
    t'.toList = t.toList.map fun p => (p.1 + k, p.2) := by
  have ordered (t : Table Nat α) : t.toList.Pairwise fun p q => p.1 < q.1 :=
    (Std.ExtTreeMap.ordered_keys_toList (t := t)).imp Nat.compare_eq_lt.mp
  refine eq_of_ordered (fun _ _ => Nat.lt_asymm) (ordered t') ?_ fun p => ?_
  · rw [List.pairwise_map]
    exact (ordered t).imp fun less => Nat.add_lt_add_right less k
  · obtain ⟨i, v⟩ := p
    simp only [List.mem_map, Prod.exists, Prod.mk.injEq,
      Std.ExtTreeMap.mem_toList_iff_getElem?_eq_some, shifted.get_iff]
    exact ⟨fun ⟨j, same, found⟩ => ⟨j, v, found, same, rfl⟩,
      fun ⟨j, _, found, same, eq⟩ => ⟨j, same, eq ▸ found⟩⟩

theorem size (shifted : Shifted k t t') : t'.size = t.size := by
  rw [← Std.ExtTreeMap.length_toList, shifted.toList, List.length_map,
    Std.ExtTreeMap.length_toList]

theorem minKey? (shifted : Shifted k t t') : t'.minKey? = t.minKey?.map (· + k) := by
  rw [Std.ExtTreeMap.minKey?_eq_head?_keys, Std.ExtTreeMap.minKey?_eq_head?_keys,
    ← Std.ExtTreeMap.map_fst_toList_eq_keys, ← Std.ExtTreeMap.map_fst_toList_eq_keys,
    shifted.toList]
  cases t.toList <;> rfl

theorem any (shifted : Shifted k t t') (p : α → Bool) :
    (t'.any fun _ v => p v) = t.any fun _ v => p v := by
  rw [any_eq_any_toList, any_eq_any_toList, shifted.toList, List.any_map]
  rfl

theorem contains (shifted : Shifted k t t') (i : Nat) : t'.contains (i + k) = t.contains i := by
  rw [Std.ExtTreeMap.contains_eq_isSome_getElem?, Std.ExtTreeMap.contains_eq_isSome_getElem?,
    shifted.get]

end Shifted

end Table

namespace KeySet

variable {s : KeySet κ}

theorem mem_insert_iff {k a : κ} : a ∈ s.insert k ↔ a = k ∨ a ∈ s := by
  rw [Std.ExtTreeSet.mem_insert, Std.LawfulEqOrd.compare_eq_iff_eq, eq_comm]

theorem mem_erase_iff {k a : κ} : a ∈ s.erase k ↔ a ≠ k ∧ a ∈ s := by
  rw [Std.ExtTreeSet.mem_erase, ne_eq, Std.LawfulEqOrd.compare_eq_iff_eq, ne_comm]

end KeySet

namespace PairSet

variable {β : Type} [Ord α] [Std.TransOrd α] [Std.LawfulEqOrd α] [Ord β] [Std.TransOrd β]
  [Std.LawfulEqOrd β] {s : PairSet α β}

theorem mem_insert_iff {p q : α × β} : q ∈ s.insert p ↔ q = p ∨ q ∈ s := by
  rw [Std.ExtTreeSet.mem_insert, Std.LawfulEqCmp.compare_eq_iff_eq, eq_comm]

theorem mem_erase_iff {p q : α × β} : q ∈ s.erase p ↔ q ≠ p ∧ q ∈ s := by
  rw [Std.ExtTreeSet.mem_erase, ne_eq, Std.LawfulEqCmp.compare_eq_iff_eq, ne_comm]

theorem insert_comm (p q : α × β) : (s.insert p).insert q = (s.insert q).insert p := by
  refine Std.ExtTreeSet.ext_mem fun x => ?_
  simp only [mem_insert_iff]
  exact or_left_comm

theorem mem_between {lo hi p : α × β} : p ∈ s.between lo hi ↔
    p ∈ s ∧ (pairOrder p lo).isGE = true ∧ (pairOrder p hi).isLT = true := by
  rw [between_eq_filter, List.mem_filter, Std.ExtTreeSet.mem_toList, Bool.and_eq_true]

/-- The same members, with numbers `k` higher. -/
def Shifted (k : Nat) (s s' : PairSet α Nat) : Prop :=
  ∀ a i, (a, i) ∈ s' ↔ k ≤ i ∧ (a, i - k) ∈ s

namespace Shifted

variable {k : Nat} {s s' : PairSet α Nat}

theorem insert (shifted : Shifted k s s') (a : α) (i : Nat) :
    Shifted k (s.insert (a, i)) (s'.insert (a, i + k)) := by
  intro b j
  simp only [mem_insert_iff, shifted b j, Prod.mk.injEq]
  grind

theorem erase (shifted : Shifted k s s') (a : α) (i : Nat) :
    Shifted k (s.erase (a, i)) (s'.erase (a, i + k)) := by
  intro b j
  simp only [mem_erase_iff, shifted b j, ne_eq, Prod.mk.injEq]
  grind

omit [Std.TransOrd α] [Std.LawfulEqOrd α] in
/-- The order of pairs does not depend on where the numbers start. -/
theorem pairOrder_add (p q : α × Nat) :
    pairOrder (p.1, p.2 + k) (q.1, q.2 + k) = pairOrder p q := by
  have numbers : compare (p.2 + k) (q.2 + k) = compare p.2 q.2 := by
    simp only [Nat.compare_eq_ite_lt, Nat.add_lt_add_iff_right]
  simp only [pairOrder, compareLex, compareOn, numbers]

theorem toList (shifted : Shifted k s s') :
    s'.toList = s.toList.map fun p => (p.1, p.2 + k) := by
  refine eq_of_ordered (R := fun p q => pairOrder p q = .lt)
    (fun _ _ less greater => by simp [Std.OrientedCmp.gt_of_lt less] at greater)
    Std.ExtTreeSet.ordered_toList ?_ fun p => ?_
  · rw [List.pairwise_map]
    exact (Std.ExtTreeSet.ordered_toList (t := s)).imp fun less => (pairOrder_add _ _).trans less
  · obtain ⟨a, i⟩ := p
    simp only [List.mem_map, Prod.exists, Prod.mk.injEq, Std.ExtTreeSet.mem_toList, shifted a i]
    constructor
    · exact fun ⟨le, mem⟩ => ⟨a, i - k, mem, rfl, Nat.sub_add_cancel le⟩
    · rintro ⟨_, j, mem, rfl, rfl⟩
      exact ⟨Nat.le_add_left k j, (Nat.add_sub_cancel j k).symm ▸ mem⟩

end Shifted

end PairSet

end RaceMonitor
