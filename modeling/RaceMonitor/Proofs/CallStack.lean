import Mathlib.Data.List.DropRight
import Mathlib.Logic.Function.Basic
import RaceMonitor.Proofs.Race.Sides

/-! Call stacks as lists.

A call stack is a chain of frames, of which its copies share what they have in common. Each stack is
nevertheless a list of its own, outermost call first: whatever is pushed, popped and copied, chains
of frames answer as lists do, and the chain in each slot stands for the list there
(`ofFrames_faithful`, `Faithful.runFrom`). What a report shows of an access is the end of that list
and the access's own program counter, to the depth that is asked for and as far as there is room
(`innermost_reported`). -/
namespace RaceMonitor

namespace CallStack

/-- The active calls, outermost first. -/
def calls (s : CallStack) : List Word := s.toList.reverse

/-! ### Lists as stacks -/

theorem ofFrames_concat (pcs : List Word) (pc : Word) :
    ofFrames (pcs ++ [pc]) = (ofFrames pcs).push pc := List.foldl_concat ..

theorem calls_push (s : CallStack) (pc : Word) : (s.push pc).calls = s.calls ++ [pc] :=
  List.reverse_cons

theorem pop?_push (s : CallStack) (pc : Word) : (s.push pc).pop? = some (pc, s) := rfl

theorem calls_ofFrames (pcs : List Word) : (ofFrames pcs).calls = pcs := by
  induction pcs using List.reverseRecOn with
  | nil => rfl
  | append_singleton pcs pc ih => rw [ofFrames_concat, calls_push, ih]

theorem depth_ofFrames (pcs : List Word) : (ofFrames pcs).depth = pcs.length := by
  induction pcs using List.reverseRecOn with
  | nil => rfl
  | append_singleton pcs pc ih =>
    rw [ofFrames_concat, List.length_append, List.length_singleton, ← ih]
    rfl

/-- What is left of a list is its stack, less the innermost call. -/
theorem pop?_ofFrames (pcs : List Word) :
    (ofFrames pcs).pop? = pcs.getLast?.map fun pc => (pc, ofFrames pcs.dropLast) := by
  induction pcs using List.reverseRecOn with
  | nil => rfl
  | append_singleton pcs pc =>
    rw [ofFrames_concat, pop?_push, List.getLast?_concat, List.dropLast_concat, Option.map_some]

/-! ### Stacks in slots -/

/-- A way to represent stacks. -/
structure Representation (α : Type) where
  new : α
  push : α → Word → α
  pop? : α → Option (Word × α)

/-- Stacks as chains of frames. -/
def linked : Representation CallStack := ⟨empty, push, pop?⟩

/-- Stacks as lists, outermost call first. -/
def listed : Representation (List Word) where
  new := []
  push pcs pc := pcs ++ [pc]
  pop? pcs := pcs.getLast?.map fun pc => (pc, pcs.dropLast)

/-- What can be done to stacks in numbered slots, all of them empty at first. -/
inductive Operation where
  | push (slot : Nat) (pc : Word)
  | pop (slot : Nat)
  /-- Puts a copy of the stack at `source` into the slot. -/
  | copy (source slot : Nat)
  | drop (slot : Nat)
  deriving DecidableEq, Repr, Inhabited

/-- The one slot that may change. -/
def Operation.slot : Operation → Nat
  | push slot _ | pop slot | copy _ slot | drop slot => slot

namespace Representation

variable {α β : Type}

/-- The program counter popped, if one is, and the stacks afterwards. -/
def perform (k : Representation α) (held : Nat → α) :
    Operation → Option Word × (Nat → α)
  | .push slot pc => (none, Function.update held slot (k.push (held slot) pc))
  | .pop slot =>
    match k.pop? (held slot) with
    | none => (none, held)
    | some (pc, rest) => (some pc, Function.update held slot rest)
  | .copy source slot => (none, Function.update held slot (held source))
  | .drop slot => (none, Function.update held slot k.new)

/-- What some operations answer, and the stacks after them. -/
def runFrom (k : Representation α) (held : Nat → α) :
    List Operation → List (Option Word) × (Nat → α)
  | [] => ([], held)
  | op :: ops =>
    let (answer, next) := k.perform held op
    let (answers, last) := k.runFrom next ops
    (answer :: answers, last)

def answers (k : Representation α) (ops : List Operation) : List (Option Word) :=
  (k.runFrom (fun _ => k.new) ops).1

def after (k : Representation α) (ops : List Operation) : Nat → α :=
  (k.runFrom (fun _ => k.new) ops).2

theorem runFrom_append (k : Representation α) (held : Nat → α) (ops later : List Operation) :
    (k.runFrom held (ops ++ later)).2 = (k.runFrom (k.runFrom held ops).2 later).2 := by
  induction ops generalizing held with
  | nil => rfl
  | cons op ops ih => exact ih _

/-! ### Other slots -/

theorem perform_of_ne (k : Representation α) (held : Nat → α) {op : Operation} {slot : Nat}
    (other : op.slot ≠ slot) : (k.perform held op).2 slot = held slot := by
  cases op with
  | push | copy | drop => exact Function.update_of_ne other.symm ..
  | pop =>
    rw [perform]
    split
    · rfl
    · exact Function.update_of_ne other.symm ..

theorem runFrom_of_ne (k : Representation α) (held : Nat → α) {ops : List Operation} {slot : Nat}
    (others : ∀ op ∈ ops, op.slot ≠ slot) : (k.runFrom held ops).2 slot = held slot := by
  induction ops generalizing held with
  | nil => rfl
  | cons op ops ih =>
    rw [List.forall_mem_cons] at others
    exact (ih _ others.2).trans (k.perform_of_ne held others.1)

/-- A copy stays what the original was, whatever is done to other slots later. -/
theorem after_copy (k : Representation α) (ops : List Operation) (source : Nat) {slot : Nat}
    {later : List Operation} (others : ∀ op ∈ later, op.slot ≠ slot) :
    k.after (ops ++ .copy source slot :: later) slot = k.after ops source := by
  rw [after, runFrom_append]
  exact (k.runFrom_of_ne _ others).trans (Function.update_self ..)

/-! ### One representation for another -/

/-- Read through `f`, `k'` does what `k` does. -/
structure Faithful (k : Representation α) (k' : Representation β) (f : α → β) : Prop where
  new : k'.new = f k.new
  push : ∀ s pc, k'.push (f s) pc = f (k.push s pc)
  pop? : ∀ s, k'.pop? (f s) = (k.pop? s).map fun (pc, rest) => (pc, f rest)

variable {k : Representation α} {k' : Representation β} {f : α → β}

theorem Faithful.perform (h : Faithful k k' f) (held : Nat → α) (op : Operation) :
    k'.perform (f ∘ held) op = ((k.perform held op).1, f ∘ (k.perform held op).2) := by
  cases op with
  | push slot pc =>
    simp only [Representation.perform, Function.comp_apply, h.push, Function.comp_update]
  | pop slot =>
    simp only [Representation.perform, Function.comp_apply, h.pop?]
    cases k.pop? (held slot) with
    | none => rfl
    | some popped => simp only [Option.map_some, Function.comp_update]
  | copy source slot =>
    simp only [Representation.perform, Function.comp_apply, Function.comp_update]
  | drop slot => simp only [Representation.perform, h.new, Function.comp_update]

theorem Faithful.runFrom (h : Faithful k k' f) (held : Nat → α) (ops : List Operation) :
    k'.runFrom (f ∘ held) ops = ((k.runFrom held ops).1, f ∘ (k.runFrom held ops).2) := by
  induction ops generalizing held with
  | nil => rfl
  | cons op ops ih =>
    simp only [Representation.runFrom, h.perform, ih]

theorem Faithful.run (h : Faithful k k' f) (ops : List Operation) :
    k'.answers ops = k.answers ops ∧ k'.after ops = f ∘ k.after ops := by
  have fresh : (fun _ => k'.new) = f ∘ fun _ : Nat => k.new := funext fun _ => h.new
  rw [answers, after, fresh, h.runFrom]
  exact ⟨rfl, rfl⟩

end Representation

/-- The stack that is made of a list stands for it. -/
theorem ofFrames_faithful : listed.Faithful linked ofFrames where
  new := rfl
  push pcs pc := (ofFrames_concat pcs pc).symm
  pop? pcs := by
    show (ofFrames pcs).pop? = (pcs.getLast?.map _).map _
    rw [pop?_ofFrames, Option.map_map]
    rfl

/-! ### Innermost frames -/

theorem innermost_eq_take (n : Nat) (s : CallStack) : innermost n s = s.toList.take n := by
  induction s generalizing n with
  | empty => rw [innermost, toList, List.take_nil]
  | frame pc depth caller ih =>
    cases n with
    | zero => rfl
    | succ n => rw [innermost, ih, toList, List.take_succ_cons]

theorem frames_eq_rtake (s : CallStack) (limit : Nat) : s.frames limit = s.calls.rtake limit := by
  rw [frames, innermost_eq_take, calls, List.rtake_eq_reverse_take_reverse, List.reverse_reverse]

/-- The innermost of the innermost. -/
theorem rtake_rtake {α : Type} (l : List α) (m n : Nat) :
    (l.rtake m).rtake n = l.rtake (min n m) := by
  simp only [List.rtake_eq_reverse_take_reverse, List.reverse_reverse, List.take_take]

/-- The three cuts that an access's stack goes through come to one. -/
theorem stack_side (a : Access) (addr : Word) (depth : Nat) :
    (a.side addr depth).stack =
      (a.site.stack.calls ++ [a.site.pc]).rtake (min (max depth 1) stackCapacity) := by
  have room : depth - 1 + 1 = max depth 1 := by omega
  calc (a.side addr depth).stack
      = (a.site.stack.frames (depth - 1) ++ [a.site.pc]).rtake stackCapacity :=
        Side.stack_withStack ..
    _ = ((a.site.stack.calls ++ [a.site.pc]).rtake (max depth 1)).rtake stackCapacity := by
        rw [frames_eq_rtake, ← List.rtake_concat_succ, room]
    _ = (a.site.stack.calls ++ [a.site.pc]).rtake (min (max depth 1) stackCapacity) := by
        rw [rtake_rtake, min_comm]

/-- **What is shown of a stack is its innermost part.** Chains of frames answer any operations as
lists do, and in each slot the chain stands for the list, with its length for its depth. A call that
is entered can be left again, and a copy is not affected by what is done to other slots later. And
of an access from such a stack a report shows, outermost first, the last of the list followed by the
program counter: as many as the depth says, at least 1 and at most 16. -/
theorem innermost_reported (ops : List Operation) :
    linked.answers ops = listed.answers ops ∧
    (∀ slot, (linked.after ops slot).calls = listed.after ops slot ∧
      (linked.after ops slot).depth = (listed.after ops slot).length ∧
      ∀ pc, ((linked.after ops slot).push pc).pop? = some (pc, linked.after ops slot)) ∧
    (∀ source slot later, (∀ op ∈ later, op.slot ≠ slot) →
      linked.after (ops ++ .copy source slot :: later) slot = linked.after ops source) ∧
    ∀ (a : Access) (addr : Word) (depth slot : Nat), a.site.stack = linked.after ops slot →
      (a.side addr depth).stack =
        (listed.after ops slot ++ [a.site.pc]).rtake (min (max depth 1) 16) := by
  obtain ⟨answers, chains⟩ := ofFrames_faithful.run ops
  have list (slot : Nat) : (linked.after ops slot).calls = listed.after ops slot := by
    rw [chains, Function.comp_apply, calls_ofFrames]
  refine ⟨answers, fun slot => ⟨list slot, ?_, pop?_push _⟩,
    fun source slot later others => linked.after_copy ops source others,
    fun a addr depth slot own => ?_⟩
  · rw [chains, Function.comp_apply, depth_ofFrames]
  · rw [stack_side, own, list slot]
    rfl

/-- A stack is copied and then left and entered again, and the copy is shown to a depth of two. -/
theorem innermost_reported_copied :
    linked.after ([.push 0 1, .push 0 2] ++ .copy 0 1 :: [.pop 0, .push 0 3]) 1 =
      linked.after [.push 0 1, .push 0 2] 0 ∧
    ((⟨⟨0, 1⟩, true, ⟨9, 8, linked.after [.push 0 1, .push 0 2] 0⟩⟩ : Access).side 64 2).stack =
      [2, 9] := by
  obtain ⟨_, _, copied, shown⟩ := innermost_reported [.push 0 1, .push 0 2]
  exact ⟨copied 0 1 [.pop 0, .push 0 3] (by decide), shown _ 64 2 0 rfl⟩

end CallStack

end RaceMonitor
