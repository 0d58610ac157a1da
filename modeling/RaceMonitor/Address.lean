/-! Addresses and the ranges they lie in.

An address is a 64-bit word and a range of addresses stops at the top of the address space:
its limit saturates. A range is entered into page-granular filters by the pages its bytes
touch. -/
namespace RaceMonitor

/-- A machine word: an address, a size, a program counter or an identifier. -/
abbrev Word := UInt64

namespace Word

/-- The largest word. -/
def top : Word := UInt64.ofNat (UInt64.size - 1)

/-- The sum, or the largest word if the sum does not fit. -/
def addSat (a b : Word) : Word := if a.toNat + b.toNat < UInt64.size then a + b else top

/-- The difference, or zero if it is negative. -/
def subSat (a b : Word) : Word := if b ≤ a then a - b else 0

theorem toNat_addSat (a b : Word) :
    (addSat a b).toNat = min (a.toNat + b.toNat) (UInt64.size - 1) := by
  unfold addSat
  split
  · rename_i h
    rw [UInt64.toNat_add, Nat.mod_eq_of_lt h]
    omega
  · simp [top, UInt64.size] at *
    omega

theorem toNat_subSat (a b : Word) : (subSat a b).toNat = a.toNat - b.toNat := by
  unfold subSat
  split
  · rename_i h
    exact UInt64.toNat_sub_of_le _ _ h
  · rename_i h
    have : a.toNat < b.toNat := UInt64.lt_iff_toNat_lt.mp (UInt64.not_le.mp h)
    rw [UInt64.toNat_zero]
    omega

theorem toNat_max (a b : Word) : (max a b).toNat = max a.toNat b.toNat := by
  show (if a ≤ b then b else a).toNat = _
  split
  · rename_i h
    exact (Nat.max_eq_right (UInt64.le_iff_toNat_le.mp h)).symm
  · rename_i h
    have := UInt64.lt_iff_toNat_lt.mp (UInt64.not_le.mp h)
    omega

end Word

/-- `size` bytes from `base` on. -/
structure Extent where
  base : Word
  size : Word
  deriving DecidableEq, Repr, Inhabited

namespace Extent

/-- The first address past the range, or the top of the address space. -/
def limit (e : Extent) : Word := Word.addSat e.base e.size

def contains (e : Extent) (a : Word) : Bool := e.base ≤ a && a - e.base < e.size

/-- Each range starts before the other's limit. -/
def overlaps (e f : Extent) : Bool := f.base < e.limit && e.base < f.limit

/-- A page is 4096 bytes. -/
def pageShift : Word := 12

def pageOf (a : Word) : Word := a >>> pageShift

def firstPage (e : Extent) : Word := pageOf e.base

/-- The page of the last byte; an empty range touches the page it starts on. -/
def lastPage (e : Extent) : Word := pageOf (Word.addSat e.base (max e.size 1 - 1))

/-- The pages that the range touches, in order. -/
def pages (e : Extent) : List Word :=
  (List.range (e.lastPage.toNat + 1 - e.firstPage.toNat)).map fun i => e.firstPage + UInt64.ofNat i

/-- The bytes of one page. -/
def ofPage (page : Word) : Extent := ⟨page <<< pageShift, 1 <<< pageShift⟩

/-- The one byte at `a`. -/
def ofByte (a : Word) : Extent := ⟨a, 1⟩

/-- The addresses of the range before its limit, in order. -/
def addresses (e : Extent) : List Word :=
  (List.range (e.limit.toNat - e.base.toNat)).map fun i => e.base + UInt64.ofNat i

/-- The range up to its limit as an interval of addresses. -/
def spans (e : Extent) (a : Word) : Bool := e.base ≤ a && a < e.limit

end Extent

end RaceMonitor
