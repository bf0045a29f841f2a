import Chip8.Memory.Region
import Chip8.Text.Record

namespace Chip8

abbrev Memory.size : Nat := 0x1000

/-- The byte store of the machine. Programs, the font and every block transfer share it. -/
structure Memory where
  bytes : Vector UInt8 Memory.size
deriving DecidableEq

namespace Memory

def zeroed : Memory :=
  ⟨Vector.replicate size 0⟩

/-- Bytes copied to consecutive addresses from `start` on. What lies outside memory is dropped, and
the operations of this library never let it come to that. -/
def blit (m : Memory) (start : Nat) : List UInt8 → Memory
  | [] => m
  | b :: rest => blit ⟨m.bytes.setIfInBounds start b⟩ (start + 1) rest

@[simp] theorem blit_nil (m : Memory) (start : Nat) : m.blit start [] = m := rfl

/-- A blit determines the addresses it covers and leaves all others. -/
theorem getElem?_blit (m : Memory) (start : Nat) (data : List UInt8) (addr : Nat) :
    (m.blit start data).bytes[addr]? =
      if start ≤ addr ∧ addr < start + data.length ∧ addr < size then data[addr - start]?
      else m.bytes[addr]? := by
  induction data generalizing m start with
  | nil =>
    rw [blit, if_neg]
    simp only [List.length_nil]
    omega
  | cons b rest ih =>
    rw [blit, ih]
    simp only [List.length_cons]
    by_cases haddr : addr = start
    · subst haddr
      rw [if_neg (by omega), Vector.getElem?_setIfInBounds_self]
      by_cases hsize : addr < size
      · simp [hsize]
      · simp [hsize]
    · rw [Vector.getElem?_setIfInBounds_ne (by omega)]
      by_cases hin : start + 1 ≤ addr ∧ addr < start + 1 + rest.length ∧ addr < size
      · rw [if_pos hin, if_pos (by omega)]
        obtain ⟨k, hk⟩ : ∃ k, addr - start = k + 1 := ⟨addr - start - 1, by omega⟩
        rw [hk, List.getElem?_cons_succ]
        congr 1
        omega
      · rw [if_neg hin, if_neg (by omega)]

theorem ext_toList {m n : Memory} (h : m.bytes.toList = n.bytes.toList) : m = n := by
  cases m
  cases n
  cases Vector.toList_inj.mp h
  rfl

/-- The contents of a region, lowest address first. -/
def region (m : Memory) (r : Region) : List UInt8 :=
  (m.bytes.extract r.start r.stop).toList

def clearRegion (m : Memory) (r : Region) : Memory :=
  m.blit r.start (List.replicate r.size 0)

/-- The memory as a record that leaves out the bytes. -/
def record (m : Memory) : String :=
  "Mem \x7b len: " ++ Text.decimal m.bytes.size ++ ", .. \x7d"

end Memory

end Chip8
