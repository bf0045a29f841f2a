import Chip8.Error
import Chip8.Memory.Basic
import Chip8.Word

namespace Chip8

namespace Memory

def read (m : Memory) (addr : Nat) : Except Error UInt8 :=
  if h : addr < size then .ok m.bytes[addr] else .error (.outOfBounds addr)

/-- A read answers with the byte at its address, and only addresses of memory hold one. -/
theorem read_eq_ok_iff (m : Memory) (addr : Nat) (value : UInt8) :
    m.read addr = .ok value ↔ m.bytes[addr]? = some value := by
  unfold read
  split
  · next haddr => rw [Except.ok.injEq, Vector.getElem?_eq_getElem haddr, Option.some.injEq]
  · next haddr => simp [Vector.getElem?_eq_none (Nat.not_lt.mp haddr)]

def write (m : Memory) (addr : Nat) (value : UInt8) : Outcome Memory Unit :=
  if h : addr < size then (⟨m.bytes.set addr value⟩, .ok ()) else (m, .error (.outOfBounds addr))

/-- A span of addresses that an access may touch. A span that ends before it starts is refused like
one that leaves memory. -/
def Within (start stop : Nat) : Prop :=
  start ≤ stop ∧ stop ≤ size

instance (start stop : Nat) : Decidable (Within start stop) :=
  inferInstanceAs (Decidable (_ ∧ _))

/-- A span given by its length cannot end before it starts, so its end alone counts. -/
@[simp] theorem within_add_iff (start n : Nat) : Within start (start + n) ↔ start + n ≤ size :=
  and_iff_right (Nat.le_add_right start n)

/-- The fault of an access from `start` on. Its address is the first one at or after `start` that
lies outside memory. -/
def spanError (start : Nat) : Error :=
  .outOfBounds (max start size)

/-- The bytes from `start` up to but not including `stop`. -/
def slice (m : Memory) (start stop : Nat) : Except Error (List UInt8) :=
  if Within start stop then .ok (m.bytes.extract start stop).toList else .error (spanError start)

/-- A slice has as many bytes as its span has addresses. -/
theorem length_of_slice {m : Memory} {start stop : Nat} {bytes : List UInt8}
    (h : m.slice start stop = .ok bytes) : bytes.length = stop - start := by
  unfold slice at h
  split at h
  · next hwithin =>
    cases h
    rw [Vector.length_toList, Nat.min_eq_left hwithin.2]
  · cases h

theorem getElem?_of_slice {m : Memory} {start stop : Nat} {bytes : List UInt8}
    (h : m.slice start stop = .ok bytes) (k : Nat) :
    bytes[k]? = if k < stop - start then m.bytes[start + k]? else none := by
  unfold slice at h
  split at h
  · next hwithin =>
    cases h
    rw [Vector.getElem?_toList, Vector.getElem?_extract, Nat.min_eq_left hwithin.2]
  · cases h

/-- A slice depends on the bytes of its span alone. -/
theorem slice_congr {m m' : Memory} {start stop : Nat}
    (hspan : ∀ k < stop - start, m.bytes[start + k]? = m'.bytes[start + k]?) :
    m.slice start stop = m'.slice start stop := by
  by_cases hwithin : Within start stop
  · have hslice (m : Memory) : m.slice start stop = .ok (m.bytes.extract start stop).toList :=
      if_pos hwithin
    rw [hslice, hslice]
    congr 1
    apply List.ext_getElem?
    intro k
    rw [getElem?_of_slice (hslice m), getElem?_of_slice (hslice m')]
    split
    · next hk => exact hspan k hk
    · rfl
  · rw [slice, slice, if_neg hwithin, if_neg hwithin]

/-- Copies bytes to consecutive addresses. The whole span is looked at before the first byte. -/
def store (m : Memory) (start : Nat) (data : List UInt8) : Outcome Memory Unit :=
  if Within start (start + data.length) then (m.blit start data, .ok ())
  else (m, .error (spanError start))

/-- Fills a span with one byte. The whole span is looked at before the first byte. -/
def fill (m : Memory) (start stop : Nat) (value : UInt8) : Outcome Memory Unit :=
  if Within start stop then (m.blit start (List.replicate (stop - start) value), .ok ())
  else (m, .error (spanError start))

/-- The word at an address, high byte first. -/
def readWord (m : Memory) (addr : Nat) : Except Error Word :=
  if h : Within addr (addr + 2) then
    have hlast : addr + 1 < size := h.2
    .ok (Word.ofBytes m.bytes[addr] m.bytes[addr + 1])
  else .error (spanError addr)

/-- A word is read where there is room for both of its bytes. -/
theorem readWord_of_lt (m : Memory) {addr : Nat} (hfirst : addr < size) (hlast : addr + 1 < size) :
    m.readWord addr = .ok (Word.ofBytes m.bytes[addr] m.bytes[addr + 1]) :=
  dif_pos ((within_add_iff addr 2).mpr hlast)

/-- Replaces the word at an address, high byte first. -/
def writeWord (m : Memory) (addr : Nat) (word : Word) : Outcome Memory Unit :=
  m.store addr [word.high, word.low]

end Memory

end Chip8
