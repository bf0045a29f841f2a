import Chip8.Text.Record

namespace Chip8

/-- The two timers. The host counts them down at a steady rate, apart from the instructions. -/
structure Timers where
  delay : UInt8
  sound : UInt8
deriving DecidableEq, Repr

namespace Timers

def zero : Timers :=
  ⟨0, 0⟩

/-- One less, except that a timer at zero stays there. -/
def countDown (value : UInt8) : UInt8 :=
  if value = 0 then 0 else value - 1

def tick (t : Timers) : Timers :=
  ⟨countDown t.delay, countDown t.sound⟩

/-- A tone is heard while the sound timer runs. -/
def isSounding (t : Timers) : Bool :=
  t.sound != 0

def record (t : Timers) : String :=
  Text.record "Timers"
    [("delay", Text.decimal t.delay.toNat), ("sound", Text.decimal t.sound.toNat)]

theorem toNat_countDown (value : UInt8) : (countDown value).toNat = value.toNat - 1 := by
  unfold countDown
  split
  · next h => simp [h]
  · next h =>
    have hpos : 0 < value.toNat := by
      apply Nat.pos_of_ne_zero
      intro hzero
      exact h (UInt8.toNat_inj.mp hzero)
    have hle : (1 : UInt8) ≤ value := UInt8.le_iff_toNat_le.mpr hpos
    exact UInt8.toNat_sub_of_le value 1 hle

end Timers

end Chip8
