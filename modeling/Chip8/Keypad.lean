import Chip8.Error

namespace Chip8

open Text

/-- The sixteen keys, each held down or not. -/
structure Keypad where
  held : Vector Bool 16
deriving DecidableEq

namespace Keypad

def released : Keypad :=
  ⟨Vector.replicate 16 false⟩

/-- Brings a key into a position. The answer tells whether it was in the other one. -/
def set (k : Keypad) (key : Nat) (down : Bool) : Outcome Keypad Bool :=
  if h : key < 16 then (⟨k.held.set key down⟩, .ok (k.held[key] != down))
  else (k, .error (.invalidKey key))

def press (k : Keypad) (key : Nat) : Outcome Keypad Bool :=
  k.set key true

def release (k : Keypad) (key : Nat) : Outcome Keypad Bool :=
  k.set key false

/-- Whether a key is held down. A key that the keypad lacks never is. -/
def isPressed (k : Keypad) (key : Nat) : Bool :=
  k.held[key]?.getD false

/-- Moving a key changes that key and no other. -/
theorem isPressed_of_set {k next : Keypad} {key : Nat} {down changed : Bool}
    (hset : k.set key down = (next, .ok changed)) (other : Nat) :
    next.isPressed other = if other = key then down else k.isPressed other := by
  unfold set at hset
  split at hset
  · next hkey =>
    cases hset
    unfold isPressed
    by_cases hsame : other = key
    · subst hsame
      rw [if_pos rfl, Vector.getElem?_set_self, Option.getD_some]
    · rw [if_neg hsame, Vector.getElem?_set_ne _ (Ne.symm hsame)]
  · cases hset

def record (k : Keypad) : String :=
  Text.record "Keypad" [("keys", listing (k.held.toList.map truth))]

end Keypad

end Chip8
