namespace Chip8

/-- A source of random bytes: an endless sequence, and how many of it were taken. -/
structure Noise where
  byteAt : Nat → UInt8
  drawn : Nat

namespace Noise

def next (n : Noise) : UInt8 :=
  n.byteAt n.drawn

def rest (n : Noise) : Noise :=
  { n with drawn := n.drawn + 1 }

/-- Spreads the bits of a number over all places, so that neighbouring numbers give unlike ones. -/
def scramble (z : UInt64) : UInt64 :=
  let z := (z ^^^ (z >>> 30)) * 0xBF58476D1CE4E5B9
  let z := (z ^^^ (z >>> 27)) * 0x94D049BB133111EB
  z ^^^ (z >>> 31)

def ofSeed (seed : UInt64) : Noise where
  byteAt k := (scramble (seed + UInt64.ofNat (k + 1) * 0x9E3779B97F4A7C15)).toUInt8
  drawn := 0

end Noise

end Chip8
