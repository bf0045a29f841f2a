import Chip8.Screen.Basic

namespace Chip8

namespace Screen

@[simp] theorem width_flip (s : Screen) (x y : Nat) (bit : Bool) :
    (s.flip x y bit).width = s.width := rfl

@[simp] theorem height_flip (s : Screen) (x y : Nat) (bit : Bool) :
    (s.flip x y bit).height = s.height := rfl

/-- One pixel is turned over and all others stay. This holds at every position, since off the screen
there is no pixel before or after. -/
theorem get?_flip (s : Screen) (x y : Nat) (bit : Bool) (px py : Nat) :
    (s.flip x y bit).get? px py =
      if px = x ∧ py = y then (s.get? px py).map (· ^^ bit) else s.get? px py := by
  by_cases hin : px < s.width ∧ py < s.height
  · obtain ⟨hpx, hpy⟩ := hin
    rw [get?_of_lt (s.flip x y bit) hpx hpy, get?_of_lt s hpx hpy]
    unfold flip
    dsimp only
    split
    · next hxy =>
      by_cases hsame : px = x ∧ py = y
      · obtain ⟨rfl, rfl⟩ := hsame
        have hindex := index_lt hpx hpy
        simp [hindex]
      · have hne : y * s.width + x ≠ py * s.width + px := by
          intro heq
          obtain ⟨hx, hy⟩ := index_inj hxy.1 hpx heq
          exact hsame ⟨hx.symm, hy.symm⟩
        rw [if_neg hsame]
        exact Vector.getElem?_set_ne _ hne
    · next hxy =>
      rw [if_neg]
      rintro ⟨rfl, rfl⟩
      exact hxy ⟨hpx, hpy⟩
  · have hnone := (s.get?_eq_none_iff px py).mpr hin
    rw [hnone, Option.map_none, ite_self]
    exact ((s.flip x y bit).get?_eq_none_iff px py).mpr hin

/-- Draws one bit of a sprite. The answer tells whether a lit pixel was turned off. -/
def drawBit (s : Screen) (x y : Nat) (bit : Bool) : Screen × Bool :=
  let hit := bit && s.get? x y == some true
  (s.flip x y bit, hit)

def drawBits (s : Screen) (x y : Nat) : List Bool → Screen × Bool
  | [] => (s, false)
  | bit :: rest =>
    let (next, hit) := s.drawBit x y bit
    let (last, later) := next.drawBits (x + 1) y rest
    (last, hit || later)

@[simp] theorem drawBits_nil (s : Screen) (x y : Nat) : s.drawBits x y [] = (s, false) := rfl

/-- The bits behind the first are drawn one column further, on the screen that the first has
left. -/
theorem drawBits_cons (s : Screen) (x y : Nat) (bit : Bool) (rest : List Bool) :
    s.drawBits x y (bit :: rest) =
      (((s.flip x y bit).drawBits (x + 1) y rest).1,
        (s.drawBit x y bit).2 || ((s.flip x y bit).drawBits (x + 1) y rest).2) := rfl

@[simp] theorem width_drawBits (s : Screen) (x y : Nat) (bits : List Bool) :
    (s.drawBits x y bits).1.width = s.width := by
  induction bits generalizing s x with
  | nil => rfl
  | cons bit rest ih => rw [drawBits_cons, ih, width_flip]

@[simp] theorem height_drawBits (s : Screen) (x y : Nat) (bits : List Bool) :
    (s.drawBits x y bits).1.height = s.height := by
  induction bits generalizing s x with
  | nil => rfl
  | cons bit rest ih => rw [drawBits_cons, ih, height_flip]

/-- The bits of a sprite row from the left, which is the highest bit first. -/
def spriteBits (row : UInt8) : List Bool :=
  (List.range 8).map fun k => row.toNat.testBit (7 - k)

def drawRows (s : Screen) (x y : Nat) : List UInt8 → Screen × Bool
  | [] => (s, false)
  | row :: rest =>
    let (next, hit) := s.drawBits x y (spriteBits row)
    let (last, later) := next.drawRows x (y + 1) rest
    (last, hit || later)

@[simp] theorem drawRows_nil (s : Screen) (x y : Nat) : s.drawRows x y [] = (s, false) := rfl

/-- The rows behind the first are drawn one row further down, on the screen that the first
has left. -/
theorem drawRows_cons (s : Screen) (x y : Nat) (row : UInt8) (rest : List UInt8) :
    s.drawRows x y (row :: rest) =
      (((s.drawBits x y (spriteBits row)).1.drawRows x (y + 1) rest).1,
        (s.drawBits x y (spriteBits row)).2 ||
          ((s.drawBits x y (spriteBits row)).1.drawRows x (y + 1) rest).2) := rfl

@[simp] theorem width_drawRows (s : Screen) (x y : Nat) (sprite : List UInt8) :
    (s.drawRows x y sprite).1.width = s.width := by
  induction sprite generalizing s y with
  | nil => rfl
  | cons row rest ih => rw [drawRows_cons, ih, width_drawBits]

@[simp] theorem height_drawRows (s : Screen) (x y : Nat) (sprite : List UInt8) :
    (s.drawRows x y sprite).1.height = s.height := by
  induction sprite generalizing s y with
  | nil => rfl
  | cons row rest ih => rw [drawRows_cons, ih, height_drawBits]

/-- Draws a sprite of eight columns and as many rows as it has bytes, each set bit turning over one
pixel. The origin wraps around the screen and the sprite is cut off at the right and the lower edge.
The answer tells whether a lit pixel was turned off. -/
def draw (s : Screen) (x y : Nat) (sprite : List UInt8) : Screen × Bool :=
  s.drawRows (x % s.width) (y % s.height) sprite

/-- A screen keeps its width, wherever the sprite is drawn. -/
@[simp] theorem width_draw (s : Screen) (x y : Nat) (sprite : List UInt8) :
    (s.draw x y sprite).1.width = s.width :=
  s.width_drawRows _ _ sprite

@[simp] theorem height_draw (s : Screen) (x y : Nat) (sprite : List UInt8) :
    (s.draw x y sprite).1.height = s.height :=
  s.height_drawRows _ _ sprite

end Screen

end Chip8
