import Chip8.Proofs.Checked.Basic
import Chip8.Screen.Draw

namespace Chip8

namespace Checked

/-- A screen as it is stored, with nothing known about the number of its pixels. -/
structure Screen where
  width : Nat
  height : Nat
  pixels : Array Bool

namespace Screen

def ofSize (width height : Nat) : Guarded (Except Error Screen) :=
  if width = 0 ∨ height = 0 then return .error (.invalidScreenSize width height)
  else do
    let count ← times width height
    return .ok ⟨width, height, Array.replicate count false⟩

def standard : Guarded Screen := do
  let count ← times 64 32
  return ⟨64, 32, Array.replicate count false⟩

def clear (s : Screen) : Screen :=
  { s with pixels := Array.replicate s.pixels.size false }

def index (s : Screen) (x y : Nat) : Guarded Nat := do
  plus (← times y s.width) x

def get? (s : Screen) (x y : Nat) : Guarded (Option Bool) :=
  if x < s.width ∧ y < s.height then do
    let k ← s.index x y
    return s.pixels[k]?
  else return none

def drawBit (s : Screen) (x y : Nat) (bit : Bool) : Guarded (Screen × Bool) := do
  let k ← place (← s.index x y) s.pixels.size
  return ({ s with pixels := s.pixels.set k (s.pixels[k] ^^ bit) }, s.pixels[k] && bit)

/-- Draws the bits of a row until the right edge. -/
def drawBits (s : Screen) (x y : Nat) (hit : Bool) : List Bool → Guarded (Screen × Bool)
  | [] => return (s, hit)
  | bit :: rest => do
    let (next, touched) ← s.drawBit x y bit
    let right ← plus x 1
    if s.width ≤ right then return (next, hit || touched)
    else next.drawBits right y (hit || touched) rest

/-- Draws the rows of a sprite until the lower edge. -/
def drawRows (s : Screen) (x y : Nat) (hit : Bool) : List UInt8 → Guarded (Screen × Bool)
  | [] => return (s, hit)
  | row :: rest => do
    let (next, touched) ← s.drawBits x y hit (Screen.spriteBits row)
    let below ← plus y 1
    if s.height ≤ below then return (next, touched)
    else next.drawRows x below touched rest

def draw (s : Screen) (x y : Nat) (sprite : List UInt8) : Guarded (Screen × Bool) := do
  let column ← remainder x s.width
  let row ← remainder y s.height
  s.drawRows column row false sprite

end Screen

end Checked

namespace Screen

/-- The number of pixels. -/
def area (s : Screen) : Nat :=
  s.width * s.height

/-- The screen without what is known about it. -/
def bare (s : Screen) : Checked.Screen :=
  ⟨s.width, s.height, s.pixels.toArray⟩

@[simp] theorem width_bare (s : Screen) : s.bare.width = s.width := rfl

@[simp] theorem height_bare (s : Screen) : s.bare.height = s.height := rfl

@[simp] theorem size_bare (s : Screen) : s.bare.pixels.size = s.area :=
  s.pixels.size_toArray

/-- The pixels of a new screen are counted without wrapping around. -/
theorem ofSize_bare {width height : Nat} (harea : width * height < areaLimit) :
    Checked.Screen.ofSize width height = .ok ((ofSize width height harea).map bare) := by
  unfold Checked.Screen.ofSize ofSize
  by_cases hsize : 0 < width ∧ 0 < height
  · have hcount : Checked.times width height = .ok (width * height) := Checked.times_of_lt harea
    rw [if_neg (by omega), dif_pos hsize, hcount]
    rfl
  · rw [if_pos (by omega), dif_neg hsize]
    rfl

/-- The usual screen has 2048 pixels, which can be counted. -/
theorem standard_bare : Checked.Screen.standard = .ok standard.bare := by
  rw [Checked.Screen.standard, Checked.times_of_lt (by decide)]
  rfl

theorem clear_bare (s : Screen) : s.bare.clear = s.clear.bare := by
  simp [bare, Checked.Screen.clear, clear]

/-- Bits to the right of the screen or below it show nothing. -/
theorem drawBits_of_off (s : Screen) {x y : Nat} (hoff : s.width ≤ x ∨ s.height ≤ y)
    (bits : List Bool) : s.drawBits x y bits = (s, false) := by
  induction bits generalizing x with
  | nil => rfl
  | cons bit rest ih =>
    have hnowhere : ¬ (x < s.width ∧ y < s.height) := by omega
    have hflip : s.flip x y bit = s := by rw [flip, dif_neg hnowhere]
    have hnone : s.get? x y = none := (s.get?_eq_none_iff x y).mpr hnowhere
    rw [drawBits_cons, hflip, ih (by omega), drawBit, hnone]
    simp

/-- Rows below the screen show nothing, whatever their bits. -/
theorem drawRows_of_off (s : Screen) (x : Nat) {y : Nat} (hoff : s.height ≤ y)
    (sprite : List UInt8) : s.drawRows x y sprite = (s, false) := by
  induction sprite generalizing y with
  | nil => rfl
  | cons row rest ih =>
    rw [drawRows_cons, s.drawBits_of_off (Or.inr hoff), ih (Nat.le_succ_of_le hoff)]
    rfl

variable {s : Screen} {x y : Nat}

/-- Where a position is on the screen, its index and everything formed on the way are in range. -/
theorem index_bare (harea : s.area < Checked.limit) (hx : x < s.width) (hy : y < s.height) :
    s.bare.index x y = .ok (y * s.width + x) := by
  have hindex : y * s.width + x < Checked.limit := Nat.lt_trans (index_lt hx hy) harea
  have hproduct : y * s.width < Checked.limit := Nat.lt_of_le_of_lt (Nat.le_add_right _ x) hindex
  rw [Checked.Screen.index, width_bare, Checked.times_of_lt hproduct]
  exact Checked.plus_of_lt hindex

/-- A position is looked at before its index is formed. -/
theorem get?_bare (harea : s.area < Checked.limit) (x y : Nat) :
    s.bare.get? x y = .ok (s.get? x y) := by
  rw [Checked.Screen.get?, width_bare, height_bare]
  by_cases hon : x < s.width ∧ y < s.height
  · rw [if_pos hon, index_bare harea hon.1 hon.2, get?_of_lt s hon.1 hon.2,
      Checked.ok_bind, bare, Vector.getElem?_toArray]
    rfl
  · rw [if_neg hon, (s.get?_eq_none_iff x y).mpr hon]
    rfl

/-- The index of a position on the screen is that of a pixel. -/
theorem drawBit_bare (harea : s.area < Checked.limit) (hx : x < s.width) (hy : y < s.height)
    (bit : Bool) :
    s.bare.drawBit x y bit = .ok ((s.drawBit x y bit).1.bare, (s.drawBit x y bit).2) := by
  have hindex : y * s.width + x < s.bare.pixels.size := by
    rw [size_bare]
    exact index_lt hx hy
  rw [Checked.Screen.drawBit, index_bare harea hx hy, Checked.ok_bind, Checked.place_of_lt hindex]
  simp [drawBit, flip, bare, get?, hx, hy, Bool.and_comm]

theorem area_drawBits (s : Screen) (x y : Nat) (bits : List Bool) :
    (s.drawBits x y bits).1.area = s.area := by
  rw [area, width_drawBits, height_drawBits, area]

theorem area_draw (s : Screen) (x y : Nat) (sprite : List UInt8) :
    (s.draw x y sprite).1.area = s.area := by
  rw [area, width_draw, height_draw, area]

/-- A screen has no more columns than pixels, since it has a row. -/
theorem width_le_area (s : Screen) : s.width ≤ s.area :=
  Nat.le_mul_of_pos_right s.width s.height_pos

/-- A screen has no more rows than pixels, since it has a column. -/
theorem height_le_area (s : Screen) : s.height ≤ s.area :=
  Nat.le_mul_of_pos_left s.height s.width_pos

/-- The loop leaves off at the right edge, behind which the bits would show nothing. -/
theorem drawBits_bare (harea : s.area < Checked.limit) (hx : x < s.width) (hy : y < s.height)
    (hit : Bool) (bits : List Bool) :
    s.bare.drawBits x y hit bits =
      .ok ((s.drawBits x y bits).1.bare, hit || (s.drawBits x y bits).2) := by
  induction bits generalizing s x hit with
  | nil => simp [Checked.Screen.drawBits]
  | cons bit rest ih =>
    have hright : x + 1 < Checked.limit :=
      Nat.lt_of_le_of_lt (Nat.le_trans hx s.width_le_area) harea
    rw [Checked.Screen.drawBits, drawBit_bare harea hx hy, Checked.plus_of_lt hright,
      drawBits_cons]
    simp only [Checked.ok_bind]
    by_cases hedge : s.bare.width ≤ x + 1
    · rw [if_pos hedge, (s.flip x y bit).drawBits_of_off (Or.inl hedge), Bool.or_false]
      rfl
    · have hinside : x + 1 < s.width := Nat.not_le.mp hedge
      rw [if_neg hedge, ← Bool.or_assoc]
      exact ih (s := s.flip x y bit) harea hinside hy _

/-- The same for the lower edge. Each row begins on the screen, or the loop has been left
before it. -/
theorem drawRows_bare (harea : s.area < Checked.limit) (hx : x < s.width) (hy : y < s.height)
    (hit : Bool) (sprite : List UInt8) :
    s.bare.drawRows x y hit sprite =
      .ok ((s.drawRows x y sprite).1.bare, hit || (s.drawRows x y sprite).2) := by
  induction sprite generalizing s y hit with
  | nil => simp [Checked.Screen.drawRows]
  | cons row rest ih =>
    have hbelow : y + 1 < Checked.limit :=
      Nat.lt_of_le_of_lt (Nat.le_trans hy s.height_le_area) harea
    rw [Checked.Screen.drawRows, drawBits_bare harea hx hy, Checked.plus_of_lt hbelow,
      drawRows_cons]
    simp only [Checked.ok_bind]
    by_cases hedge : s.bare.height ≤ y + 1
    · have hoff := Nat.le_trans (Nat.le_of_eq (s.height_drawBits x y (spriteBits row))) hedge
      rw [if_pos hedge, drawRows_of_off _ x hoff, Bool.or_false]
      rfl
    · have hinside : y + 1 < s.height := Nat.not_le.mp hedge
      rw [if_neg hedge, ih (by rwa [area_drawBits]) (by rwa [width_drawBits])
        (by rwa [height_drawBits]), Bool.or_assoc]

/-- Drawing at any position divides by the size of the screen, which is not zero. -/
theorem draw_bare (harea : s.area < Checked.limit) (x y : Nat) (sprite : List UInt8) :
    s.bare.draw x y sprite = .ok ((s.draw x y sprite).1.bare, (s.draw x y sprite).2) := by
  have hx := Nat.mod_lt x s.width_pos
  have hy := Nat.mod_lt y s.height_pos
  rw [Checked.Screen.draw, width_bare, height_bare, Checked.remainder_of_pos s.width_pos,
    Checked.remainder_of_pos s.height_pos]
  simp only [Checked.ok_bind]
  rw [drawRows_bare harea hx hy, Bool.false_or]
  rfl

end Screen

end Chip8
