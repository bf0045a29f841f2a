import Chip8.Error

namespace Chip8

/-- The pixels of a screen are counted with 64 bits, and there are fewer of them than this. -/
abbrev Screen.areaLimit : Nat := 0x10000000000000000

/-- A picture of lit and dark pixels. The pixels are kept row by row from the top, each row from the
left. A screen has at least one pixel, and no more than can be counted. -/
structure Screen where
  width : Nat
  height : Nat
  pixels : Vector Bool (width * height)
  width_pos : 0 < width
  height_pos : 0 < height
  area_lt : width * height < Screen.areaLimit
deriving DecidableEq

namespace Screen

def dark (width height : Nat) (hwidth : 0 < width) (hheight : 0 < height)
    (harea : width * height < areaLimit) : Screen where
  width := width
  height := height
  pixels := Vector.replicate (width * height) false
  width_pos := hwidth
  height_pos := hheight
  area_lt := harea

/-- A dark screen, provided that the requested size leaves room for a pixel. A host must not ask for
more pixels than can be counted, since their number would wrap around. -/
def ofSize (width height : Nat) (harea : width * height < areaLimit) : Except Error Screen :=
  if h : 0 < width ∧ 0 < height then .ok (dark width height h.1 h.2 harea)
  else .error (.invalidScreenSize width height)

/-- The screen of the usual size, 64 by 32. -/
def standard : Screen :=
  dark 64 32 (by decide) (by decide) (by decide)

/-- The rows lie one behind the other, so each column of each of them has its place among
the pixels. -/
theorem index_lt {width height x y : Nat} (hx : x < width) (hy : y < height) :
    y * width + x < width * height := by
  calc y * width + x < y * width + width := Nat.add_lt_add_left hx _
    _ = (y + 1) * width := (Nat.succ_mul y width).symm
    _ ≤ height * width := Nat.mul_le_mul_right width hy
    _ = width * height := Nat.mul_comm height width

/-- Whether the pixel in column `x` of row `y` is lit; nothing if the position is off the screen. -/
def get? (s : Screen) (x y : Nat) : Option Bool :=
  if h : x < s.width ∧ y < s.height then
    have hindex := index_lt h.1 h.2
    some s.pixels[y * s.width + x]
  else none

/-- Turns a pixel over if `bit` is set. A position off the screen has nothing to turn over. -/
def flip (s : Screen) (x y : Nat) (bit : Bool) : Screen :=
  { s with pixels :=
      if h : x < s.width ∧ y < s.height then
        have hindex := index_lt h.1 h.2
        s.pixels.set (y * s.width + x) (s.pixels[y * s.width + x] ^^ bit)
      else s.pixels }

/-- No two positions share a place. -/
theorem index_inj {width x y x' y' : Nat} (hx : x < width) (hx' : x' < width)
    (h : y * width + x = y' * width + x') : x = x' ∧ y = y' := by
  have hcolumn := congrArg (· % width) h
  simp only [Nat.mul_add_mod_self_right, Nat.mod_eq_of_lt hx, Nat.mod_eq_of_lt hx'] at hcolumn
  subst hcolumn
  refine ⟨rfl, ?_⟩
  have hrow : y * width = y' * width := Nat.add_right_cancel h
  exact Nat.eq_of_mul_eq_mul_right (by omega) hrow

/-- Off the screen there is no pixel, and everywhere on it there is one. -/
theorem get?_eq_none_iff (s : Screen) (x y : Nat) :
    s.get? x y = none ↔ ¬ (x < s.width ∧ y < s.height) := by
  unfold get?
  split <;> simp_all

/-- A position on the screen is looked up behind the rows above it. -/
theorem get?_of_lt (s : Screen) {x y : Nat} (hx : x < s.width) (hy : y < s.height) :
    s.get? x y = s.pixels[y * s.width + x]? := by
  rw [get?, dif_pos ⟨hx, hy⟩, Vector.getElem?_eq_getElem (index_lt hx hy)]

/-- Screens of one size that show the same are the same. -/
theorem ext_get? {s t : Screen} (hwidth : s.width = t.width) (hheight : s.height = t.height)
    (hpixel : ∀ x y, s.get? x y = t.get? x y) : s = t := by
  cases s with
  | mk width height pixels width_pos height_pos _ =>
    cases t with
    | mk width' height' pixels' _ _ _ =>
      cases hwidth
      cases hheight
      have hpixels : pixels = pixels' := by
        apply Vector.ext
        intro k hk
        have hx : k % width < width := Nat.mod_lt k width_pos
        have hy : k / width < height := Nat.div_lt_of_lt_mul hk
        have hindex : k / width * width + k % width = k := Nat.div_add_mod' k width
        have hsame := hpixel (k % width) (k / width)
        rw [get?_of_lt _ hx hy, get?_of_lt _ hx hy] at hsame
        dsimp only at hsame
        rw [hindex, Vector.getElem?_eq_getElem hk, Vector.getElem?_eq_getElem hk] at hsame
        exact Option.some.inj hsame
      rw [hpixels]

def clear (s : Screen) : Screen :=
  { s with pixels := Vector.replicate (s.width * s.height) false }

theorem get?_clear (s : Screen) {x y : Nat} (hx : x < s.width) (hy : y < s.height) :
    s.clear.get? x y = some false := by
  have hindex := index_lt hx hy
  rw [get?_of_lt s.clear hx hy]
  change (Vector.replicate (s.width * s.height) false)[y * s.width + x]? = some false
  simp [hindex]

/-- Clearing makes dark what there is, and does not add to it. -/
theorem get?_clear_eq_map (s : Screen) (x y : Nat) :
    s.clear.get? x y = (s.get? x y).map fun _ => false := by
  by_cases hon : x < s.width ∧ y < s.height
  · rw [s.get?_clear hon.1 hon.2, get?, dif_pos hon, Option.map_some]
  · rw [(s.get?_eq_none_iff x y).mpr hon, (s.clear.get?_eq_none_iff x y).mpr hon, Option.map_none]

end Screen

/-- A list cut into pieces of a given size from its front on. The last piece is shorter if no more is
left for it. -/
def chunks {α : Type} (size : Nat) (hsize : 0 < size) (items : List α) : List (List α) :=
  if items = [] then [] else items.take size :: chunks size hsize (items.drop size)
termination_by items.length
decreasing_by
  have hpos := List.length_pos_iff.mpr ‹_›
  rw [List.length_drop]
  omega

/-- The rows from the top, each from the left: the pixels cut at every multiple of the width. -/
def Screen.rows (s : Screen) : List (List Bool) :=
  chunks s.width s.width_pos s.pixels.toList

end Chip8
