import Chip8.Screen.Draw

namespace Chip8.Screen

/-- What drawing a mask leaves of a screen: every pixel under a set bit is turned over, every other
one stays, and the answer tells whether one of the former was lit. A mask may reach beyond the edges,
where it meets no pixel. -/
structure Blits (mask : Nat → Nat → Bool) (s : Screen) (o : Screen × Bool) : Prop where
  width : o.1.width = s.width
  height : o.1.height = s.height
  pixel : ∀ px py, o.1.get? px py = (s.get? px py).map (· ^^ mask px py)
  hit : o.2 = true ↔ ∃ px py, mask px py = true ∧ s.get? px py = some true

theorem exists_get? {s : Screen} {px py : Nat} (h : px < s.width ∧ py < s.height) :
    ∃ old, s.get? px py = some old :=
  ⟨_, dif_pos h⟩

theorem lt_of_get? {s : Screen} {px py : Nat} {old : Bool} (h : s.get? px py = some old) :
    px < s.width ∧ py < s.height := by
  by_cases hon : px < s.width ∧ py < s.height
  · exact hon
  · rw [(s.get?_eq_none_iff px py).mpr hon] at h
    cases h

section Mask

variable {f g : Nat → Nat → Bool} {s t u : Screen} {hit later : Bool} {o : Screen × Bool}

/-- Of a mask only what lies on the screen matters. -/
theorem Blits.congr (h : Blits f s o)
    (hmask : ∀ px py, px < s.width → py < s.height → f px py = g px py) : Blits g s o := by
  have hsame {px py : Nat} {old : Bool} (hold : s.get? px py = some old) : f px py = g px py := by
    obtain ⟨hpx, hpy⟩ := lt_of_get? hold
    exact hmask px py hpx hpy
  refine ⟨h.width, h.height, ?_, ?_⟩
  · intro px py
    rw [h.pixel]
    cases hold : s.get? px py with
    | none => rfl
    | some old => rw [hsame hold]
  · rw [h.hit]
    apply exists_congr
    intro px
    apply exists_congr
    intro py
    exact and_congr_left fun hlit => by rw [hsame hlit]

/-- A mask without set bits is drawn by leaving the screen as it is. -/
theorem blits_nothing (s : Screen) : Blits (fun _ _ => false) s (s, false) := by
  refine ⟨rfl, rfl, ?_, by simp⟩
  intro px py
  simp

/-- Masks that share no position are drawn one after the other as if they were one. The second one
meets no pixel that the first has turned over, so that it hits what was lit before both. -/
theorem Blits.seq (hfirst : Blits f s (t, hit)) (hsecond : Blits g t (u, later))
    (hdisjoint : ∀ px py, f px py = true → g px py = false) :
    Blits (fun px py => f px py || g px py) s (u, hit || later) := by
  refine ⟨hsecond.width.trans hfirst.width, hsecond.height.trans hfirst.height, ?_, ?_⟩
  · intro px py
    have hboth := hdisjoint px py
    rw [hsecond.pixel, hfirst.pixel, Option.map_map]
    congr 1
    funext old
    cases hf : f px py with
    | false => simp
    | true => simp [hboth hf]
  · -- Under a set bit of the second mask the first one has changed nothing.
    have hsame (px py : Nat) (hg : g px py = true) : t.get? px py = s.get? px py := by
      have hf : f px py = false := by
        cases hf : f px py with
        | false => rfl
        | true => exact absurd (hdisjoint px py hf) (by simp [hg])
      rw [hfirst.pixel, hf]
      simp
    rw [Bool.or_eq_true, hfirst.hit, hsecond.hit]
    constructor
    · rintro (⟨px, py, hf, hlit⟩ | ⟨px, py, hg, hlit⟩)
      · exact ⟨px, py, by simp [hf], hlit⟩
      · exact ⟨px, py, by simp [hg], (hsame px py hg).symm.trans hlit⟩
    · rintro ⟨px, py, hmask, hlit⟩
      obtain hf | hg := Bool.or_eq_true _ _ ▸ hmask
      · exact Or.inl ⟨px, py, hf, hlit⟩
      · exact Or.inr ⟨px, py, hg, (hsame px py hg).trans hlit⟩

/-- A lit pixel was hit exactly if one is dark now. -/
theorem Blits.hit_iff_turned_off (h : Blits f s o) :
    o.2 = true ↔ ∃ px py, s.get? px py = some true ∧ o.1.get? px py = some false := by
  rw [h.hit]
  constructor
  · rintro ⟨px, py, hmask, hlit⟩
    refine ⟨px, py, hlit, ?_⟩
    rw [h.pixel, hlit, hmask]
    rfl
  · rintro ⟨px, py, hlit, hoff⟩
    rw [h.pixel, hlit, Option.map_some, Bool.true_xor, Option.some.injEq,
      Bool.not_eq_eq_eq_not] at hoff
    exact ⟨px, py, hoff, hlit⟩

/-- What is left of a screen is determined by the visible part of the mask. -/
theorem Blits.unique {o' : Screen × Bool} (h : Blits f s o) (h' : Blits g s o')
    (hmask : ∀ px py, px < s.width → py < s.height → f px py = g px py) : o = o' := by
  have hblits := h.congr hmask
  have hscreen : o.1 = o'.1 := by
    apply ext_get? (h.width.trans h'.width.symm) (h.height.trans h'.height.symm)
    intro px py
    rw [hblits.pixel, h'.pixel]
  refine Prod.ext hscreen ?_
  rw [Bool.eq_iff_iff, hblits.hit, h'.hit]

end Mask

section Layout

variable {α : Type} {start k : Nat} {items : List α} {item : α}

/-- The item at place `k` of items that are laid out one by one from `start` on. -/
def placed? (start : Nat) (items : List α) (k : Nat) : Option α :=
  if start ≤ k then items[k - start]? else none

/-- An item stands as far behind the start as it does behind the front of the list. -/
theorem placed?_eq_some_iff :
    placed? start items k = some item ↔ start ≤ k ∧ items[k - start]? = some item := by
  rw [placed?, Option.ite_none_right_eq_some]

@[simp] theorem placed?_nil : placed? start ([] : List α) k = none := by
  simp [placed?]

@[simp] theorem placed?_succ_self : placed? (start + 1) items start = none :=
  if_neg (Nat.not_succ_le_self start)

@[simp] theorem placed?_add : placed? start items (start + k) = items[k]? := by
  rw [placed?, if_pos (Nat.le_add_right start k), Nat.add_sub_cancel_left]

/-- The items behind the first one are laid out one place further. -/
theorem placed?_cons : placed? start (item :: items) k =
    if k = start then some item else placed? (start + 1) items k := by
  unfold placed?
  obtain hbefore | rfl | hbehind := Nat.lt_trichotomy k start
  · rw [if_neg (by omega), if_neg (by omega), if_neg (by omega)]
  · simp
  · have hnext : k - start = k - (start + 1) + 1 := by omega
    rw [if_pos (by omega), if_neg (by omega), if_pos (by omega), hnext, List.getElem?_cons_succ]

end Layout

/-- One bit. -/
def pointMask (x y : Nat) (bit : Bool) (px py : Nat) : Bool :=
  decide (px = x ∧ py = y) && bit

/-- Bits side by side, the first of them at `x`. -/
def rowMask (x y : Nat) (bits : List Bool) (px py : Nat) : Bool :=
  decide (py = y) && (placed? x bits px).getD false

/-- The rows of a sprite one below the other, the first of them at `y`. -/
def spriteMask (x y : Nat) (sprite : List UInt8) (px py : Nat) : Bool :=
  (placed? y sprite py).any fun row => (placed? x (spriteBits row) px).getD false

/-- A row is its first bit and the row of the others beside it. -/
theorem rowMask_cons (x y : Nat) (bit : Bool) (rest : List Bool) (px py : Nat) :
    rowMask x y (bit :: rest) px py = (pointMask x y bit px py || rowMask (x + 1) y rest px py) := by
  unfold rowMask pointMask
  rw [placed?_cons]
  by_cases hx : px = x
  · subst hx
    simp
  · simp [hx]

theorem spriteMask_cons (x y : Nat) (row : UInt8) (rest : List UInt8) (px py : Nat) :
    spriteMask x y (row :: rest) px py =
      (rowMask x y (spriteBits row) px py || spriteMask x (y + 1) rest px py) := by
  unfold rowMask spriteMask
  rw [placed?_cons]
  by_cases hy : py = y
  · subst hy
    simp
  · simp [hy]

/-- A single bit is drawn where it lies, if it is set. -/
theorem drawBit_blits (s : Screen) (x y : Nat) (bit : Bool) :
    Blits (pointMask x y bit) s (s.drawBit x y bit) := by
  refine ⟨s.width_flip x y bit, s.height_flip x y bit, ?_, ?_⟩
  · intro px py
    change (s.flip x y bit).get? px py = _
    rw [get?_flip]
    by_cases hat : px = x ∧ py = y
    · rw [if_pos hat, pointMask, decide_eq_true hat, Bool.true_and]
    · rw [if_neg hat, pointMask, decide_eq_false hat, Bool.false_and]
      simp
  · have hdrawn : (s.drawBit x y bit).2 = (bit && s.get? x y == some true) := rfl
    rw [hdrawn, Bool.and_eq_true, beq_iff_eq]
    constructor
    · rintro ⟨hbit, hlit⟩
      exact ⟨x, y, by simp [pointMask, hbit], hlit⟩
    · rintro ⟨px, py, hmask, hlit⟩
      simp only [pointMask, Bool.and_eq_true, decide_eq_true_eq] at hmask
      obtain ⟨⟨rfl, rfl⟩, hbit⟩ := hmask
      exact ⟨hbit, hlit⟩

/-- Each position of a row is drawn once: what follows the first bit lies to the right of it. -/
theorem drawBits_blits (s : Screen) (x y : Nat) (bits : List Bool) :
    Blits (rowMask x y bits) s (s.drawBits x y bits) := by
  induction bits generalizing s x with
  | nil =>
    apply (blits_nothing s).congr
    intro px py _ _
    simp [rowMask]
  | cons bit rest ih =>
    rw [drawBits_cons]
    apply ((s.drawBit_blits x y bit).seq (ih (s.flip x y bit) (x + 1)) ?_).congr
    · exact fun px py _ _ => (rowMask_cons x y bit rest px py).symm
    · intro px py hpoint
      simp only [pointMask, Bool.and_eq_true, decide_eq_true_eq] at hpoint
      obtain ⟨⟨rfl, rfl⟩, _⟩ := hpoint
      simp [rowMask]

/-- Each row is drawn once: what follows the first row lies below it. -/
theorem drawRows_blits (s : Screen) (x y : Nat) (sprite : List UInt8) :
    Blits (spriteMask x y sprite) s (s.drawRows x y sprite) := by
  induction sprite generalizing s y with
  | nil =>
    apply (blits_nothing s).congr
    intro px py _ _
    simp [spriteMask]
  | cons row rest ih =>
    rw [drawRows_cons]
    apply ((s.drawBits_blits x y (spriteBits row)).seq (ih _ (y + 1)) ?_).congr
    · exact fun px py _ _ => (spriteMask_cons x y row rest px py).symm
    · intro px py hrow
      simp only [rowMask, Bool.and_eq_true, decide_eq_true_eq] at hrow
      obtain ⟨⟨_, rfl⟩, _⟩ := hrow
      simp [spriteMask]

/-- The pixel at `px`, `py` lies under a bit of a sprite that is drawn at `x`, `y`. The origin wraps
around the screen, the sprite ends at the right and the lower edge, and the highest bit of a row is
the leftmost. -/
def Covers (s : Screen) (x y : Nat) (sprite : List UInt8) (px py : Nat) (bit : Bool) : Prop :=
  (x % s.width ≤ px ∧ px < min (x % s.width + 8) s.width) ∧
    (y % s.height ≤ py ∧ py < min (y % s.height + sprite.length) s.height) ∧
      ∃ row, sprite[py - y % s.height]? = some row ∧
        bit = row.toNat.testBit (7 - (px - x % s.width))

/-- Bit 7 of a row is the leftmost one. -/
theorem getElem?_spriteBits (row : UInt8) (k : Nat) :
    (spriteBits row)[k]? = if k < 8 then some (row.toNat.testBit (7 - k)) else none := by
  by_cases hk : k < 8
  · simp [spriteBits, hk]
  · simp [spriteBits, hk]

/-- Bit `b` of row `r` lies `b` columns and `r` rows from the origin. -/
theorem spriteMask_add {x y r b : Nat} {sprite : List UInt8} {row : UInt8}
    (hrow : sprite[r]? = some row) (hb : b < 8) :
    spriteMask x y sprite (x + b) (y + r) = row.toNat.testBit (7 - b) := by
  rw [spriteMask, placed?_add, hrow, Option.any_some, placed?_add, getElem?_spriteBits, if_pos hb,
    Option.getD_some]

/-- A set bit of a sprite lies in one of its rows and in one of eight columns. -/
theorem exists_of_spriteMask {x y px py : Nat} {sprite : List UInt8}
    (hmask : spriteMask x y sprite px py = true) :
    ∃ r b, r < sprite.length ∧ b < 8 ∧ px = x + b ∧ py = y + r := by
  rw [spriteMask, Option.any_eq_true] at hmask
  obtain ⟨row, hrow, hset⟩ := hmask
  obtain ⟨htop, hrow⟩ := placed?_eq_some_iff.mp hrow
  cases hbit : placed? x (spriteBits row) px with
  | none => simp [hbit] at hset
  | some bit =>
    obtain ⟨hleft, hbit⟩ := placed?_eq_some_iff.mp hbit
    rw [getElem?_spriteBits, Option.ite_none_right_eq_some] at hbit
    have hlength := (List.getElem?_eq_some_iff.mp hrow).1
    exact ⟨py - y, px - x, hlength, hbit.1, by omega, by omega⟩

section Cover

variable {s : Screen} {x y px py : Nat} {sprite : List UInt8} {bit : Bool}

/-- What is covered is what lies on the screen under one of the eight bits of a row. -/
theorem covers_iff : s.Covers x y sprite px py bit ↔ (px < s.width ∧ py < s.height) ∧
    ∃ row, placed? (y % s.height) sprite py = some row ∧
      placed? (x % s.width) (spriteBits row) px = some bit := by
  constructor
  · rintro ⟨⟨hleft, hright⟩, ⟨htop, hbottom⟩, row, hrow, rfl⟩
    have hcolumn : px - x % s.width < 8 := by omega
    refine ⟨by omega, row, placed?_eq_some_iff.mpr ⟨htop, hrow⟩, ?_⟩
    rw [placed?_eq_some_iff, getElem?_spriteBits, if_pos hcolumn]
    exact ⟨hleft, rfl⟩
  · rintro ⟨⟨hpx, hpy⟩, row, hrow, hbit⟩
    obtain ⟨htop, hrow⟩ := placed?_eq_some_iff.mp hrow
    obtain ⟨hleft, hbit⟩ := placed?_eq_some_iff.mp hbit
    rw [getElem?_spriteBits, Option.ite_none_right_eq_some, Option.some.injEq] at hbit
    obtain ⟨hcolumn, rfl⟩ := hbit
    have hlength := (List.getElem?_eq_some_iff.mp hrow).1
    exact ⟨⟨hleft, by omega⟩, ⟨htop, by omega⟩, row, hrow, rfl⟩

/-- A sprite covers pixels only, however far it reaches. -/
theorem Covers.on_screen (h : s.Covers x y sprite px py bit) : px < s.width ∧ py < s.height :=
  (covers_iff.mp h).1

/-- The bit that covers a pixel is the one that is drawn there. -/
theorem Covers.spriteMask_eq (h : s.Covers x y sprite px py bit) :
    spriteMask (x % s.width) (y % s.height) sprite px py = bit := by
  obtain ⟨_, row, hrow, hbit⟩ := covers_iff.mp h
  rw [spriteMask, hrow, Option.any_some, hbit, Option.getD_some]

/-- A set bit that lies on the screen covers the pixel there. -/
theorem covers_of_spriteMask (hpx : px < s.width) (hpy : py < s.height)
    (hmask : spriteMask (x % s.width) (y % s.height) sprite px py = true) :
    s.Covers x y sprite px py true := by
  rw [spriteMask, Option.any_eq_true] at hmask
  obtain ⟨row, hrow, hset⟩ := hmask
  cases hbit : placed? (x % s.width) (spriteBits row) px with
  | none => simp [hbit] at hset
  | some bit =>
    rw [hbit, Option.getD_some] at hset
    subst hset
    exact covers_iff.mpr ⟨⟨hpx, hpy⟩, row, hrow, hbit⟩

end Cover

/-- Only the rows of a sprite that lie above the lower edge are seen. -/
theorem draw_congr (s : Screen) (x y : Nat) {sprite sprite' : List UInt8}
    (hvisible : ∀ r < s.height - y % s.height, sprite[r]? = sprite'[r]?) :
    s.draw x y sprite = s.draw x y sprite' := by
  have hblits := s.drawRows_blits (x % s.width) (y % s.height) sprite
  have hblits' := s.drawRows_blits (x % s.width) (y % s.height) sprite'
  apply hblits.unique hblits'
  intro px py _ hpy
  have hrow : placed? (y % s.height) sprite py = placed? (y % s.height) sprite' py := by
    unfold placed?
    split
    · exact hvisible _ (by omega)
    · rfl
  rw [spriteMask, spriteMask, hrow]

/-- Drawing a sprite turns over exactly the pixels that a set bit of it covers, keeps the size of the
screen, and tells whether one of those pixels was lit. -/
theorem draw_flips_covered_pixels (s : Screen) (x y : Nat) (sprite : List UInt8) :
    (s.draw x y sprite).1.width = s.width ∧ (s.draw x y sprite).1.height = s.height ∧
      (∀ px py bit, s.Covers x y sprite px py bit →
        ∃ old, s.get? px py = some old ∧ (s.draw x y sprite).1.get? px py = some (old ^^ bit)) ∧
      (∀ px py, (∀ bit, ¬ s.Covers x y sprite px py bit) →
        (s.draw x y sprite).1.get? px py = s.get? px py) ∧
      ((s.draw x y sprite).2 = true ↔
        ∃ px py, s.Covers x y sprite px py true ∧ s.get? px py = some true) := by
  have hblits := s.drawRows_blits (x % s.width) (y % s.height) sprite
  refine ⟨hblits.width, hblits.height, ?_, ?_, ?_⟩
  · intro px py bit hcovers
    obtain ⟨old, hold⟩ := exists_get? hcovers.on_screen
    refine ⟨old, hold, ?_⟩
    rw [draw, hblits.pixel, hold, Option.map_some, hcovers.spriteMask_eq]
  · intro px py huncovered
    rw [draw, hblits.pixel]
    cases hold : s.get? px py with
    | none => rfl
    | some old =>
      obtain ⟨hpx, hpy⟩ := lt_of_get? hold
      have hmask : spriteMask (x % s.width) (y % s.height) sprite px py = false := by
        rw [Bool.eq_false_iff]
        intro hmask
        exact huncovered true (covers_of_spriteMask hpx hpy hmask)
      rw [hmask, Option.map_some, Bool.xor_false]
  · rw [draw, hblits.hit]
    constructor
    · rintro ⟨px, py, hmask, hlit⟩
      obtain ⟨hpx, hpy⟩ := lt_of_get? hlit
      exact ⟨px, py, covers_of_spriteMask hpx hpy hmask, hlit⟩
    · rintro ⟨px, py, hcovers, hlit⟩
      exact ⟨px, py, hcovers.spriteMask_eq, hlit⟩

/-- A screen that is narrower than a sprite, with its last pixel lit. -/
def cornerLit : Screen :=
  (dark 5 2 (by decide) (by decide) (by decide)).flip 4 1 true

/-- The origin wraps to the lower row, where only two columns of one sprite row have room. -/
theorem draw_flips_covered_pixels_corner :
    cornerLit.Covers 8 3 [0xC0, 0xFF] 4 1 true ∧
      (cornerLit.draw 8 3 [0xC0, 0xFF]).1.get? 4 1 = some false ∧
      (∀ bit, ¬ cornerLit.Covers 8 3 [0xC0, 0xFF] 2 1 bit) ∧
      (cornerLit.draw 8 3 [0xC0, 0xFF]).1.get? 2 1 = some false ∧
      (cornerLit.draw 8 3 [0xC0, 0xFF]).2 = true := by
  have hlit : cornerLit.get? 4 1 = some true := by decide
  have hdark : cornerLit.get? 2 1 = some false := by decide
  have hcovers : cornerLit.Covers 8 3 [0xC0, 0xFF] 4 1 true :=
    ⟨by decide, by decide, 0xC0, by decide⟩
  have hleft (bit : Bool) : ¬ cornerLit.Covers 8 3 [0xC0, 0xFF] 2 1 bit :=
    fun h => absurd h.1.1 (by decide)
  obtain ⟨_, _, hcovered, huncovered, hhit⟩ :=
    draw_flips_covered_pixels cornerLit 8 3 [0xC0, 0xFF]
  obtain ⟨old, hold, hafter⟩ := hcovered 4 1 true hcovers
  obtain rfl : true = old := Option.some.inj (hlit.symm.trans hold)
  have hstill := (huncovered 2 1 hleft).trans hdark
  exact ⟨hcovers, hafter, hleft, hstill, hhit.mpr ⟨4, 1, hcovers, hlit⟩⟩

end Chip8.Screen
