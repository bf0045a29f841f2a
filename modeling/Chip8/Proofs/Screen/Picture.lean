import Chip8.Proofs.Machine.Operation
import Chip8.Proofs.Text.Line
import Chip8.Screen.Text

namespace Chip8.Screen

open Text

/-- A row of characters as it is printed, bold green on black. -/
def printed (line : List Char) : String :=
  "\x1b[32;40;1m" ++ String.ofList line ++ "\x1b[0m" ++ "\n"

/-- The lines show a screen: there is one for each row, with one character for each column, and every
pixel can be told from the character at its place. -/
structure Depicts (lines : List (List Char)) (s : Screen) : Prop where
  height : lines.length = s.height
  width : ∀ line ∈ lines, line.length = s.width
  isLine : ∀ line ∈ lines, IsLine (printed line)
  lit : ∀ x y, (lines[y]?.bind fun row => row[x]?) = some '█' ↔ s.get? x y = some true
  dark : ∀ x y, (lines[y]?.bind fun row => row[x]?) = some ' ' ↔ s.get? x y = some false

/-- Operations one after the other. -/
def handleAll (s : Screen) (ops : List Operation) : Screen :=
  ops.foldl (fun t op => (t.handle op).1) s

variable {s t : Screen} {lines : List (List Char)} {x y : Nat}

section Rows

/-- The first chunk is taken from the front, and the others are cut from what is left. -/
theorem chunks_of_ne_nil {α : Type} {size : Nat} (hsize : 0 < size) {items : List α}
    (h : items ≠ []) : chunks size hsize items = items.take size :: chunks size hsize (items.drop size) := by
  rw [chunks, if_neg h]

/-- Chunk `k` begins `k` chunks behind the front, as long as that is not behind the end. -/
theorem getElem?_chunks {α : Type} {size : Nat} (hsize : 0 < size) (items : List α) (k : Nat) :
    (chunks size hsize items)[k]? =
      if k * size < items.length then some ((items.drop (k * size)).take size) else none := by
  induction k generalizing items with
  | zero =>
    by_cases h : items = []
    · subst h
      rw [chunks, if_pos rfl]
      rfl
    · rw [chunks_of_ne_nil hsize h, List.getElem?_cons_zero, Nat.zero_mul, List.drop_zero,
        if_pos (List.length_pos_iff.mpr h)]
  | succ k ih =>
    by_cases h : items = []
    · subst h
      rw [chunks, if_pos rfl]
      rfl
    · rw [chunks_of_ne_nil hsize h, List.getElem?_cons_succ, ih, List.drop_drop, List.length_drop,
        Nat.succ_mul, Nat.add_comm size]
      simp only [Nat.lt_sub_iff_add_lt]

/-- What can be cut without a remainder gives as many chunks as it holds. -/
theorem length_chunks {α : Type} {size count : Nat} (hsize : 0 < size) {items : List α}
    (h : items.length = size * count) : (chunks size hsize items).length = count := by
  -- Chunk `k` is there if it begins before the end, which the first `count` of them do.
  have hchunk (k : Nat) : k < (chunks size hsize items).length ↔ k < count := by
    have hbegins : k * size < items.length ↔ k < count := by
      rw [h, Nat.mul_comm size count, Nat.mul_lt_mul_right hsize]
    rw [← Nat.not_le, ← List.getElem?_eq_none_iff, getElem?_chunks]
    by_cases hk : k < count
    · rw [if_pos (hbegins.mpr hk)]
      simpa using hk
    · rw [if_neg (mt hbegins.mp hk)]
      simpa using hk
  have hlast := hchunk (chunks size hsize items).length
  have hcount := hchunk count
  omega

/-- A screen has as many pixels as its rows hold, so the chunks come out even. -/
theorem length_rows (s : Screen) : s.rows.length = s.height :=
  length_chunks s.width_pos s.pixels.length_toList

/-- The pixels suffice for every row. -/
theorem row_le_area (hy : y < s.height) : y * s.width + s.width ≤ s.width * s.height := by
  calc y * s.width + s.width = (y + 1) * s.width := (Nat.succ_mul y s.width).symm
    _ ≤ s.height * s.width := Nat.mul_le_mul_right s.width hy
    _ = s.width * s.height := Nat.mul_comm s.height s.width

/-- A row begins as many whole rows behind the first pixel as there are above it. -/
theorem getElem?_rows_of_lt (hy : y < s.height) :
    s.rows[y]? = some ((s.pixels.toList.drop (y * s.width)).take s.width) := by
  have hbegins : y * s.width < s.pixels.toList.length := by
    rw [Vector.length_toList]
    exact Nat.lt_of_lt_of_le (Nat.lt_add_of_pos_right s.width_pos) (s.row_le_area hy)
  rw [rows, getElem?_chunks, if_pos hbegins]

/-- No row is cut short, not even the last one. -/
theorem length_of_mem_rows {row : List Bool} (hrow : row ∈ s.rows) : row.length = s.width := by
  obtain ⟨y, hget⟩ := List.mem_iff_getElem?.mp hrow
  have hy : y < s.height := by
    rw [← s.length_rows]
    exact (List.getElem?_eq_some_iff.mp hget).1
  rw [getElem?_rows_of_lt hy] at hget
  cases hget
  have hroom := s.row_le_area hy
  rw [List.length_take, List.length_drop, Vector.length_toList]
  omega

/-- The pixel in column `x` of row `y` is entry `x` of row `y`, and where either is missing so is the
other. -/
theorem getElem?_rows (s : Screen) (x y : Nat) :
    (s.rows[y]?.bind fun row => row[x]?) = s.get? x y := by
  by_cases hy : y < s.height
  · rw [getElem?_rows_of_lt hy, Option.bind_some, List.getElem?_take, List.getElem?_drop,
      Vector.getElem?_toList]
    by_cases hx : x < s.width
    · rw [get?_of_lt s hx hy, if_pos hx]
    · rw [(s.get?_eq_none_iff x y).mpr (fun h => hx h.1), if_neg hx]
  · rw [(s.get?_eq_none_iff x y).mpr (fun h => hy h.2), List.getElem?_eq_none, Option.bind_none]
    rw [length_rows]
    exact Nat.not_lt.mp hy

end Rows

/-- The rows of a screen as characters. -/
def glyphs (s : Screen) : List (List Char) :=
  s.rows.map fun row => row.map glyph

theorem render_eq_join (s : Screen) : s.render = String.join (s.glyphs.map printed) := by
  rw [render, glyphs, List.map_map]
  rfl

theorem getElem?_glyphs (s : Screen) (x y : Nat) :
    (s.glyphs[y]?.bind fun row => row[x]?) = (s.get? x y).map glyph := by
  rw [← getElem?_rows, glyphs, List.getElem?_map, Option.bind_map, Option.map_bind]
  simp only [Function.comp_def, List.getElem?_map]

theorem glyph_eq_iff (lit : Bool) :
    (glyph lit = '█' ↔ lit = true) ∧ (glyph lit = ' ' ↔ lit = false) := by
  cases lit <;> decide

/-- Characters that do not end a line are printed as one. -/
theorem isLine_printed {line : List Char} (hline : '\n' ∉ line) : IsLine (printed line) := by
  refine ⟨_, rfl, ?_⟩
  rw [inline_append_iff, inline_append_iff]
  refine ⟨⟨by decide, ?_⟩, by decide⟩
  rw [Inline, String.toList_ofList]
  exact hline

/-- The characters of a screen show it. -/
theorem glyphs_depict (s : Screen) : Depicts s.glyphs s where
  height := by rw [glyphs, List.length_map, length_rows]
  width line hline := by
    obtain ⟨row, hrow, rfl⟩ := List.mem_map.mp hline
    rw [List.length_map, length_of_mem_rows hrow]
  isLine line hline := by
    obtain ⟨row, _, rfl⟩ := List.mem_map.mp hline
    apply isLine_printed
    intro hmem
    obtain ⟨lit, _, hglyph⟩ := List.mem_map.mp hmem
    cases lit <;> exact absurd hglyph (by decide)
  lit x y := by
    rw [getElem?_glyphs, Option.map_eq_some_iff]
    simp [glyph_eq_iff]
  dark x y := by
    rw [getElem?_glyphs, Option.map_eq_some_iff]
    simp [glyph_eq_iff]

/-- Lines show no more than one screen. The width is told by the first of them, since no screen is
without rows. -/
theorem Depicts.unique (hs : Depicts lines s) (ht : Depicts lines t) : s = t := by
  apply ext_get?
  · have hne : lines ≠ [] := by
      apply List.ne_nil_of_length_pos
      rw [hs.height]
      exact s.height_pos
    have hfirst := List.head_mem hne
    rw [← hs.width _ hfirst, ← ht.width _ hfirst]
  · rw [← hs.height, ← ht.height]
  · intro x y
    have hlit := (hs.lit x y).symm.trans (ht.lit x y)
    have hdark := (hs.dark x y).symm.trans (ht.dark x y)
    apply Option.ext
    rintro (_ | _)
    · exact hdark
    · exact hlit

/-- The text is cut into its lines at their ends, which the characters of a picture never are. -/
theorem glyphs_eq_of_render_eq (h : s.render = t.render) : s.glyphs = t.glyphs := by
  have hlines (u : Screen) : ∀ text ∈ u.glyphs.map printed, IsLine text := by
    intro text htext
    obtain ⟨line, hline, rfl⟩ := List.mem_map.mp htext
    exact u.glyphs_depict.isLine line hline
  rw [render_eq_join, render_eq_join] at h
  have hprinted := eq_of_join_eq (hlines s) (hlines t) h
  apply List.map_injective_iff.mpr _ hprinted
  intro line line' hline
  have hchars := congrArg String.toList hline
  simpa [printed] using hchars

/-- No two screens have the same picture. -/
theorem eq_of_render_eq (h : s.render = t.render) : s = t :=
  s.glyphs_depict.unique (glyphs_eq_of_render_eq h ▸ t.glyphs_depict)

theorem eq_of_pixels (hwidth : s.width = t.width) (hheight : s.height = t.height)
    (hpixels : s.pixels.toList = t.pixels.toList) : s = t := by
  cases s
  cases t
  cases hwidth
  cases hheight
  cases Vector.toList_inj.mp hpixels
  rfl

/-- No operation changes the size of a screen. -/
theorem size_handle (s : Screen) (op : Operation) :
    (s.handle op).1.width = s.width ∧ (s.handle op).1.height = s.height := by
  cases op with
  | draw x y sprite => exact ⟨s.width_draw x y sprite, s.height_draw x y sprite⟩
  | get x y => exact ⟨rfl, rfl⟩
  | clear => exact ⟨rfl, rfl⟩

theorem size_handleAll (s : Screen) (ops : List Operation) :
    (s.handleAll ops).width = s.width ∧ (s.handleAll ops).height = s.height := by
  induction ops generalizing s with
  | nil => exact ⟨rfl, rfl⟩
  | cons op rest ih =>
    obtain ⟨hwidth, hheight⟩ := s.size_handle op
    obtain ⟨hwidth', hheight'⟩ := ih (s.handle op).1
    exact ⟨hwidth'.trans hwidth, hheight'.trans hheight⟩

/-- Whatever was drawn on a screen, its picture has as many lines as the screen had rows in the
beginning, each with a character for every column, from which the pixels can be told. So two pictures
are the same text exactly if the screens have the same size and the same pixels. -/
theorem picture_determines_screen :
    (∀ (s : Screen) (ops : List Operation), ∃ lines,
      (s.handleAll ops).render = String.join (lines.map printed) ∧
        Depicts lines (s.handleAll ops) ∧
        (s.handleAll ops).width = s.width ∧ (s.handleAll ops).height = s.height) ∧
    ∀ s t : Screen, s.render = t.render ↔
      s.width = t.width ∧ s.height = t.height ∧ s.pixels.toList = t.pixels.toList := by
  constructor
  · intro s ops
    exact ⟨(s.handleAll ops).glyphs, render_eq_join _, glyphs_depict _, s.size_handleAll ops⟩
  · intro s t
    constructor
    · intro h
      obtain rfl := eq_of_render_eq h
      exact ⟨rfl, rfl, rfl⟩
    · rintro ⟨hwidth, hheight, hpixels⟩
      rw [eq_of_pixels hwidth hheight hpixels]

example :
    ((dark 3 2 (by decide) (by decide) (by decide)).handleAll
        [.draw 4 2 [0xA0], .draw 2 1 [0xC0]]).render =
      "\x1b[32;40;1m █ \x1b[0m\n\x1b[32;40;1m  █\x1b[0m\n" := by cbv

end Chip8.Screen
