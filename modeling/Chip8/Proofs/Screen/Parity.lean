import Chip8.Proofs.Screen.Blit
import Mathlib.Algebra.Ring.Parity

namespace Chip8.Screen

/-- A sprite that is to be drawn, and where. -/
structure Drawing where
  x : Nat
  y : Nat
  sprite : List UInt8

/-- A set bit of a drawing covers the pixel at `px`, `py`. -/
def Marks (s : Screen) (d : Drawing) (px py : Nat) : Prop :=
  s.Covers d.x d.y d.sprite px py true

instance (s : Screen) (d : Drawing) (px py : Nat) : Decidable (s.Marks d px py) :=
  inferInstanceAs (Decidable ((_ ∧ _) ∧ (_ ∧ _) ∧
    ∃ row ∈ d.sprite[py - d.y % s.height]?, true = row.toNat.testBit (7 - (px - d.x % s.width))))

/-- Makes a drawing. The answer tells whether a lit pixel was turned off. -/
def perform (s : Screen) (d : Drawing) : Screen × Bool :=
  s.draw d.x d.y d.sprite

/-- Makes drawings one after the other. -/
def performAll (s : Screen) (drawings : List Drawing) : Screen :=
  drawings.foldl (fun t d => (t.perform d).1) s

/-- How many of some drawings mark the pixel at `px`, `py`. -/
def marks (s : Screen) (drawings : List Drawing) (px py : Nat) : Nat :=
  drawings.countP fun d => s.Marks d px py

variable {s t : Screen} {d : Drawing} {drawings drawings' : List Drawing} {px py : Nat}

/-- Whether a drawing marks a pixel depends on the size of the screen alone. -/
theorem marks_congr (hwidth : s.width = t.width) (hheight : s.height = t.height) :
    s.Marks d px py ↔ t.Marks d px py := by
  simp only [Marks, Covers, hwidth, hheight]

/-- A drawing turns over what it marks. -/
theorem perform_blits (s : Screen) (d : Drawing) :
    Blits (fun px py => decide (s.Marks d px py)) s (s.perform d) := by
  apply (s.drawRows_blits (d.x % s.width) (d.y % s.height) d.sprite).congr
  intro px py hpx hpy
  rw [Bool.eq_iff_iff, decide_eq_true_iff]
  exact ⟨covers_of_spriteMask hpx hpy, Covers.spriteMask_eq⟩

theorem performAll_cons (s : Screen) (d : Drawing) (rest : List Drawing) :
    s.performAll (d :: rest) = (s.perform d).1.performAll rest := rfl

theorem width_performAll (s : Screen) (drawings : List Drawing) :
    (s.performAll drawings).width = s.width := by
  induction drawings generalizing s with
  | nil => rfl
  | cons d rest ih => rw [performAll_cons, ih, (s.perform_blits d).width]

theorem height_performAll (s : Screen) (drawings : List Drawing) :
    (s.performAll drawings).height = s.height := by
  induction drawings generalizing s with
  | nil => rfl
  | cons d rest ih => rw [performAll_cons, ih, (s.perform_blits d).height]

/-- A drawing does not change what others mark. -/
theorem marks_perform (s : Screen) (d : Drawing) (drawings : List Drawing) (px py : Nat) :
    (s.perform d).1.marks drawings px py = s.marks drawings px py := by
  have hblits := s.perform_blits d
  apply List.countP_congr
  intro other _
  simp only [decide_eq_true_eq]
  exact marks_congr hblits.width hblits.height

/-- One more drawing that marks a pixel turns the parity of the count over. -/
theorem odd_marks_cons (s : Screen) (d : Drawing) (rest : List Drawing) (px py : Nat) :
    decide (Odd (s.marks (d :: rest) px py)) =
      (decide (s.Marks d px py) ^^ decide (Odd (s.marks rest px py))) := by
  by_cases hmarks : s.Marks d px py
  · have hcount : s.marks (d :: rest) px py = s.marks rest px py + 1 :=
      List.countP_cons_of_pos (decide_eq_true hmarks)
    simp only [hcount, Nat.odd_add_one, hmarks, decide_true, Bool.true_xor, decide_not]
  · have hcount : s.marks (d :: rest) px py = s.marks rest px py :=
      List.countP_cons_of_neg (by simpa using hmarks)
    simp only [hcount, hmarks, decide_false, Bool.false_xor]

/-- A pixel is turned over once for each drawing that marks it. -/
theorem get?_performAll (s : Screen) (drawings : List Drawing) (px py : Nat) :
    (s.performAll drawings).get? px py =
      (s.get? px py).map (· ^^ decide (Odd (s.marks drawings px py))) := by
  induction drawings generalizing s with
  | nil => simp [performAll, marks]
  | cons d rest ih =>
    rw [performAll_cons, ih, (s.perform_blits d).pixel, marks_perform, odd_marks_cons,
      Option.map_map]
    congr 1
    funext old
    exact Bool.xor_assoc _ _ _

/-- Which picture drawings make depends on nothing but the parity of how many mark each pixel. -/
theorem performAll_congr (hparity : ∀ px py,
    Odd (s.marks drawings px py) ↔ Odd (s.marks drawings' px py)) :
    s.performAll drawings = s.performAll drawings' := by
  apply ext_get?
  · rw [width_performAll, width_performAll]
  · rw [height_performAll, height_performAll]
  · intro px py
    simp only [get?_performAll, hparity px py]

/-- A drawing that is made for the second time hits what was dark before the first time, since what
was lit is dark by then. -/
theorem hit_perform_twice (s : Screen) (d : Drawing) :
    ((s.perform d).1.perform d).2 = true ↔
      ∃ px py, s.Marks d px py ∧ s.get? px py = some false := by
  have hfirst := s.perform_blits d
  have hsame (px py : Nat) : (s.perform d).1.Marks d px py ↔ s.Marks d px py :=
    marks_congr hfirst.width hfirst.height
  simp only [((s.perform d).1.perform_blits d).hit, decide_eq_true_eq, hsame, hfirst.pixel]
  apply exists_congr
  intro px
  apply exists_congr
  intro py
  apply and_congr_right
  intro hmarks
  simp [hmarks]

/-- Any number of drawings turns a pixel over as often as one of them marks it. So their order does not
matter, a drawing that is made twice leaves no trace, and the second time in a row it hits exactly what
was dark before the first. -/
theorem drawings_turn_pixels_by_parity (s : Screen) (drawings : List Drawing) :
    (s.performAll drawings).width = s.width ∧ (s.performAll drawings).height = s.height ∧
      (∀ px py, (s.performAll drawings).get? px py =
        (s.get? px py).map (· ^^ decide (Odd (s.marks drawings px py)))) ∧
      (∀ drawings', drawings.Perm drawings' → s.performAll drawings = s.performAll drawings') ∧
      (∀ before d between behind, drawings = before ++ d :: between ++ d :: behind →
        s.performAll drawings = s.performAll (before ++ between ++ behind)) ∧
      ∀ d, (((s.performAll drawings).perform d).1.perform d).2 = true ↔
        ∃ px py, (s.performAll drawings).Marks d px py ∧
          (s.performAll drawings).get? px py = some false := by
  refine ⟨s.width_performAll drawings, s.height_performAll drawings, s.get?_performAll drawings,
    ?_, ?_, fun d => hit_perform_twice _ d⟩
  · intro drawings' hperm
    apply performAll_congr
    intro px py
    rw [marks, marks, hperm.countP_eq]
  · rintro before d between behind rfl
    apply performAll_congr
    intro px py
    have hcount : s.marks (before ++ d :: between ++ d :: behind) px py =
        s.marks (before ++ between ++ behind) px py + 2 * s.marks [d] px py := by
      simp only [marks, List.countP_append, List.countP_cons, List.countP_nil]
      omega
    rw [hcount, Nat.odd_add, iff_true_right (even_two_mul _)]

/-- One pixel, in the corner of a small screen. -/
def dot : Drawing := ⟨4, 1, [0x80]⟩

/-- A drawing at the same corner after wrapping around, most of which is cut off. -/
def overEdges : Drawing := ⟨9, 3, [0xC0, 0xFF]⟩

/-- Three drawings meet at a lit pixel and leave it dark, so of one more pair the second hits it. -/
theorem drawings_turn_pixels_by_parity_corner :
    cornerLit.get? 4 1 = some true ∧
      (cornerLit.performAll [overEdges, dot, overEdges]).get? 4 1 = some false ∧
      cornerLit.performAll [overEdges, dot, overEdges] =
        cornerLit.performAll [dot, overEdges, overEdges] ∧
      cornerLit.performAll [overEdges, dot, overEdges] = cornerLit.performAll [dot] ∧
      (((cornerLit.performAll [overEdges, dot, overEdges]).perform dot).1.perform dot).2 = true := by
  have hlit : cornerLit.get? 4 1 = some true := by decide
  have hcount : cornerLit.marks [overEdges, dot, overEdges] 4 1 = 3 := by decide
  have hmarks : cornerLit.Marks dot 4 1 := by decide
  obtain ⟨hwidth, hheight, hpixel, hperm, hcancel, hagain⟩ :=
    drawings_turn_pixels_by_parity cornerLit [overEdges, dot, overEdges]
  have hdark : (cornerLit.performAll [overEdges, dot, overEdges]).get? 4 1 = some false := by
    rw [hpixel, hlit, hcount]
    decide
  refine ⟨hlit, hdark, hperm _ (.swap _ _ _), hcancel [] overEdges [dot] [] rfl, ?_⟩
  exact (hagain dot).mpr ⟨4, 1, (marks_congr hwidth hheight).mpr hmarks, hdark⟩

end Chip8.Screen
