import Chip8.Proofs.Text.Numeral
import Chip8.Proofs.Text.Style

namespace Chip8.Text

/-- A text that does not end the line it stands in. -/
def Inline (text : String) : Prop :=
  '\n' ∉ text.toList

instance (text : String) : Decidable (Inline text) :=
  inferInstanceAs (Decidable (_ ∉ _))

/-- A text that is exactly one line. -/
def IsLine (text : String) : Prop :=
  ∃ body, text = body ++ "\n" ∧ Inline body

/-- A text can only break the line at one of its own characters. -/
theorem inline_append_iff (s t : String) : Inline (s ++ t) ↔ Inline s ∧ Inline t := by
  simp [Inline]

theorem inline_dim {text : String} (h : Inline text) : Inline (dim text) := by
  rw [dim, inline_append_iff, inline_append_iff]
  exact ⟨⟨by decide, h⟩, by decide⟩

section Printable

/-- A text without control characters. These lie below the space. -/
def Printable (text : String) : Prop :=
  text.toList.all (' ' ≤ ·) = true

instance (text : String) : Decidable (Printable text) :=
  inferInstanceAs (Decidable (_ = true))

variable {text alphabet : String}

theorem printable_append_iff (s t : String) :
    Printable (s ++ t) ↔ Printable s ∧ Printable t := by
  simp [Printable]

theorem Printable.not_mem (h : Printable text) {c : Char} (hc : ¬ ' ' ≤ c) : c ∉ text.toList := by
  intro hmem
  exact hc (by simpa using List.all_eq_true.mp h c hmem)

/-- A printable text keeps to its line. -/
theorem Printable.inline (h : Printable text) : Inline text :=
  h.not_mem (by decide)

/-- A printable text has no colour. -/
theorem Printable.bare (h : Printable text) : Bare text :=
  h.not_mem (by decide)

theorem printable_of_alphabet (halphabet : Printable alphabet)
    (h : ∀ c ∈ text.toList, c ∈ alphabet.toList) : Printable text :=
  List.all_eq_true.mpr fun c hc => List.all_eq_true.mp halphabet c (h c hc)

theorem printable_decimal (n : Nat) : Printable (decimal n) :=
  printable_of_alphabet (by decide) fun _ => digit_of_mem_decimal

theorem printable_hex (width n : Nat) : Printable (hex width n) :=
  printable_of_alphabet (by decide) fun _ => digit_of_mem_hex

theorem printable_upperHex (n : Nat) : Printable (upperHex n) :=
  printable_of_alphabet (by decide) fun _ => digit_of_mem_upperHex

/-- A column is filled up with spaces, and these can be printed. -/
theorem printable_alignRight (h : Printable text) (width : Nat) :
    Printable (alignRight width text) := by
  rw [Printable, alignRight, String.toList_ofList, List.leftpad, List.all_append, h]
  simp

theorem printable_alignLeft (h : Printable text) (width : Nat) :
    Printable (alignLeft width text) := by
  rw [Printable, alignLeft, String.toList_ofList, List.rightpad, List.all_append, h]
  simp

end Printable

section Cut

variable {separator : Char} {front : List Char}

/-- The characters in front of the first separator, and those behind it. -/
def cut? (separator : Char) : List Char → Option (List Char × List Char)
  | [] => none
  | c :: rest =>
    if c = separator then some ([], rest)
    else (cut? separator rest).map fun (front, back) => (c :: front, back)

/-- The first separator is found behind a text that has none. -/
theorem cut?_append (h : separator ∉ front) (back : List Char) :
    cut? separator (front ++ separator :: back) = some (front, back) := by
  induction front with
  | nil => exact if_pos rfl
  | cons c front ih =>
    rw [List.mem_cons, not_or] at h
    rw [List.cons_append, cut?, if_neg (Ne.symm h.1), ih h.2]
    rfl

end Cut

/-- A character divides a text in one way only if it stands in neither of the parts in front. -/
theorem eq_of_append_cons_eq {c : Char} {front front' back back' : List Char} (hfront : c ∉ front)
    (hfront' : c ∉ front') (h : front ++ c :: back = front' ++ c :: back') :
    front = front' ∧ back = back' := by
  induction front generalizing front' with
  | nil =>
    cases front' with
    | nil => exact ⟨rfl, List.tail_eq_of_cons_eq h⟩
    | cons d rest' =>
      have hsame : c = d := List.head_eq_of_cons_eq h
      exact absurd (hsame ▸ List.mem_cons_self) hfront'
  | cons d rest ih =>
    rw [List.mem_cons, not_or] at hfront
    cases front' with
    | nil => exact absurd (List.head_eq_of_cons_eq h).symm hfront.1
    | cons d' rest' =>
      rw [List.mem_cons, not_or] at hfront'
      obtain ⟨hrest, hback⟩ := ih hfront.2 hfront'.2 (List.tail_eq_of_cons_eq h)
      rw [hrest, List.head_eq_of_cons_eq h]
      exact ⟨rfl, hback⟩

/-- Lines can be told from the text that they make up. -/
theorem eq_of_join_eq {texts texts' : List String} (hlines : ∀ text ∈ texts, IsLine text)
    (hlines' : ∀ text ∈ texts', IsLine text) (h : String.join texts = String.join texts') :
    texts = texts' := by
  induction texts generalizing texts' with
  | nil =>
    cases texts' with
    | nil => rfl
    | cons text' rest' =>
      obtain ⟨⟨body', rfl, _⟩, _⟩ := List.forall_mem_cons.mp hlines'
      simpa using congrArg String.toList h
  | cons text rest ih =>
    obtain ⟨⟨body, rfl, hbody⟩, hrest⟩ := List.forall_mem_cons.mp hlines
    cases texts' with
    | nil => simpa using congrArg String.toList h
    | cons text' rest' =>
      obtain ⟨⟨body', rfl, hbody'⟩, hrest'⟩ := List.forall_mem_cons.mp hlines'
      rw [String.join_cons, String.join_cons] at h
      have hchars : body.toList ++ '\n' :: (String.join rest).toList =
          body'.toList ++ '\n' :: (String.join rest').toList := by
        simpa using congrArg String.toList h
      obtain ⟨hfirst, hback⟩ := eq_of_append_cons_eq hbody hbody' hchars
      rw [String.toList_inj.mp hfirst, ih hrest hrest' (String.toList_inj.mp hback)]

end Chip8.Text
