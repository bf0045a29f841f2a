import Chip8.Text.Style

namespace Chip8.Text

/-- The characters that remain when escape sequences are left out, each from its escape character to
the next `m`. The flag tells whether the text starts inside of one. -/
def dropEscapes : Bool → List Char → List Char
  | _, [] => []
  | true, c :: rest => dropEscapes (c != 'm') rest
  | false, c :: rest =>
    if c = '\x1b' then dropEscapes true rest else c :: dropEscapes false rest

/-- A text without its colours. -/
def unstyled (text : String) : String :=
  String.ofList (dropEscapes false text.toList)

/-- A text in no colour. -/
def Bare (text : String) : Prop :=
  '\x1b' ∉ text.toList

instance (text : String) : Decidable (Bare text) :=
  inferInstanceAs (Decidable (_ ∉ _))

@[simp] theorem toList_unstyled (text : String) :
    (unstyled text).toList = dropEscapes false text.toList := by
  simp [unstyled]

/-- Characters in no colour stay as they are, and the rest is looked at for itself. -/
theorem dropEscapes_append {front : List Char} (h : '\x1b' ∉ front) (rest : List Char) :
    dropEscapes false (front ++ rest) = front ++ dropEscapes false rest := by
  induction front with
  | nil => rfl
  | cons c front ih =>
    rw [List.mem_cons, not_or] at h
    obtain ⟨hne, hfront⟩ := h
    rw [List.cons_append, dropEscapes, if_neg (Ne.symm hne), ih hfront, List.cons_append]

/-- A text in no colour stays in front of what remains of the rest. -/
theorem unstyled_append {front : String} (h : Bare front) (rest : String) :
    unstyled (front ++ rest) = front ++ unstyled rest := by
  apply String.toList_inj.mp
  simp only [toList_unstyled, String.toList_append]
  exact dropEscapes_append h _

/-- A text that is left out as a whole. -/
def Escape (text : String) : Prop :=
  ∀ rest, dropEscapes false (text.toList ++ rest) = dropEscapes false rest

/-- Whatever the colour, the text between its two sequences remains and they do not. -/
theorem unstyled_styled_append {start stop text : String} (hstart : Escape start)
    (hstop : Escape stop) (h : Bare text) (rest : String) :
    unstyled (start ++ text ++ stop ++ rest) = text ++ unstyled rest := by
  apply String.toList_inj.mp
  simp only [toList_unstyled, String.toList_append, List.append_assoc]
  rw [hstart, dropEscapes_append h, hstop]

theorem unstyled_phosphor_append {text : String} (h : Bare text) (rest : String) :
    unstyled (phosphor text ++ rest) = text ++ unstyled rest :=
  unstyled_styled_append (fun _ => rfl) (fun _ => rfl) h rest

theorem unstyled_dim_append {text : String} (h : Bare text) (rest : String) :
    unstyled (dim text ++ rest) = text ++ unstyled rest :=
  unstyled_styled_append (fun _ => rfl) (fun _ => rfl) h rest

end Chip8.Text
