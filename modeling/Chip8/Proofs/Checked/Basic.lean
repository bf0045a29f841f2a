namespace Chip8.Checked

/-- What would stop the machine itself, as opposed to an error that it answers with. -/
inductive Trap where
  /-- An index behind the end of an array. -/
  | index
  /-- A span that ends before it starts or behind the end of an array. -/
  | span
  /-- A copy between spans of different lengths. -/
  | length
  /-- A remainder of a division by zero. -/
  | divisor
  /-- A size or an address that is too large for an integer. -/
  | overflow
  /-- A difference below zero. -/
  | underflow
  /-- A cycle count that is too large for an integer. -/
  | count
  /-- A built-in font that does not fit. -/
  | font
deriving DecidableEq, Repr

/-- A computation that a trap may stop. -/
abbrev Guarded (α : Type) := Except Trap α

/-- The integers of the machine have 64 bits and lie below this one. -/
def limit : Nat := 0x10000000000000000

@[simp] theorem ok_bind {α β : Type} (a : α) (f : α → Guarded β) :
    ((.ok a : Guarded α) >>= f) = f a := rfl

@[simp] theorem pure_eq_ok {α : Type} (a : α) : (pure a : Guarded α) = .ok a := rfl

/-- Traps unless something is the case. -/
def demand (p : Prop) [Decidable p] (trap : Trap) : Guarded Unit :=
  if p then .ok () else .error trap

theorem demand_of {p : Prop} [Decidable p] (trap : Trap) (h : p) : demand p trap = .ok () :=
  if_pos h

/-- An index into an array of `n` places. -/
def place (k n : Nat) : Guarded (Fin n) :=
  if h : k < n then .ok ⟨k, h⟩ else .error .index

theorem place_of_lt {k n : Nat} (h : k < n) : place k n = .ok ⟨k, h⟩ :=
  dif_pos h

/-- A span of an array of `n` places. -/
def span (start stop n : Nat) : Guarded Unit :=
  demand (start ≤ stop ∧ stop ≤ n) .span

theorem span_of_le {start stop n : Nat} (hstart : start ≤ stop) (hstop : stop ≤ n) :
    span start stop n = .ok () :=
  demand_of _ ⟨hstart, hstop⟩

/-- A copy of `n` places to a span. -/
def fits (n start stop : Nat) : Guarded Unit :=
  demand (n = stop - start) .length

theorem fits_of_eq {n start stop : Nat} (h : n = stop - start) : fits n start stop = .ok () :=
  demand_of _ h

def plus (a b : Nat) : Guarded Nat := do
  demand (a + b < limit) .overflow
  return a + b

theorem plus_of_lt {a b : Nat} (h : a + b < limit) : plus a b = .ok (a + b) := by
  rw [plus, demand_of _ h]
  rfl

def times (a b : Nat) : Guarded Nat := do
  demand (a * b < limit) .overflow
  return a * b

theorem times_of_lt {a b : Nat} (h : a * b < limit) : times a b = .ok (a * b) := by
  rw [times, demand_of _ h]
  rfl

def minus (a b : Nat) : Guarded Nat := do
  demand (b ≤ a) .underflow
  return a - b

theorem minus_of_le {a b : Nat} (h : b ≤ a) : minus a b = .ok (a - b) := by
  rw [minus, demand_of _ h]
  rfl

def remainder (a b : Nat) : Guarded Nat := do
  demand (0 < b) .divisor
  return a % b

theorem remainder_of_pos {a b : Nat} (h : 0 < b) : remainder a b = .ok (a % b) := by
  rw [remainder, demand_of _ h]
  rfl

/-- The computation gives this value, unless a cycle count that it forms is too large. Each of these
counts is `top` at most. -/
def Completes {α : Type} (computation : Guarded α) (value : α) (top : Nat) : Prop :=
  computation = .ok value ∨ computation = .error .count ∧ limit ≤ top

section Completes

variable {α β : Type} {computation : Guarded α} {value : α} {top : Nat}

/-- A higher bound on the counts is a bound as well. -/
theorem Completes.mono {higher : Nat} (h : Completes computation value top) (hle : top ≤ higher) :
    Completes computation value higher := by
  obtain hok | ⟨htrap, hlimit⟩ := h
  · exact Or.inl hok
  · exact Or.inr ⟨htrap, Nat.le_trans hlimit hle⟩

/-- Two computations one after the other complete if each does. -/
theorem Completes.bind {next : α → Guarded β} {result : β} (h : Completes computation value top)
    (hnext : Completes (next value) result top) : Completes (computation >>= next) result top := by
  obtain rfl | ⟨rfl, hlimit⟩ := h
  · exact hnext
  · exact Or.inr ⟨rfl, hlimit⟩

/-- A count is formed. -/
theorem demand_completes {n : Nat} (h : n ≤ top) : Completes (demand (n < limit) .count) () top := by
  by_cases hroom : n < limit
  · exact Or.inl (if_pos hroom)
  · exact Or.inr ⟨if_neg hroom, Nat.le_trans (Nat.not_lt.mp hroom) h⟩

end Completes

end Chip8.Checked
