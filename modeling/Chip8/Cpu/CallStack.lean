import Chip8.Word

namespace Chip8

/-- The return addresses of the open calls, in twelve slots. A return leaves its address behind in a
slot that the next call overwrites; such dead slots are part of the state, but no instruction can
tell what they hold. -/
structure CallStack where
  slots : Vector Word 12
  depth : Nat
  depth_le : depth ≤ 12
deriving DecidableEq

namespace CallStack

def capacity : Nat := 12

def empty : CallStack :=
  ⟨Vector.replicate 12 0, 0, by decide⟩

/-- The return addresses of the open calls, oldest first. -/
def toList (s : CallStack) : List Word :=
  (s.slots.extract 0 s.depth).toList

/-- Opens a call, unless every slot is taken. -/
def push? (s : CallStack) (addr : Word) : Option CallStack :=
  if h : s.depth < 12 then some ⟨s.slots.set s.depth addr, s.depth + 1, h⟩ else none

/-- Closes the latest call and gives its return address, unless none is open. -/
def pop? (s : CallStack) : Option (Word × CallStack) :=
  if h : 0 < s.depth then
    have hle := s.depth_le
    some (s.slots[s.depth - 1], ⟨s.slots, s.depth - 1, by omega⟩)
  else none

@[simp] theorem toList_empty : empty.toList = [] := by
  simp [toList, empty]

@[simp] theorem length_toList (s : CallStack) : s.toList.length = s.depth := by
  have hle := s.depth_le
  simp only [toList, Vector.length_toList]
  omega

/-- The open calls are the leading slots; what lies behind them does not matter. -/
theorem getElem?_toList (s : CallStack) (k : Nat) :
    s.toList[k]? = if k < s.depth then s.slots[k]? else none := by
  have hle := s.depth_le
  rw [toList, Vector.getElem?_toList, Vector.getElem?_extract]
  by_cases hk : k < s.depth
  · rw [if_pos (by omega), if_pos hk, Nat.zero_add]
  · rw [if_neg (by omega), if_neg hk]

/-- A call is refused exactly if all slots are taken. -/
theorem push?_eq_none_iff (s : CallStack) (addr : Word) :
    s.push? addr = none ↔ s.depth = capacity := by
  have hle := s.depth_le
  unfold push? capacity
  split
  · simp only [reduceCtorEq, false_iff]
    omega
  · simp only [true_iff]
    omega

/-- A call adds its return address behind those of the calls that are open already. -/
theorem toList_of_push? {s t : CallStack} {addr : Word} (hpush : s.push? addr = some t) :
    t.toList = s.toList ++ [addr] := by
  unfold push? at hpush
  split at hpush
  · next hroom =>
    cases hpush
    apply List.ext_getElem?
    intro k
    rw [getElem?_toList, List.getElem?_append, length_toList, getElem?_toList]
    dsimp only
    by_cases hk : k < s.depth
    · rw [if_pos (by omega), if_pos hk, if_pos hk, Vector.getElem?_set_ne _ (by omega)]
    · by_cases hlast : k = s.depth
      · subst hlast
        simp
      · have hbeyond : k - s.depth ≠ 0 := by omega
        rw [if_neg (by omega), if_neg hk, List.getElem?_singleton, if_neg hbeyond]
  · cases hpush

/-- A return is refused exactly if no call is open. -/
theorem pop?_eq_none_iff (s : CallStack) : s.pop? = none ↔ s.toList = [] := by
  rw [← List.length_eq_zero_iff, length_toList]
  unfold pop?
  split
  · simp only [reduceCtorEq, false_iff]
    omega
  · simp only [true_iff]
    omega

/-- A return takes off the address of the latest call and no other. -/
theorem toList_of_pop? {s t : CallStack} {addr : Word} (hpop : s.pop? = some (addr, t)) :
    s.toList = t.toList ++ [addr] := by
  have hle := s.depth_le
  unfold pop? at hpop
  split at hpop
  · next hopen =>
    cases hpop
    apply List.ext_getElem?
    intro k
    rw [getElem?_toList, List.getElem?_append, length_toList, getElem?_toList]
    dsimp only
    by_cases hk : k < s.depth - 1
    · rw [if_pos (by omega), if_pos hk, if_pos hk]
    · by_cases hlast : k = s.depth - 1
      · subst hlast
        rw [if_pos (by omega), if_neg hk, Nat.sub_self, List.getElem?_singleton, if_pos rfl]
        exact Vector.getElem?_eq_getElem (by omega)
      · have hbeyond : k - (s.depth - 1) ≠ 0 := by omega
        rw [if_neg (by omega), if_neg hk, List.getElem?_singleton, if_neg hbeyond]
  · cases hpop

/-- Whether a call has room, and which calls are open after it, depends on the open calls alone. -/
theorem exists_push?_of_toList {s t s' : CallStack} {addr : Word} (hlive : t.toList = s.toList)
    (hpush : s.push? addr = some s') : ∃ t', t.push? addr = some t' ∧ t'.toList = s'.toList := by
  have hdepth : t.depth = s.depth := by rw [← length_toList, hlive, length_toList]
  cases htake : t.push? addr with
  | none =>
    have hfull : s.push? addr = none := by
      rw [push?_eq_none_iff, ← hdepth]
      exact (push?_eq_none_iff t addr).mp htake
    rw [hpush] at hfull
    cases hfull
  | some t' =>
    refine ⟨t', rfl, ?_⟩
    rw [toList_of_push? htake, hlive, toList_of_push? hpush]

/-- Where a return goes, and which calls are open after it, depends on the open calls alone. -/
theorem exists_pop?_of_toList {s t s' : CallStack} {addr : Word} (hlive : t.toList = s.toList)
    (hpop : s.pop? = some (addr, s')) :
    ∃ t', t.pop? = some (addr, t') ∧ t'.toList = s'.toList := by
  cases htake : t.pop? with
  | none =>
    have hempty : s.pop? = none := by
      rw [pop?_eq_none_iff, ← hlive]
      exact (pop?_eq_none_iff t).mp htake
    rw [hpop] at hempty
    cases hempty
  | some top =>
    obtain ⟨addr', t'⟩ := top
    have hsame : t'.toList ++ [addr'] = s'.toList ++ [addr] := by
      rw [← toList_of_pop? htake, hlive, toList_of_pop? hpop]
    obtain ⟨hrest, hlast⟩ := List.append_inj' hsame rfl
    obtain rfl : addr' = addr := List.singleton_inj.mp hlast
    exact ⟨t', rfl, hrest⟩

/-- The slots behind the new call are not written to. -/
theorem slots_of_push? {s t : CallStack} {addr : Word} (hpush : s.push? addr = some t) {k : Nat}
    (hk : t.depth ≤ k) : t.slots[k]? = s.slots[k]? := by
  unfold push? at hpush
  split at hpush
  · next hroom =>
    cases hpush
    exact Vector.getElem?_set_ne hroom (Nat.ne_of_lt hk)
  · cases hpush

/-- A return writes to no slot. -/
theorem slots_of_pop? {s t : CallStack} {addr : Word} (hpop : s.pop? = some (addr, t)) :
    t.slots = s.slots := by
  unfold pop? at hpop
  split at hpop <;> cases hpop
  rfl

/-- Stacks with the same open calls and the same dead slots are equal. -/
theorem ext_toList {s t : CallStack} (hlive : s.toList = t.toList)
    (hdead : ∀ k, t.depth ≤ k → s.slots[k]? = t.slots[k]?) : s = t := by
  have hdepth : s.depth = t.depth := by
    rw [← length_toList s, hlive, length_toList]
  have hslots : s.slots = t.slots := by
    apply Vector.ext
    intro k hk
    have hslot : s.slots[k]? = t.slots[k]? := by
      by_cases hopen : k < t.depth
      · have hlook := congrArg (·[k]?) hlive
        simpa only [getElem?_toList, hdepth, if_pos hopen] using hlook
      · exact hdead k (Nat.not_lt.mp hopen)
    rw [Vector.getElem?_eq_getElem hk, Vector.getElem?_eq_getElem hk] at hslot
    exact Option.some.inj hslot
  cases s
  cases t
  cases hdepth
  cases hslots
  rfl

end CallStack

end Chip8
