import Chip8.Proofs.Core.Flow
import Mathlib.Data.Nat.Count

namespace Chip8.Core

/-- A run of `n` ticks that all end well. Tick `k` takes the core from `s k` to `s (k + 1)`. -/
def RunsWell (s : Nat → Core) (n : Nat) : Prop :=
  ∀ k < n, ∃ roll, (s k).tick roll = (s (k + 1), .ok ())

variable {s : Nat → Core} {n i j k : Nat}

theorem RunsWell.flows (hrun : RunsWell s n) (hk : k < n) : (s k).Flows (s (k + 1)) := by
  obtain ⟨roll, htick⟩ := hrun k hk
  have hflows := flows_of_tick_ok (congrArg Prod.snd htick)
  rw [htick] at hflows
  exact hflows.2

/-- There are never more open calls than slots. -/
theorem length_openCalls_le (c : Core) : c.openCalls.length ≤ 12 := by
  rw [openCalls, CallStack.length_toList]
  exact c.cpu.stack.depth_le

/-- Every call opens one more, every return closes one, and nothing else does either. -/
theorem length_openCalls_of_runsWell (hrun : RunsWell s n) (hk : k ≤ n) :
    (s k).openCalls.length + Nat.count (fun i => (s i).Returns) k =
      (s 0).openCalls.length + Nat.count (fun i => (s i).Calls) k := by
  induction k with
  | zero => simp
  | succ k ih =>
    have hearlier := ih (Nat.le_of_succ_le hk)
    rw [Nat.count_succ, Nat.count_succ]
    cases hrun.flows hk with
    | call hcalls hreturns _ _ hopen =>
      rw [if_pos hcalls, if_neg hreturns, hopen, List.length_append, List.length_singleton]
      omega
    | ret hcalls hreturns hopen =>
      have hlength := congrArg List.length hopen
      rw [List.length_append, List.length_singleton] at hlength
      rw [if_neg hcalls, if_pos hreturns]
      omega
    | level hcalls hreturns hopen _ =>
      rw [if_neg hcalls, if_neg hreturns, hopen]
      omega

/-- As long as the depth of a call is not reached again, its return address and those below it stay
where they are. Only a return takes an address off, and never one of these: it would have reached the
depth. -/
theorem prefix_openCalls_of_runsWell (hrun : RunsWell s n) {base : List Word}
    (hopen : base <+: (s i).openCalls)
    (hdeeper : ∀ m, i < m → m ≤ j → base.length ≤ (s m).openCalls.length) (hij : i ≤ j)
    (hj : j ≤ n) : base <+: (s j).openCalls := by
  induction j, hij using Nat.le_induction with
  | base => exact hopen
  | succ j hij ih =>
    have hkept := ih (fun m hm hle => hdeeper m hm (Nat.le_succ_of_le hle)) (Nat.le_of_succ_le hj)
    cases hrun.flows hj with
    | call _ _ _ _ hnext =>
      rw [hnext]
      exact hkept.trans (List.prefix_append _ _)
    | ret _ _ hnext =>
      have hlonger : (s (j + 1)).openCalls <+: (s j).openCalls := ⟨_, hnext.symm⟩
      have hlength := hdeeper (j + 1) (Nat.lt_succ_of_le hij) (Nat.le_refl _)
      exact List.prefix_of_prefix_length_le hkept hlonger hlength
    | level _ _ hnext _ =>
      rw [hnext]
      exact hkept

/-- Within a call the depth stays above that of its start until it is reached again, since no tick
closes more than one call. -/
theorem lt_length_openCalls_of_runsWell (hrun : RunsWell s n)
    (hopen : (s i).openCalls.length < (s (i + 1)).openCalls.length)
    (hnot : ∀ m, i < m → m < j → (s (m + 1)).openCalls.length ≠ (s i).openCalls.length)
    (hij : i < j) (hj : j ≤ n) : (s i).openCalls.length < (s j).openCalls.length := by
  induction j, hij using Nat.le_induction with
  | base => exact hopen
  | succ j hij ih =>
    have hdeep := ih (fun m hm hlt => hnot m hm (Nat.lt_succ_of_lt hlt)) (Nat.le_of_succ_le hj)
    have hpassed := hnot j hij (Nat.lt_succ_self j)
    cases hrun.flows hj with
    | call _ _ _ _ hnext =>
      rw [hnext, List.length_append, List.length_singleton]
      omega
    | ret _ _ hnext =>
      have hlength := congrArg List.length hnext
      rw [List.length_append, List.length_singleton] at hlength
      omega
    | level _ _ hnext _ =>
      rw [hnext]
      exact hdeep

/-- The tick that brings the depth back to where a call was made is a return to behind that call. -/
theorem returns_of_reached (hrun : RunsWell s n) (hij : i < j) (hj : j < n) (hcalls : (s i).Calls)
    (hreached : (s (j + 1)).openCalls.length = (s i).openCalls.length)
    (hnot : ∀ m, i < m → m < j → (s (m + 1)).openCalls.length ≠ (s i).openCalls.length) :
    (s j).Returns ∧ (s (j + 1)).cpu.pc.toNat = (s i).cpu.pc.toNat + 2 ∧
      (s (j + 1)).openCalls = (s i).openCalls := by
  cases hrun.flows (Nat.lt_trans hij hj) with
  | ret hother _ _ => exact absurd hcalls hother
  | level hother _ _ _ => exact absurd hcalls hother
  | @call _ _ _ addr haddr hopen =>
    have hdeeper (m : Nat) (hm : i < m) (hle : m ≤ j) :
        (s i).openCalls.length < (s m).openCalls.length := by
      refine lt_length_openCalls_of_runsWell hrun ?_ ?_ hm (Nat.le_trans hle (Nat.le_of_lt hj))
      · rw [hopen, List.length_append, List.length_singleton]
        exact Nat.lt_succ_self _
      · exact fun k hk hlt => hnot k hk (Nat.lt_of_lt_of_le hlt hle)
    have hkept : (s i).openCalls ++ [addr] <+: (s j).openCalls := by
      apply prefix_openCalls_of_runsWell hrun (i := i + 1) _ _ hij (Nat.le_of_lt hj)
      · rw [hopen]
      · intro m hm hle
        rw [List.length_append, List.length_singleton]
        exact hdeeper m (Nat.lt_of_succ_lt hm) hle
    have hdeep := hdeeper j hij (Nat.le_refl j)
    cases hrun.flows hj with
    | call _ _ _ _ hnext =>
      rw [hnext, List.length_append, List.length_singleton] at hreached
      omega
    | level _ _ hnext _ =>
      rw [hnext] at hreached
      omega
    | ret _ hreturns hnext =>
      have hlength : ((s i).openCalls ++ [addr]).length = (s j).openCalls.length := by
        rw [hnext, List.length_append, List.length_append, hreached]
        rfl
      have hsame := (hkept.eq_of_length hlength).trans hnext
      obtain ⟨hrest, hlast⟩ := List.append_inj' hsame rfl
      have hpc : addr = (s (j + 1)).cpu.pc := List.singleton_inj.mp hlast
      exact ⟨hreturns, hpc ▸ haddr, hrest.symm⟩

/-- Over any run of ticks that end well the number of open calls is that at first, plus the calls and
minus the returns that were executed, and twelve at most. The first tick after a call that brings this
number back is a return to behind the call, and the open calls are then the same as before it. -/
theorem calls_match_returns (s : Nat → Core) (n : Nat) (hrun : RunsWell s n) :
    (∀ k ≤ n, (s k).openCalls.length + Nat.count (fun i => (s i).Returns) k =
        (s 0).openCalls.length + Nat.count (fun i => (s i).Calls) k ∧
      (s k).openCalls.length ≤ 12) ∧
    ∀ i j, i < j → j < n → (s i).Calls →
      (s (j + 1)).openCalls.length = (s i).openCalls.length →
      (∀ m, i < m → m < j → (s (m + 1)).openCalls.length ≠ (s i).openCalls.length) →
      (s j).Returns ∧ (s (j + 1)).cpu.pc.toNat = (s i).cpu.pc.toNat + 2 ∧
        (s (j + 1)).openCalls = (s i).openCalls :=
  ⟨fun k hk => ⟨length_openCalls_of_runsWell hrun hk, length_openCalls_le (s k)⟩,
    fun _ _ hij hj hcalls hreached hnot => returns_of_reached hrun hij hj hcalls hreached hnot⟩

/-- A program that calls `204`, which calls `208`. Both return at once. -/
def nestedCalls : Nat → Core
  | 0 => .loaded (.initial false) [0x22, 0x04, 0x00, 0x00, 0x22, 0x08, 0x00, 0xEE, 0x00, 0xEE]
  | k + 1 => ((nestedCalls k).tick 0).1

/-- The outer call ends with the second of the two returns. -/
theorem calls_match_returns_nested :
    RunsWell nestedCalls 4 ∧ (nestedCalls 0).Calls ∧ (nestedCalls 1).Calls ∧
      (nestedCalls 3).Returns ∧ (nestedCalls 4).cpu.pc.toNat = 0x202 ∧
      (nestedCalls 4).openCalls = [] := by
  -- One evaluation for all that has to be known of the run.
  obtain ⟨hok, hcalls, hpassed, hreached, hstart, hbegin⟩ :
      (∀ k < 4, ((nestedCalls k).tick 0).2 = .ok ()) ∧
        ((nestedCalls 0).Calls ∧ (nestedCalls 1).Calls) ∧
        (∀ m < 3, 0 < m →
          (nestedCalls (m + 1)).openCalls.length ≠ (nestedCalls 0).openCalls.length) ∧
        (nestedCalls 4).openCalls.length = (nestedCalls 0).openCalls.length ∧
        (nestedCalls 0).openCalls = [] ∧ (nestedCalls 0).cpu.pc.toNat = 0x200 := by
    decide +kernel
  have hrun : RunsWell nestedCalls 4 := fun k hk => ⟨0, Prod.ext rfl (hok k hk)⟩
  obtain ⟨_, hmatch⟩ := calls_match_returns nestedCalls 4 hrun
  obtain ⟨hreturns, hpc, hopen⟩ := hmatch 0 3 (by decide) (by decide) hcalls.1 hreached
    fun m hm hlt => hpassed m hlt hm
  simp only [hbegin, hstart, Nat.reduceAdd] at hpc hopen
  exact ⟨hrun, hcalls.1, hcalls.2, hreturns, hpc, hopen⟩

end Chip8.Core
