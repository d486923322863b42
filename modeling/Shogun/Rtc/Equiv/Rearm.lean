import Mathlib.Data.List.TakeWhile
import Shogun.Rtc.Equiv.HeapQueue

/-!
# Callbacks that arm the list again

A callback may call `wake_up_list_add` while the check that called it walks the list.  The new entry
goes to the head of the list, which the check may still hold a pointer to.

`keepsRearmed_iff`: when the blocks that callbacks get are clear, a check loses no entry exactly
when the entries that are due before the first one that is not add nothing.  Such an entry is
unlinked through `&wake_up_list->entries`, and the store overwrites the head that its own callback
has just pushed.
-/

namespace Shogun.Rtc

open Memory Memory.HeapState LinkedList.Links

/-- What the list `es'` after a check of `es` should be: it has every entry added in the check and
every entry that was not due, none that was executed, and `entry_count` is its length. -/
structure TimerState.KeepsRearmed (s : TimerState) (es : List ℕ) (s' : TimerState)
    (es' : List ℕ) : Prop where
  added : ∀ e, s.top ≤ e → e < s'.top → e ∈ es'
  waiting : ∀ e ∈ es, due s (monotonicTimeGetTicksGlobal s) e = false → e ∈ es'
  executed : ∀ e ∈ es, due s (monotonicTimeGetTicksGlobal s) e = true → e ∉ es'
  entryCount : s'.entryCount = UInt32.ofNat es'.length

section Rearm

variable {s s' : TimerState} {es : List ℕ} {rearm : ℕ → List AddCall}

/-- Only entries that callbacks add can be lost. -/
theorem keepsRearmed_iff_added (hq : s.Queue es) (hcount : s.entryCount = UInt32.ofNat es.length)
    (h : Checked s rearm (monotonicTimeGetTicksGlobal s) es s') :
    s.KeepsRearmed es s' (checkQueue s rearm (monotonicTimeGetTicksGlobal s) es)
      ↔ ∀ e ∈ es.takeWhile (due s (monotonicTimeGetTicksGlobal s)),
          addsOf s rearm (monotonicTimeGetTicksGlobal s) e = 0 := by
  have hadded := pushed_mem_sweep_iff (due s (monotonicTimeGetTicksGlobal s))
    (addsOf s rearm (monotonicTimeGetTicksGlobal s)) hq.lt_top
  rw [← h.top] at hadded
  constructor
  · intro hkeeps
    exact hadded.mp hkeeps.added
  · intro hzero
    constructor
    · exact hadded.mpr hzero
    · -- an entry that was not due
      intro e he hdue
      exact (mem_sweep_iff he (hq.lt_top e he)).mpr hdue
    · -- an entry that was executed
      intro e he hdue hin
      rw [(mem_sweep_iff he (hq.lt_top e he)).mp hin] at hdue
      exact Bool.noConfusion hdue
    · exact counter_eq_length_sweep hzero hcount h.entryCount

/-- An entry that is due adds what its callback adds. -/
theorem addsOf_eq_zero_iff {rearm : ℕ → List WakeUp} {tick : UInt32} {e : ℕ}
    (hdue : due s tick e = true) :
    addsOf s (allocating rearm) tick e = 0 ↔ (s.nodes e).callback ≠ 0 → rearm e = [] := by
  unfold addsOf addCount rearmed firing
  by_cases hnull : (s.nodes e).callback = 0
  · simp [hnull]
  · have hfires : due s tick e = true ∧ (s.nodes e).callback ≠ 0 := ⟨hdue, hnull⟩
    have hcalls : ∀ call ∈ allocating rearm e, call.allocated = true :=
      List.forall_mem_map.mpr fun _ _ => rfl
    simp only [if_pos hfires, Option.isSome_some, if_true]
    rw [List.countP_eq_length.mpr hcalls, List.length_eq_zero_iff, allocating, List.map_eq_nil_iff]
    exact ⟨fun h _ => h, fun h => h hnull⟩

end Rearm

/-! ### The list in the heap -/

namespace HeapTimers

/-- The entry at `p` is due now. -/
def due (c : HeapTimers) (p : UInt32) : Bool := c.field p 0 ≤ c.monotonicTimeGetTicksGlobal

/-- What the list `ps'` after a check of `ps` should be: it has every entry added in the check and
every entry that was not due, none that was executed, and `entry_count` is its length. -/
structure KeepsRearmed (c : HeapTimers) (ps : List UInt32) (c' : HeapTimers)
    (ps' : List UInt32) : Prop where
  added : ∀ e, c.added ≤ e → e < c'.added → e ∈ ps'.map c'.entryOf
  waiting : ∀ p ∈ ps, c.due p = false → c.entryOf p ∈ ps'.map c'.entryOf
  executed : ∀ p ∈ ps, c.due p = true → c.entryOf p ∉ ps'.map c'.entryOf
  entryCount : c'.field c'.wakeUpList 4 = UInt32.ofNat ps'.length

section Rearm

variable {c c' : HeapTimers} {ps : List UInt32} {p : UInt32}

theorem Queue.due_eq (h : Queue c ps) (hp : p ∈ ps) :
    Rtc.due (c.toTimers ps) (Rtc.monotonicTimeGetTicksGlobal (c.toTimers ps)) (c.entryOf p)
      = c.due p := by
  rw [Rtc.due, h.nodes_entryOf hp, ← h.refines.getTicks]
  rfl

/-- The heap keeps what the abstract list keeps. -/
theorem keepsRearmed_iff_toTimers (h : Queue c ps) {ps' : List UInt32} {s' : TimerState}
    {es' : List ℕ} (hnumbers : ps'.map c'.entryOf = es') (hadded : c'.added = s'.top)
    (hcount : c'.field c'.wakeUpList 4 = s'.entryCount) :
    c.KeepsRearmed ps c' ps' ↔ (c.toTimers ps).KeepsRearmed (ps.map c.entryOf) s' es' := by
  have hlen : ps'.length = es'.length := by rw [← hnumbers, List.length_map]
  constructor
  · rintro ⟨h1, h2, h3, h4⟩
    rw [hnumbers] at h1 h2 h3
    refine ⟨fun e hle hlt => h1 e hle (hadded ▸ hlt), ?_, ?_, by rw [← hcount, h4, hlen]⟩
    · refine List.forall_mem_map.mpr fun p hp => ?_
      rw [h.due_eq hp]
      exact h2 p hp
    · refine List.forall_mem_map.mpr fun p hp => ?_
      rw [h.due_eq hp]
      exact h3 p hp
  · rintro ⟨h1, h2, h3, h4⟩
    rw [List.forall_mem_map] at h2 h3
    refine ⟨?_, ?_, ?_, by rw [hcount, h4, hlen]⟩ <;> rw [hnumbers]
    · exact fun e hle hlt => h1 e hle (hadded ▸ hlt)
    · exact fun p hp hdue => h2 p hp ((h.due_eq hp).trans hdue)
    · exact fun p hp hdue => h3 p hp ((h.due_eq hp).trans hdue)

end Rearm

end HeapTimers

/-- **When the blocks that callbacks get are clear, a check keeps what they add if and only if no
callback that runs before the first entry not due adds anything.** -/
theorem keepsRearmed_iff {c : HeapTimers} {ps : List UInt32} (rearm : ℕ → List WakeUp)
    (hq : c.Queue ps) (hcount : c.field c.wakeUpList 4 = UInt32.ofNat ps.length)
    (hclear : c.ClearCheck rearm) :
    ∃ c' ps', c.wakeUpListCheckAndExecute rearm = some c' ∧ c'.links.Holds ps'
      ∧ (c.KeepsRearmed ps c' ps'
        ↔ ∀ p ∈ ps.takeWhile c.due, c.field p 4 ≠ 0 → rearm (c.entryOf p) = []) := by
  obtain ⟨c', addr', T', s', hcode, habs, hv⟩ := hq.refines.check hq.queue (fun e he => he) hclear
  obtain ⟨s'', habs', hchecked⟩ := wakeUpListCheckAndExecute_spec hq.queue (allocating rearm)
  obtain rfl := Option.some.inj (habs.symm.trans habs')
  have hT' : ∀ e ∈ checkQueue (c.toTimers ps) (allocating rearm)
      (monotonicTimeGetTicksGlobal (c.toTimers ps)) (ps.map c.entryOf), e ∈ T' := by
    intro e he
    rcases of_mem_sweep he with ⟨hle, hlt⟩ | ⟨hmem, hstays⟩
    · exact hv.new e hle (hchecked.top ▸ hlt)
    · refine hv.old ⟨hmem, ?_⟩
      rintro ⟨-, hdue⟩
      rw [hstays] at hdue
      exact Bool.noConfusion hdue
  obtain ⟨hholds, hnumbers⟩ := hv.refines.holds hT' hchecked.holds
  refine ⟨c', _, hcode, hholds, ?_⟩
  rw [HeapTimers.keepsRearmed_iff_toTimers hq hnumbers hv.refines.added hv.refines.count,
    keepsRearmed_iff_added hq.queue (by rw [List.length_map]; exact hcount) hchecked,
    takeWhile_map_of_eq fun p hp => hq.due_eq hp, List.forall_mem_map]
  apply forall₂_congr
  intro p hp
  have hmem := (List.takeWhile_prefix _).subset hp
  have hdue := List.mem_takeWhile_imp hp
  rw [addsOf_eq_zero_iff ((hq.due_eq hmem).trans hdue), hq.nodes_entryOf hmem]
  rfl

/-- Behind an entry that is not due a callback may add. -/
theorem keepsRearmed_iff_behind :
    ∃ c' ps', (HeapTimers.withEntries [⟨0, 7, 0⟩, ⟨9, 0, 0⟩]).wakeUpListCheckAndExecute
        (fun _ => [⟨5, 7, 0⟩]) = some c' ∧ c'.links.Holds ps'
      ∧ (HeapTimers.withEntries [⟨0, 7, 0⟩, ⟨9, 0, 0⟩]).KeepsRearmed [5032, 5056] c' ps' := by
  have hq : (HeapTimers.withEntries [⟨0, 7, 0⟩, ⟨9, 0, 0⟩]).Queue [5032, 5056] := by decide +kernel
  obtain ⟨c', ps', hcode, hholds, hiff⟩ :=
    keepsRearmed_iff (fun _ => [⟨5, 7, 0⟩]) hq (by decide +kernel) (by decide +kernel)
  exact ⟨c', ps', hcode, hholds, hiff.mpr (by decide +kernel)⟩

/-- The only entry is due, and its callback adds another: the list is empty after the check, with
`entry_count` at one.  The block that the callback gets is clear. -/
theorem not_keepsRearmed_oneEntry :
    (HeapTimers.withEntries [⟨0, 7, 0⟩]).Queue [5056]
      ∧ (HeapTimers.withEntries [⟨0, 7, 0⟩]).ClearCheck (fun _ => [⟨5, 7, 0⟩])
      ∧ ∃ c', (HeapTimers.withEntries [⟨0, 7, 0⟩]).wakeUpListCheckAndExecute
            (fun _ => [⟨5, 7, 0⟩]) = some c'
          ∧ c'.links.Holds [] ∧ c'.field c'.wakeUpList 4 = 1
          ∧ ¬ (HeapTimers.withEntries [⟨0, 7, 0⟩]).KeepsRearmed [5056] c' [] := by
  refine ⟨by decide +kernel, by decide +kernel, ?_⟩
  have hcode : ((HeapTimers.withEntries [⟨0, 7, 0⟩]).wakeUpListCheckAndExecute
      (fun _ => [⟨5, 7, 0⟩])).map (fun c => (decide (c.links.Holds []), c.field c.wakeUpList 4))
      = some (true, 1) := by
    decide +kernel
  obtain ⟨c', hcode, hend⟩ := Option.map_eq_some_iff.mp hcode
  obtain ⟨hholds, hcount⟩ := Prod.mk.inj hend
  refine ⟨c', hcode, of_decide_eq_true hholds, hcount, fun h => ?_⟩
  have hlen := h.entryCount
  rw [hcount] at hlen
  exact absurd hlen (by decide)

end Shogun.Rtc
