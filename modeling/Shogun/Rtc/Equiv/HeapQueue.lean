import Shogun.Memory.Equiv.ClientDecide
import Shogun.Rtc.Equiv.HeapRun

/-!
# A list in the heap

Where `HeapRun` follows the timers from their initialisation, this starts from any list that is in
the heap: `Queue c ps` says that the entries of the list are at `ps`, each in a block of its own.
`Queue.refines` names them, and what is known of the abstract timers applies.
-/

namespace Shogun.Rtc

open Memory Memory.HeapState LinkedList LinkedList.Links

namespace HeapTimers

/-- The entries of the list are at `ps`.  They, the list and the clock are blocks in use, no two of
them the same, and no two entries have the same number. -/
structure Queue (c : HeapTimers) (ps : List UInt32) : Prop where
  sound : c.memory.Sound
  clock : c.monotonicTime ≠ 0 → c.memory.Owns c.monotonicTime 4
  list : c.memory.Owns c.wakeUpList 8
  entry : ∀ p ∈ ps, c.memory.Owns p 16
  holds : c.links.Holds ps
  distinct : (c.monotonicTime :: c.wakeUpList :: ps).Nodup
  numbers : (ps.map c.entryOf).Nodup
  lt_added : ∀ p ∈ ps, c.entryOf p < c.added

/-- The entry of `ps` that has the number `e`. -/
def addrOf (c : HeapTimers) (ps : List UInt32) (e : ℕ) : UInt32 :=
  (ps.find? fun p => c.entryOf p = e).getD 0

/-- The abstract timers whose entries are at `ps`. -/
def toTimers (c : HeapTimers) (ps : List UInt32) : TimerState where
  hasMonotonicTime := c.monotonicTime != 0
  tickCount := c.field c.monotonicTime 0
  hasWakeUpList := true
  entries := (ptr? (c.field c.wakeUpList 0)).map c.entryOf
  entryCount := c.field c.wakeUpList 4
  nodes e := ⟨c.wakeUpAt (c.addrOf ps e), (ptr? (c.field (c.addrOf ps e) 12)).map c.entryOf⟩
  top := c.added
  fired := c.fired
  freed := c.freed

namespace Queue

variable {c : HeapTimers} {ps : List UInt32} {p : UInt32}

theorem addrOf_entryOf (h : Queue c ps) (hp : p ∈ ps) : c.addrOf ps (c.entryOf p) = p := by
  have hfind : ∃ q, ps.find? (fun q => c.entryOf q = c.entryOf p) = some q :=
    Option.isSome_iff_exists.mp (List.find?_isSome.mpr ⟨p, hp, by simp⟩)
  obtain ⟨q, hq⟩ := hfind
  have hsame : c.entryOf q = c.entryOf p := by simpa using List.find?_some hq
  rw [addrOf, hq]
  exact List.inj_on_of_nodup_map h.numbers (List.mem_of_find?_eq_some hq) hp hsame

theorem nodes_entryOf (h : Queue c ps) (hp : p ∈ ps) :
    (c.toTimers ps).nodes (c.entryOf p)
      = ⟨c.wakeUpAt p, (ptr? (c.field p 12)).map c.entryOf⟩ := by
  rw [toTimers]
  dsimp only
  rw [h.addrOf_entryOf hp]

/-- A pointer to an entry of the list, or `NULL`. -/
theorem ptrOf_map (h : Queue c ps) {w : UInt32} (hw : ∀ q, ptr? w = some q → q ∈ ps) :
    ptrOf (c.addrOf ps) ((ptr? w).map c.entryOf) = w := by
  by_cases hnull : w = 0
  · rw [hnull]
    rfl
  · have hsome := ptr?_of_ne hnull
    rw [hsome]
    exact h.addrOf_entryOf (hw w hsome)

theorem monotonicTime_ne (h : Queue c ps) :
    c.monotonicTime ≠ c.wakeUpList ∧ c.monotonicTime ∉ ps ∧ c.wakeUpList ∉ ps := by
  have hd := h.distinct
  simp only [List.nodup_cons, List.mem_cons, not_or] at hd
  exact ⟨hd.1.1, hd.1.2, hd.2.1⟩

/-- The heap holds the abstract timers. -/
theorem refines (h : Queue c ps) :
    Refines [] (c.addrOf ps) {e | e ∈ ps.map c.entryOf} c (c.toTimers ps) := by
  obtain ⟨hne, hclock, hlist⟩ := h.monotonicTime_ne
  have hin : ∀ {Q : ℕ → Prop}, (∀ p ∈ ps, Q (c.entryOf p)) →
      ∀ e ∈ {e | e ∈ ps.map c.entryOf}, Q e := fun hQ => List.forall_mem_map.mpr hQ
  constructor
  case sound => exact h.sound
  case clock => exact fun hnull => Record.of_owns 1 (h.clock hnull)
  case list =>
    have hrec := Record.of_owns 2 h.list
    have hhead : ptrOf (c.addrOf ps) (c.toTimers ps).entries = c.field c.wakeUpList 0 :=
      h.ptrOf_map fun q hq => h.holds.head_mem hq
    rw [hhead]
    exact hrec
  case entry =>
    refine hin fun p hp => ?_
    have hrec := Record.of_owns 4 (h.entry p hp)
    have hnext : ptrOf (c.addrOf ps) ((ptr? (c.field p 12)).map c.entryOf) = c.field p 12 :=
      h.ptrOf_map fun q hq => h.holds.next_mem hp hq
    rw [h.nodes_entryOf hp, h.addrOf_entryOf hp, WakeUpEntry.words, hnext]
    exact hrec
  case clock_ne => exact hne
  case entry_ne =>
    refine hin fun p hp => ?_
    rw [h.addrOf_entryOf hp]
    exact ⟨fun heq => hclock (heq ▸ hp), fun heq => hlist (heq ▸ hp)⟩
  case entryOf =>
    refine hin fun p hp => ?_
    rw [h.addrOf_entryOf hp]
  case lt_top => exact hin h.lt_added
  case entries_lt =>
    intro d hd
    obtain ⟨p, hp, rfl⟩ := Option.map_eq_some_iff.mp hd
    exact h.lt_added p (h.holds.head_mem hp)
  case next_lt =>
    -- `next` of a queued entry is `NULL` or a queued entry
    refine hin fun p hp d hd => ?_
    obtain ⟨q, hq, rfl⟩ := Option.map_eq_some_iff.mp hd
    rw [h.addrOf_entryOf hp] at hq
    exact h.lt_added q (h.holds.next_mem hp hq)
  all_goals first | rfl | simp

theorem queue (h : Queue c ps) : (c.toTimers ps).Queue (ps.map c.entryOf) where
  hasWakeUpList := rfl
  holds := by
    refine Chain.map h.holds fun p hp => ?_
    show (ptr? (c.field (c.addrOf ps (c.entryOf p)) 12)).map c.entryOf = _
    rw [h.addrOf_entryOf hp]
    rfl
  lt_top := List.forall_mem_map.mpr h.lt_added

end Queue

/-! ### Concrete lists -/

section Decidable

variable {c : HeapTimers}

instance ClearAdds.decidable : ∀ (c : HeapTimers) (calls : List WakeUp),
    Decidable (c.ClearAdds calls)
  | _, [] => isTrue trivial
  | c, call :: calls =>
    have : DecidablePred fun c' : HeapTimers => c'.ClearAdds calls :=
      fun c' => ClearAdds.decidable c' calls
    inferInstanceAs
      (Decidable (c.memory.Clear 16 ∧ ∀ c' ∈ c.wakeUpListAdd call, c'.ClearAdds calls))

instance (rearm : ℕ → List WakeUp) (tick current : UInt32) :
    Decidable (c.ClearVisit rearm tick current) :=
  inferInstanceAs (Decidable (c.field current 0 ≤ tick → c.field current 4 ≠ 0 →
    (c.fire tick current).ClearAdds (rearm (c.entryOf current))))

instance ClearLoop.decidable (rearm : ℕ → List WakeUp) (tick : UInt32) :
    ∀ (fuel : ℕ) (c : HeapTimers) (l : CheckPtrs), Decidable (ClearLoop rearm tick fuel c l)
  | 0, _, _ => isTrue trivial
  | fuel + 1, c, l =>
    have : DecidablePred fun r : HeapTimers × CheckPtrs => ClearLoop rearm tick fuel r.1 r.2 :=
      fun r => ClearLoop.decidable rearm tick fuel r.1 r.2
    decidable_of_iff (l.current ≠ 0 → c.ClearVisit rearm tick l.current ∧
        ∀ r ∈ c.visitEntry rearm tick l, ClearLoop rearm tick fuel r.1 r.2)
      (imp_congr_right fun _ => and_congr_right fun _ =>
        ⟨fun h c' l' hr => h (c', l') hr, fun h r hr => h r.1 r.2 hr⟩)

instance (rearm : ℕ → List WakeUp) : Decidable (c.ClearCheck rearm) :=
  inferInstanceAs (Decidable (c.wakeUpList ≠ 0 →
    ClearLoop rearm c.monotonicTimeGetTicksGlobal (2 ^ 32) c
      ⟨c.field c.wakeUpList 0, c.wakeUpList⟩))

instance (ps : List UInt32) : Decidable (c.links.Holds ps) := Chain.decidable ..

instance (ps : List UInt32) : Decidable (Queue c ps) :=
  decidable_of_iff (c.memory.Sound ∧ (c.monotonicTime ≠ 0 → c.memory.Owns c.monotonicTime 4)
      ∧ c.memory.Owns c.wakeUpList 8 ∧ (∀ p ∈ ps, c.memory.Owns p 16) ∧ c.links.Holds ps
      ∧ (c.monotonicTime :: c.wakeUpList :: ps).Nodup ∧ (ps.map c.entryOf).Nodup
      ∧ ∀ p ∈ ps, c.entryOf p < c.added)
    ⟨fun ⟨h1, h2, h3, h4, h5, h6, h7, h8⟩ => ⟨h1, h2, h3, h4, h5, h6, h7, h8⟩,
      fun h => ⟨h.sound, h.clock, h.list, h.entry, h.holds, h.distinct, h.numbers, h.lt_added⟩⟩

end Decidable

/-- The timers with the entries `calls` in an otherwise empty heap, the latest first. -/
def withEntries (calls : List WakeUp) : HeapTimers :=
  ((init emptyMemory).bind (·.addAll calls)).getD (boot emptyMemory)

end HeapTimers

end Shogun.Rtc
