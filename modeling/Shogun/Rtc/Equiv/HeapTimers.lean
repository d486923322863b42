import Shogun.Memory.Equiv.Client
import Shogun.Rtc.Equiv.Check
import Shogun.Rtc.HeapTimers

/-!
# The wake-up list in the heap is the list of numbered entries

`Refines`: the heap holds what the abstract timers have, each entry that is tracked at an address of
its own.  The functions on the heap then do what the abstract ones do, as long as the blocks that
`malloc` hands out are clear.

* `Refines.add`, `Refines.addAll`: calls of `wake_up_list_add`.
* `Refines.visitEntry`: the body of the walk.
* `Refines.check`, `Refines.rtcTick`: a check of the list, and a tick.
-/

namespace Shogun.Rtc

open Memory Memory.HeapState LinkedList LinkedList.Links

/-- The pointer cells of the list. -/
def HeapTimers.links (c : HeapTimers) : Links UInt32 where
  head := ptr? (c.field c.wakeUpList 0)
  next p := ptr? (c.field p 12)

/-! ### The relation -/

/-- The words of an entry in the heap. -/
def WakeUpEntry.words (addr : ℕ → UInt32) (n : WakeUpEntry) : List UInt32 :=
  [n.wakeUpTick, n.callback, n.callbackData, ptrOf addr n.next]

/-- The heap of `c` holds the timers `s`: the tracked entries `T` are at the addresses `addr`.  The
blocks `F` belong to someone else. -/
structure Refines (F : List (UInt32 × List UInt32)) (addr : ℕ → UInt32) (T : Set ℕ)
    (c : HeapTimers) (s : TimerState) : Prop where
  sound : c.memory.Sound
  hasMonotonicTime : s.hasMonotonicTime = (c.monotonicTime != 0)
  hasWakeUpList : s.hasWakeUpList = true
  clock : c.monotonicTime ≠ 0 → Record c.memory c.monotonicTime [s.tickCount]
  list : Record c.memory c.wakeUpList [ptrOf addr s.entries, s.entryCount]
  entry : ∀ e ∈ T, Record c.memory (addr e) ((s.nodes e).words addr)
  frame : ∀ r ∈ F, Record c.memory r.1 r.2
  clock_ne : c.monotonicTime ≠ c.wakeUpList
  entry_ne : ∀ e ∈ T, addr e ≠ c.monotonicTime ∧ addr e ≠ c.wakeUpList
  frame_ne : ∀ r ∈ F, r.1 ≠ c.monotonicTime ∧ r.1 ≠ c.wakeUpList ∧ ∀ e ∈ T, r.1 ≠ addr e
  entryOf : ∀ e ∈ T, c.entryOf (addr e) = e
  lt_top : ∀ e ∈ T, e < s.top
  entries_lt : ∀ d, s.entries = some d → d < s.top
  next_lt : ∀ e ∈ T, ∀ d, (s.nodes e).next = some d → d < s.top
  added : c.added = s.top
  fired : c.fired = s.fired
  freed : c.freed = s.freed

namespace Refines

variable {F : List (UInt32 × List UInt32)} {addr : ℕ → UInt32} {T : Set ℕ} {c : HeapTimers}
  {s : TimerState} {e : ℕ} {m : HeapState}

/-! ### Reading -/

theorem wakeUpList_ne_zero (h : Refines F addr T c s) : c.wakeUpList ≠ 0 := by
  obtain ⟨segs, l⟩ := h.sound
  exact l.ne_zero h.list.owns.live

theorem addr_ne_zero (h : Refines F addr T c s) (he : e ∈ T) : addr e ≠ 0 := by
  obtain ⟨segs, l⟩ := h.sound
  exact l.ne_zero (h.entry e he).owns.live

theorem addr_inj (h : Refines F addr T c s) {d : ℕ} (he : e ∈ T) (hd : d ∈ T)
    (heq : addr e = addr d) : e = d := by
  rw [← h.entryOf e he, ← h.entryOf d hd, heq]

theorem getTicks (h : Refines F addr T c s) :
    c.monotonicTimeGetTicksGlobal = monotonicTimeGetTicksGlobal s := by
  rw [HeapTimers.monotonicTimeGetTicksGlobal, monotonicTimeGetTicksGlobal, h.hasMonotonicTime]
  by_cases hnull : c.monotonicTime = 0
  · simp [hnull]
  · rw [if_pos hnull, if_pos (by simpa using hnull)]
    exact (h.clock hnull).field (i := 0) rfl rfl

theorem head (h : Refines F addr T c s) : c.field c.wakeUpList 0 = ptrOf addr s.entries :=
  h.list.field (i := 0) rfl rfl

theorem count (h : Refines F addr T c s) : c.field c.wakeUpList 4 = s.entryCount :=
  h.list.field (i := 1) rfl rfl

theorem wakeUpTick (h : Refines F addr T c s) (he : e ∈ T) :
    c.field (addr e) 0 = (s.nodes e).wakeUpTick := (h.entry e he).field (i := 0) rfl rfl

theorem callback (h : Refines F addr T c s) (he : e ∈ T) :
    c.field (addr e) 4 = (s.nodes e).callback := (h.entry e he).field (i := 1) rfl rfl

theorem callbackData (h : Refines F addr T c s) (he : e ∈ T) :
    c.field (addr e) 8 = (s.nodes e).callbackData := (h.entry e he).field (i := 2) rfl rfl

theorem next (h : Refines F addr T c s) (he : e ∈ T) :
    c.field (addr e) 12 = ptrOf addr (s.nodes e).next := (h.entry e he).field (i := 3) rfl rfl

/-! ### Writing -/

variable {p : UInt32} {ws : List UInt32}

/-- What is elsewhere is not touched by a write to `p`. -/
theorem keep (h : Refines F addr T c s) {m : HeapState} (hw : Written c.memory p m)
    {q : UInt32} (hq : Record c.memory q ws) (hne : q ≠ p) : Record m q ws :=
  hq.keep h.sound (hw.keeps q hq.owns.live hne)

/-- A write to the clock. -/
theorem setClock (h : Refines F addr T c s) (hclock : c.monotonicTime ≠ 0) (v : UInt32) :
    Refines F addr T (c.setField c.monotonicTime 0 v) { s with tickCount := v } := by
  have hr := h.clock hclock
  have hw := h.sound.setField (v := v) hr.owns (k := 0) (Nat.le_refl 4)
  exact { h with
    sound := hw.sound
    clock := fun _ => hr.setField h.sound (i := 0) rfl (by simp) v
    list := h.keep hw h.list h.clock_ne.symm
    entry := fun e he => h.keep hw (h.entry e he) (h.entry_ne e he).1
    frame := fun r hmem => h.keep hw (h.frame r hmem) (h.frame_ne r hmem).1 }

/-- `wake_up_list->entries = x`. -/
theorem setHead (h : Refines F addr T c s) {x : Option ℕ} (hx : ∀ d, x = some d → d < s.top) :
    Refines F addr T (c.setField c.wakeUpList 0 (ptrOf addr x)) { s with entries := x } := by
  have hw := h.sound.setField (v := ptrOf addr x) h.list.owns (k := 0) (Nat.le_add_left 4 4)
  exact { h with
    sound := hw.sound
    clock := fun hne => h.keep hw (h.clock hne) h.clock_ne
    list := h.list.setField h.sound (i := 0) rfl (by simp) _
    entry := fun e he => h.keep hw (h.entry e he) (h.entry_ne e he).2
    frame := fun r hmem => h.keep hw (h.frame r hmem) (h.frame_ne r hmem).2.1
    entries_lt := hx }

/-- `wake_up_list->entry_count = k`. -/
theorem setCount (h : Refines F addr T c s) (k : UInt32) :
    Refines F addr T (c.setField c.wakeUpList 4 k) { s with entryCount := k } := by
  have hw := h.sound.setField (v := k) h.list.owns (k := 4) (Nat.le_refl 8)
  exact { h with
    sound := hw.sound
    clock := fun hne => h.keep hw (h.clock hne) h.clock_ne
    list := h.list.setField h.sound (i := 1) rfl (by simp) k
    entry := fun e he => h.keep hw (h.entry e he) (h.entry_ne e he).2
    frame := fun r hmem => h.keep hw (h.frame r hmem) (h.frame_ne r hmem).2.1 }

/-- `e->next = x`. -/
theorem setNext (h : Refines F addr T c s) (he : e ∈ T) {x : Option ℕ}
    (hx : ∀ d, x = some d → d < s.top) :
    Refines F addr T (c.setField (addr e) 12 (ptrOf addr x)) (s.setNext e x) := by
  have hr := h.entry e he
  have hw := h.sound.setField (v := ptrOf addr x) hr.owns (k := 12) (Nat.le_refl 16)
  refine { h with
    sound := hw.sound
    clock := fun hne => h.keep hw (h.clock hne) (h.entry_ne e he).1.symm
    list := h.keep hw h.list (h.entry_ne e he).2.symm
    entry := fun d hd => ?_
    frame := fun r hmem => h.keep hw (h.frame r hmem) ((h.frame_ne r hmem).2.2 e he)
    next_lt := fun d hd => ?_ }
  · show Record _ _ (WakeUpEntry.words addr (Function.update s.nodes e _ d))
    by_cases hde : d = e
    · rw [hde, Function.update_self]
      exact hr.setField h.sound (i := 3) rfl (Nat.lt_succ_self 3) _
    · rw [Function.update_of_ne hde]
      exact h.keep hw (h.entry d hd) fun heq => hde (h.addr_inj hd he heq)
  · show ∀ f, (Function.update s.nodes e _ d).next = some f → f < s.top
    by_cases hde : d = e
    · rw [hde, Function.update_self]
      exact hx
    · rw [Function.update_of_ne hde]
      exact h.next_lt d hd

/-- A write to a block of someone else. -/
theorem setFrame (h : Refines ((p, ws) :: F) addr T c s) (hne : ∀ r ∈ F, r.1 ≠ p) {k : UInt32}
    {i : ℕ} (hk : k.toNat = 4 * i) (hi : i < ws.length) (v : UInt32) :
    Refines ((p, ws.set i v) :: F) addr T (c.setField p k v) s := by
  have hr : Record c.memory p ws := h.frame _ List.mem_cons_self
  have hp := h.frame_ne _ List.mem_cons_self
  have hw : Written c.memory p (c.memory.setField p k v) :=
    h.sound.setField hr.owns (by omega)
  exact { h with
    sound := hw.sound
    clock := fun hnull => h.keep hw (h.clock hnull) hp.1.symm
    list := h.keep hw h.list hp.2.1.symm
    entry := fun e he => h.keep hw (h.entry e he) (hp.2.2 e he).symm
    frame := List.forall_mem_cons.mpr ⟨hr.setField h.sound hk hi v, fun r hmem =>
      h.keep hw (h.frame r (List.mem_cons_of_mem _ hmem)) (hne r hmem)⟩
    frame_ne := List.forall_mem_cons.mpr ⟨hp, fun r hmem =>
      h.frame_ne r (List.mem_cons_of_mem _ hmem)⟩ }

/-! ### Allocating and freeing -/

/-- A block for someone else. -/
theorem alloc (h : Refines F addr T c s) {size : UInt32} {n : ℕ} (hsize : size.toNat = 4 * (n + 1))
    (hlt : size.toNat < 2 ^ 31) (hc : c.memory.Clear size) :
    ∃ m p ws, c.memory.malloc size = some (m, p) ∧ p ≠ 0 ∧ ws.length = n + 1 ∧
      (∀ r ∈ F, r.1 ≠ p) ∧ Refines ((p, ws) :: F) addr T { c with memory := m } s := by
  obtain ⟨m, p, hcode, hg⟩ := h.sound.malloc hc (by omega) hlt
  have howns := hg.owns
  rw [hsize] at howns
  have hkeep : ∀ {q ws}, Record c.memory q ws → Record m q ws := fun hq =>
    hq.keep h.sound (hg.keeps _ hq.owns.live)
  -- the new block is none of those in use
  have hnew : ∀ {q ws}, Record c.memory q ws → q ≠ p := fun hq heq =>
    hg.not_live (heq ▸ hq.owns.live)
  have hclock : p ≠ c.monotonicTime := by
    intro heq
    by_cases hnull : c.monotonicTime = 0
    · exact hg.ne_zero (heq.trans hnull)
    · exact hnew (h.clock hnull) heq.symm
  refine ⟨m, p, (List.range (n + 1)).map fun i => m.field p (.ofNat (4 * i)), hcode, hg.ne_zero,
    by simp, fun r hmem => hnew (h.frame r hmem), ?_⟩
  exact { h with
    sound := hg.sound
    clock := fun hnull => hkeep (h.clock hnull)
    list := hkeep h.list
    entry := fun e he => hkeep (h.entry e he)
    frame := List.forall_mem_cons.mpr ⟨Record.of_owns (n + 1) howns, fun r hmem =>
      hkeep (h.frame r hmem)⟩
    frame_ne := List.forall_mem_cons.mpr ⟨⟨hclock, (hnew h.list).symm, fun e he =>
      (hnew (h.entry e he)).symm⟩, h.frame_ne⟩ }

/-- The new block gets the next number. -/
theorem number (h : Refines ((p, ws) :: F) addr T c s) :
    Refines ((p, ws) :: F) (Function.update addr s.top p) T (c.number p)
      { s with top := s.top + 1 } := by
  have haddr : ∀ e ∈ T, Function.update addr s.top p e = addr e := fun e he =>
    Function.update_of_ne (h.lt_top e he).ne _ _
  have hp := h.frame_ne _ List.mem_cons_self
  refine { h with
    list := ?_
    entry := fun e he => ?_
    entry_ne := fun e he => ?_
    frame_ne := fun r hmem => ?_
    entryOf := fun e he => ?_
    lt_top := fun e he => Nat.lt_succ_of_lt (h.lt_top e he)
    entries_lt := fun d hd => Nat.lt_succ_of_lt (h.entries_lt d hd)
    next_lt := fun e he d hd => Nat.lt_succ_of_lt (h.next_lt e he d hd)
    added := congrArg (· + 1) h.added }
  · rw [ptrOf_update h.entries_lt]
    exact h.list
  · rw [haddr e he, WakeUpEntry.words, ptrOf_update (h.next_lt e he)]
    exact h.entry e he
  · rw [haddr e he]
    exact h.entry_ne e he
  · obtain ⟨h1, h2, h3⟩ := h.frame_ne r hmem
    refine ⟨h1, h2, fun e he => ?_⟩
    rw [haddr e he]
    exact h3 e he
  · rw [haddr e he]
    show Function.update c.entryOf p c.added (addr e) = e
    rw [Function.update_of_ne (hp.2.2 e he).symm]
    exact h.entryOf e he

/-- A block that holds an entry becomes one of the entries. -/
theorem track {n : WakeUpEntry} (h : Refines ((p, n.words addr) :: F) addr T c s)
    (haddr : addr e = p) (hne : ∀ r ∈ F, r.1 ≠ p) (hof : c.entryOf p = e) (hlt : e < s.top)
    (hnext : ∀ d, n.next = some d → d < s.top) :
    Refines F addr (insert e T) c { s with nodes := Function.update s.nodes e n } := by
  subst haddr
  have hp := h.frame_ne _ List.mem_cons_self
  have he : e ∉ T := fun he => hp.2.2 e he rfl
  have hold : ∀ d ∈ T, Function.update s.nodes e n d = s.nodes d := by
    intro d hd
    refine Function.update_of_ne ?_ _ _
    rintro rfl
    exact he hd
  refine { h with
    entry := fun d hd => ?_
    frame := fun r hmem => h.frame r (List.mem_cons_of_mem _ hmem)
    entry_ne := Set.forall_mem_insert.mpr ⟨⟨hp.1, hp.2.1⟩, h.entry_ne⟩
    frame_ne := fun r hmem => ?_
    entryOf := Set.forall_mem_insert.mpr ⟨hof, h.entryOf⟩
    lt_top := Set.forall_mem_insert.mpr ⟨hlt, h.lt_top⟩
    next_lt := fun d hd => ?_ }
  · show Record _ _ (WakeUpEntry.words addr (Function.update s.nodes e n d))
    rcases hd with rfl | hd
    · rw [Function.update_self]
      exact h.frame _ List.mem_cons_self
    · rw [hold d hd]
      exact h.entry d hd
  · obtain ⟨h1, h2, h3⟩ := h.frame_ne r (List.mem_cons_of_mem _ hmem)
    exact ⟨h1, h2, Set.forall_mem_insert.mpr ⟨hne r hmem, h3⟩⟩
  · show ∀ f, (Function.update s.nodes e n d).next = some f → f < s.top
    rcases hd with rfl | hd
    · rw [Function.update_self]
      exact hnext
    · rw [hold d hd]
      exact h.next_lt d hd

/-- `free` of an entry. -/
theorem freeEntry (h : Refines F addr T c s) (he : e ∈ T) :
    ∃ c', c.freeEntry (addr e) = some c' ∧
      Refines F addr (T \ {e}) c' { s with freed := s.freed ++ [e] } := by
  obtain ⟨m, hcode, hf⟩ := h.sound.free (h.entry e he).owns.live
  have hkeep : ∀ {q ws}, Record c.memory q ws → q ≠ addr e → Record m q ws := fun hq hne =>
    hq.keep h.sound (hf.keeps _ hq.owns.live hne)
  refine ⟨_, by rw [HeapTimers.freeEntry, hcode]; rfl, ?_⟩
  exact { h with
    sound := hf.sound
    clock := fun hnull => hkeep (h.clock hnull) (h.entry_ne e he).1.symm
    list := hkeep h.list (h.entry_ne e he).2.symm
    entry := fun d hd => hkeep (h.entry d hd.1) fun heq => hd.2 (h.addr_inj hd.1 he heq)
    frame := fun r hmem => hkeep (h.frame r hmem) ((h.frame_ne r hmem).2.2 e he)
    entry_ne := fun d hd => h.entry_ne d hd.1
    frame_ne := fun r hmem => ⟨(h.frame_ne r hmem).1, (h.frame_ne r hmem).2.1, fun d hd =>
      (h.frame_ne r hmem).2.2 d hd.1⟩
    entryOf := fun d hd => h.entryOf d hd.1
    lt_top := fun d hd => h.lt_top d hd.1
    next_lt := fun d hd => h.next_lt d hd.1
    freed := congrArg₂ (· ++ [·]) h.freed (h.entryOf e he) }

/-! ### Adding entries -/

theorem set_four {ws : List UInt32} (hlen : ws.length = 4) (a b d e : UInt32) :
    (((ws.set 0 a).set 1 b).set 2 d).set 3 e = [a, b, d, e] := by
  match ws, hlen with
  | [_, _, _, _], _ => rfl

/-- The stores to the fields of a new block make it an entry. -/
theorem fillEntry (h : Refines ((p, ws) :: F) addr T c s) (hlen : ws.length = 4)
    (haddr : addr e = p) (hne : ∀ r ∈ F, r.1 ≠ p) (hof : c.entryOf p = e) (hlt : e < s.top)
    (call : WakeUp) :
    Refines F addr (insert e T) (c.fillEntry p call)
      { s with nodes := Function.update s.nodes e ⟨call, s.entries⟩ } := by
  have h₁ := h.setFrame hne (k := 0) (i := 0) rfl (by omega) call.wakeUpTick
  have h₂ := h₁.setFrame hne (k := 4) (i := 1) rfl (by simp [hlen]) call.callback
  have h₃ := h₂.setFrame hne (k := 8) (i := 2) rfl (by simp [hlen]) call.callbackData
  have h₄ := h₃.setFrame hne (k := 12) (i := 3) rfl (by simp [hlen]) (ptrOf addr s.entries)
  have hhead := h₃.head
  rw [set_four hlen, ← hhead] at h₄
  exact track (n := ⟨call, s.entries⟩) (by rw [WakeUpEntry.words, ← hhead]; exact h₄) haddr hne hof
    hlt h.entries_lt

/-- The entry becomes the head of the list. -/
theorem linkEntry (h : Refines F addr T c s) (haddr : addr e = p) (hlt : e < s.top) :
    Refines F addr T (c.linkEntry p)
      { s with entries := some e, entryCount := s.entryCount + 1 } := by
  have h₁ := h.setHead (x := some e) fun d hd => by
    obtain rfl := Option.some.inj hd
    exact hlt
  have h₂ := h₁.setCount (s.entryCount + 1)
  have hcount := h₁.count
  rw [ptrOf, haddr] at h₂ hcount
  rw [HeapTimers.linkEntry, hcount]
  exact h₂

/-- `c'` holds `s'` as `c` holds `s`, with the entries numbered since: the old ones are where they
were. -/
structure Extends (F : List (UInt32 × List UInt32)) (addr : ℕ → UInt32) (T : Set ℕ)
    (c : HeapTimers) (s : TimerState) (addr' : ℕ → UInt32) (T' : Set ℕ) (c' : HeapTimers)
    (s' : TimerState) : Prop where
  refines : Refines F addr' T' c' s'
  wakeUpList : c'.wakeUpList = c.wakeUpList
  top_le : s.top ≤ s'.top
  addr : ∀ d < s.top, addr' d = addr d
  old : T ⊆ T'
  new : ∀ d, s.top ≤ d → d < s'.top → d ∈ T'

theorem Extends.refl (h : Refines F addr T c s) : Extends F addr T c s addr T c s :=
  ⟨h, rfl, le_rfl, fun _ _ => rfl, subset_rfl, fun _ hle hlt => absurd hlt (not_lt.mpr hle)⟩

theorem Extends.trans {addr₁ addr₂ : ℕ → UInt32} {T₁ T₂ : Set ℕ} {c₁ c₂ : HeapTimers}
    {s₁ s₂ : TimerState} (h₁ : Extends F addr T c s addr₁ T₁ c₁ s₁)
    (h₂ : Extends F addr₁ T₁ c₁ s₁ addr₂ T₂ c₂ s₂) : Extends F addr T c s addr₂ T₂ c₂ s₂ where
  refines := h₂.refines
  wakeUpList := h₂.wakeUpList.trans h₁.wakeUpList
  top_le := h₁.top_le.trans h₂.top_le
  addr := fun d hd => (h₂.addr d (hd.trans_le h₁.top_le)).trans (h₁.addr d hd)
  old := h₁.old.trans h₂.old
  new := by
    intro d hle hlt
    by_cases hd : d < s₁.top
    · exact h₂.old (h₁.new d hle hd)
    · exact h₂.new d (not_lt.mp hd) hlt

/-- `wake_up_list_add`, when the block it gets is clear. -/
theorem add (h : Refines F addr T c s) (hc : c.memory.Clear 16) (call : WakeUp) :
    ∃ c' addr' T', c.wakeUpListAdd call = some c' ∧
      Extends F addr T c s addr' T' c' (wakeUpListAdd s ⟨call, true⟩) := by
  obtain ⟨m, p, ws, hcode, hp0, hlen, hne, h₀⟩ := h.alloc (n := 3) rfl (by decide) hc
  have haddr : Function.update addr s.top p s.top = p := Function.update_self ..
  have h₁ := h₀.number.fillEntry hlen haddr hne ((Function.update_self p _ _).trans h.added)
    (Nat.lt_succ_self _) call
  have h₂ := h₁.linkEntry haddr (Nat.lt_succ_self _)
  have hadd : c.wakeUpListAdd call
      = some (((({ c with memory := m } : HeapTimers).number p).fillEntry p call).linkEntry p) := by
    rw [HeapTimers.wakeUpListAdd, if_neg h.wakeUpList_ne_zero, hcode, Option.map_some]
    dsimp only
    rw [if_neg hp0]
  refine ⟨_, Function.update addr s.top p, insert s.top T, hadd, ?_⟩
  rw [wakeUpListAdd_eq h.hasWakeUpList]
  refine ⟨h₂, rfl, Nat.le_succ _, fun d hd => Function.update_of_ne hd.ne _ _,
    Set.subset_insert _ _, ?_⟩
  intro d hle hlt
  exact .inl (Nat.le_antisymm (Nat.le_of_lt_succ hlt) hle)

end Refines

/-- The blocks that the calls get are clear. -/
def HeapTimers.ClearAdds (c : HeapTimers) : List WakeUp → Prop
  | [] => True
  | call :: calls =>
    c.memory.Clear 16 ∧ ∀ c', c.wakeUpListAdd call = some c' → c'.ClearAdds calls

/-- The blocks that the callback of `current` gets are clear, if the walk calls it. -/
def HeapTimers.ClearVisit (rearm : ℕ → List WakeUp) (tick : UInt32) (c : HeapTimers)
    (current : UInt32) : Prop :=
  c.field current 0 ≤ tick → c.field current 4 ≠ 0 →
    (c.fire tick current).ClearAdds (rearm (c.entryOf current))

/-- The blocks that callbacks get in the walk are clear. -/
def HeapTimers.ClearLoop (rearm : ℕ → List WakeUp) (tick : UInt32) :
    ℕ → HeapTimers → CheckPtrs → Prop
  | 0, _, _ => True
  | fuel + 1, c, l => l.current ≠ 0 →
    c.ClearVisit rearm tick l.current ∧
      ∀ c' l', c.visitEntry rearm tick l = some (c', l') → ClearLoop rearm tick fuel c' l'

/-- The blocks that callbacks get in a check of the list are clear. -/
def HeapTimers.ClearCheck (rearm : ℕ → List WakeUp) (c : HeapTimers) : Prop :=
  c.wakeUpList ≠ 0 → ClearLoop rearm c.monotonicTimeGetTicksGlobal (2 ^ 32) c
    ⟨c.field c.wakeUpList 0, c.wakeUpList⟩

/-- What callbacks add, in the calls of the abstract model. -/
def allocating (rearm : ℕ → List WakeUp) (e : ℕ) : List AddCall := (rearm e).map fun w => ⟨w, true⟩

namespace Refines

variable {F : List (UInt32 × List UInt32)} {addr : ℕ → UInt32} {T : Set ℕ} {c : HeapTimers}
  {s : TimerState} {e : ℕ} {rearm : ℕ → List WakeUp} {tick : UInt32}

theorem addAll (h : Refines F addr T c s) (calls : List WakeUp) (hc : c.ClearAdds calls) :
    ∃ c' addr' T', c.addAll calls = some c' ∧
      Extends F addr T c s addr' T' c' ((calls.map fun w => ⟨w, true⟩).foldl wakeUpListAdd s) := by
  induction calls generalizing c s addr T with
  | nil => exact ⟨c, addr, T, rfl, .refl h⟩
  | cons call calls ih =>
    obtain ⟨c₁, addr₁, T₁, hcode, h₁⟩ := h.add hc.1 call
    obtain ⟨c', addr', T', hrest, h'⟩ := ih h₁.refines (hc.2 c₁ hcode)
    refine ⟨c', addr', T', ?_, h₁.trans h'⟩
    rw [HeapTimers.addAll, hcode]
    exact hrest

/-! ### The walk -/

/-- The callback of a due entry, when the blocks that it gets are clear. -/
theorem runCallback (h : Refines F addr T c s) (he : e ∈ T)
    (hc : c.field (addr e) 4 ≠ 0 → (c.fire tick (addr e)).ClearAdds (rearm (c.entryOf (addr e)))) :
    ∃ c' addr' T', c.runCallback rearm tick (addr e) = some c' ∧
      Extends F addr T c s addr' T' c' (Rtc.runCallback (allocating rearm) tick s e) := by
  rw [HeapTimers.runCallback, Rtc.runCallback, ← h.callback he]
  by_cases hnull : c.field (addr e) 4 = 0
  · rw [if_pos hnull, if_pos hnull]
    exact ⟨c, addr, T, rfl, .refl h⟩
  · rw [if_neg hnull, if_neg hnull]
    have hfire : Refines F addr T (c.fire tick (addr e))
        { s with
          fired := s.fired ++ [⟨e, c.field (addr e) 4, (s.nodes e).callbackData, tick⟩] } := by
      refine { h with fired := ?_ }
      show c.fired ++ [⟨c.entryOf (addr e), _, c.field (addr e) 8, tick⟩] = _
      rw [h.fired, h.entryOf e he, h.callbackData he]
    obtain ⟨c', addr', T', hcode, h'⟩ := hfire.addAll _ (hc hnull)
    rw [h.entryOf e he] at hcode h'
    rw [h.entryOf e he]
    exact ⟨c', addr', T', hcode, h'.refines, h'.wakeUpList, h'.top_le, h'.addr, h'.old, h'.new⟩

/-- The cell that `prev_ptr` points to. -/
def cellOf (addr : ℕ → UInt32) (wakeUpList : UInt32) : Option ℕ → UInt32
  | none => wakeUpList
  | some e => addr e + 12

/-- `*prev_ptr = x`. -/
theorem storePrev (h : Refines F addr T c s) {prevPtr x : Option ℕ}
    (hprev : ∀ d, prevPtr = some d → d ∈ T) (hx : ∀ d, x = some d → d < s.top) :
    Refines F addr T (c.setField (cellOf addr c.wakeUpList prevPtr) 0 (ptrOf addr x))
      (s.storePrev prevPtr x) := by
  cases prevPtr with
  | none => exact h.setHead hx
  | some d =>
    have hcell : c.setField (addr d + 12) 0 (ptrOf addr x)
        = c.setField (addr d) 12 (ptrOf addr x) := by
      rw [HeapTimers.setField, HeapTimers.setField, HeapState.setField, HeapState.setField,
        UInt32.add_zero]
    rw [cellOf, hcell]
    exact h.setNext (hprev d rfl) hx

/-- `c'` holds `s'` after a visit of `e`, which is no longer tracked if it was due. -/
structure Visited (F : List (UInt32 × List UInt32)) (addr : ℕ → UInt32) (T : Set ℕ)
    (c : HeapTimers) (s : TimerState) (gone : Set ℕ) (addr' : ℕ → UInt32) (T' : Set ℕ)
    (c' : HeapTimers) (s' : TimerState) : Prop where
  refines : Refines F addr' T' c' s'
  wakeUpList : c'.wakeUpList = c.wakeUpList
  top_le : s.top ≤ s'.top
  addr : ∀ d < s.top, addr' d = addr d
  old : T \ gone ⊆ T'
  new : ∀ d, s.top ≤ d → d < s'.top → d ∈ T'

/-- A due entry is unlinked and freed, after its callback. -/
theorem visitEntry_of_due (h : Refines F addr T c s) (he : e ∈ T) {prevPtr : Option ℕ}
    (hprev : ∀ d, prevPtr = some d → d ∈ T) (hdue : (s.nodes e).wakeUpTick ≤ tick)
    (hc : c.field (addr e) 4 ≠ 0 → (c.fire tick (addr e)).ClearAdds (rearm (c.entryOf (addr e)))) :
    ∃ c' addr' T', c.visitEntry rearm tick ⟨addr e, cellOf addr c.wakeUpList prevPtr⟩
        = some (c',
            ⟨ptrOf addr' (Rtc.visitEntry (allocating rearm) tick s ⟨some e, prevPtr⟩ e).2.current,
            cellOf addr' c'.wakeUpList prevPtr⟩) ∧
      Visited F addr T c s {e} addr' T' c'
        (Rtc.visitEntry (allocating rearm) tick s ⟨some e, prevPtr⟩ e).1 := by
  obtain ⟨c₁, addr', T₁, hcall, h₁⟩ := h.runCallback he hc
  rw [Rtc.visitEntry, if_pos hdue]
  dsimp only
  generalize Rtc.runCallback (allocating rearm) tick s e = s₁ at h₁
  have he₁ := h₁.old he
  have haddr : addr' e = addr e := h₁.addr e (h.lt_top e he)
  have hcell : cellOf addr' c₁.wakeUpList prevPtr = cellOf addr c.wakeUpList prevPtr := by
    cases prevPtr with
    | none => exact h₁.wakeUpList
    | some d => exact congrArg (· + 12) (h₁.addr d (h.lt_top d (hprev d rfl)))
  -- `current->next` is read after the callback, and once more after the store
  have h₂ := h₁.refines.storePrev (fun d hd => h₁.old (hprev d hd)) (h₁.refines.next_lt e he₁)
  rw [hcell, ← h₁.refines.next he₁, haddr] at h₂
  have htop : (s₁.storePrev prevPtr (s₁.nodes e).next).top = s₁.top :=
    (s₁.storePrev_frame prevPtr _).2.2.1
  generalize s₁.storePrev prevPtr (s₁.nodes e).next = s₂ at h₂ htop
  have hnext := h₂.next he₁
  obtain ⟨c₃, hfree, h₃⟩ := h₂.freeEntry he₁
  have h₄ := h₃.setCount (s₂.entryCount - 1)
  have hcount : c₃.field c₃.wakeUpList 4 = s₂.entryCount := h₃.count
  rw [haddr] at hnext hfree
  have hwake : c₃.wakeUpList = c.wakeUpList := by
    obtain ⟨m, -, rfl⟩ := Option.map_eq_some_iff.mp hfree
    exact h₁.wakeUpList
  refine ⟨c₃.setField c₃.wakeUpList 4 (s₂.entryCount - 1), addr', T₁ \ {e}, ?_, h₄, hwake, ?_,
    h₁.addr, Set.sdiff_subset_sdiff_left h₁.old, fun d hle hlt => ⟨?_, ?_⟩⟩
  · have hcell' : cellOf addr' (c₃.setField c₃.wakeUpList 4 (s₂.entryCount - 1)).wakeUpList prevPtr
        = cellOf addr c.wakeUpList prevPtr := by
      rw [← hcell, h₁.wakeUpList, ← hwake]
      rfl
    rw [HeapTimers.visitEntry, if_pos (by rw [h.wakeUpTick he]; exact hdue), ← hnext, hcell',
      ← hcount]
    simp only [hcall, Option.bind_eq_bind, Option.bind_some, hfree]
  · exact h₁.top_le.trans htop.ge
  · exact h₁.new d hle (hlt.trans_le htop.le)
  · rintro rfl
    exact absurd (h.lt_top d he) (not_lt.mpr hle)

/-- The body of the walk. -/
theorem visitEntry (h : Refines F addr T c s) (he : e ∈ T) {prevPtr : Option ℕ}
    (hprev : ∀ d, prevPtr = some d → d ∈ T)
    (hc : c.ClearVisit rearm tick (addr e)) :
    ∃ c' addr' T', c.visitEntry rearm tick ⟨addr e, cellOf addr c.wakeUpList prevPtr⟩
        = some (c',
            ⟨ptrOf addr' (Rtc.visitEntry (allocating rearm) tick s ⟨some e, prevPtr⟩ e).2.current,
            cellOf addr' c'.wakeUpList
              (Rtc.visitEntry (allocating rearm) tick s ⟨some e, prevPtr⟩ e).2.prevPtr⟩) ∧
      Visited F addr T c s {d | d = e ∧ due s tick e = true} addr' T' c'
        (Rtc.visitEntry (allocating rearm) tick s ⟨some e, prevPtr⟩ e).1 := by
  by_cases hdue : (s.nodes e).wakeUpTick ≤ tick
  · have hcode : (Rtc.visitEntry (allocating rearm) tick s ⟨some e, prevPtr⟩ e).2.prevPtr
        = prevPtr := by
      rw [Rtc.visitEntry, if_pos hdue]
    have hgone : {d | d = e ∧ due s tick e = true} = {e} := by
      ext d
      simp [due, hdue]
    rw [hcode, hgone]
    exact h.visitEntry_of_due he hprev hdue (hc (by rw [h.wakeUpTick he]; exact hdue))
  · have hcode : Rtc.visitEntry (allocating rearm) tick s ⟨some e, prevPtr⟩ e
        = (s, ⟨(s.nodes e).next, some e⟩) := if_neg hdue
    have hgone : {d | d = e ∧ due s tick e = true} = ∅ := by
      ext d
      simp [due, hdue]
    rw [hcode, hgone]
    refine ⟨c, addr, T, ?_, h, rfl, le_rfl, fun _ _ => rfl, Set.sdiff_subset, fun d hle hlt => ?_⟩
    · rw [HeapTimers.visitEntry, if_neg (by rw [h.wakeUpTick he]; exact hdue)]
      dsimp only
      rw [h.next he]
      rfl
    · exact absurd hlt (not_lt.mpr hle)

/-- The walk over `rest`, which is what is left of the check of `es` that started in `s₀`. -/
theorem checkLoop {s₀ : TimerState} {es rest : List ℕ} {l : CheckLocals} (hq : s₀.Queue es)
    (hw : CheckWalk s₀ (allocating rearm) tick es s l rest) (h : Refines F addr T c s)
    (hrest : ∀ d ∈ rest, d ∈ T) (hprev : ∀ d, l.prevPtr = some d → d ∈ T) (fuel : ℕ)
    (hfuel : rest.length ≤ fuel)
    (hc : HeapTimers.ClearLoop rearm tick fuel c
      ⟨ptrOf addr l.current, cellOf addr c.wakeUpList l.prevPtr⟩) :
    ∃ c' addr' T' s' l', HeapTimers.checkLoop rearm tick fuel c
        ⟨ptrOf addr l.current, cellOf addr c.wakeUpList l.prevPtr⟩ = some c' ∧
      (∀ n, rest.length ≤ n → Rtc.checkLoop (allocating rearm) tick n s l = some (s', l')) ∧
      Visited F addr T c s {d | d ∈ rest ∧ due s₀ tick d = true} addr' T' c' s' := by
  induction rest generalizing c s l addr T fuel with
  | nil =>
    have hcur : l.current = none := hw.current
    refine ⟨c, addr, T, s, l, ?_, fun n _ => ?_, h, rfl, le_rfl, fun _ _ => rfl, Set.sdiff_subset,
      fun d hle hlt => absurd hlt (not_lt.mpr hle)⟩
    · rw [hcur]
      cases fuel <;> exact if_pos rfl
    · rw [Rtc.checkLoop.eq_def, hcur]
  | cons e rest ih =>
    obtain ⟨current, prevPtr⟩ := l
    obtain rfl : current = some e := hw.current
    obtain ⟨fuel, rfl⟩ : ∃ n, fuel = n + 1 :=
      Nat.exists_eq_add_one.mpr (Nat.lt_of_lt_of_le (Nat.succ_pos _) hfuel)
    have he : e ∈ T := hrest e List.mem_cons_self
    have hne0 : ptrOf addr (some e) ≠ 0 := h.addr_ne_zero he
    obtain ⟨hvisit, hloop⟩ := hc hne0
    obtain ⟨c₁, addr₁, T₁, hcode, h₁⟩ := h.visitEntry he hprev hvisit
    have hw₁ := CheckWalk.step hq hw
    have hmem := hw.suffix.mem List.mem_cons_self
    have hdue := (CheckWalk.firing_eq (hw.sameClock.content e (hq.lt_top e hmem)) tick).1
    have hnd := hw.suffix.sublist.nodup hq.holds.nodup
    have hrest₁ : ∀ d ∈ rest, d ∈ T₁ := by
      intro d hd
      refine h₁.old ⟨hrest d (List.mem_cons_of_mem _ hd), ?_⟩
      rintro ⟨rfl, -⟩
      exact (List.nodup_cons.mp hnd).1 hd
    -- `prev_ptr` is at an entry that stays
    have hprev₁ : ∀ d, (Rtc.visitEntry (allocating rearm) tick s ⟨some e, prevPtr⟩ e).2.prevPtr
        = some d → d ∈ T₁ := by
      intro d hd
      have hstay := (hw₁.prevPtr d hd).2
      refine h₁.old ⟨?_, ?_⟩
      · rw [(visitEntry_spec (allocating rearm) tick ⟨some e, prevPtr⟩ e h.hasWakeUpList).prevPtr]
          at hd
        split at hd
        · exact hprev d hd
        · exact Option.some.inj hd ▸ he
      · rintro ⟨rfl, hd'⟩
        rw [hdue, hstay] at hd'
        exact Bool.noConfusion hd'
    obtain ⟨c', addr', T', s', l', hcode', habs, h'⟩ := ih hw₁ h₁.refines hrest₁ hprev₁ fuel
      (Nat.le_of_succ_le_succ hfuel) (hloop _ _ hcode)
    refine ⟨c', addr', T', s', l', ?_, ?_, h'.refines, h'.wakeUpList.trans h₁.wakeUpList,
      h₁.top_le.trans h'.top_le, ?_, ?_, ?_⟩
    · rw [HeapTimers.checkLoop, if_neg hne0]
      show (c.visitEntry rearm tick ⟨addr e, cellOf addr c.wakeUpList prevPtr⟩).bind _ = _
      rw [hcode]
      exact hcode'
    · intro n hn
      obtain ⟨n, rfl⟩ : ∃ k, n = k + 1 :=
        Nat.exists_eq_add_one.mpr (Nat.lt_of_lt_of_le (Nat.succ_pos _) hn)
      rw [Rtc.checkLoop.eq_def]
      exact habs n (Nat.le_of_succ_le_succ hn)
    · intro d hd
      rw [h'.addr d (hd.trans_le h₁.top_le), h₁.addr d hd]
    · rintro d ⟨hd, hgone⟩
      refine h'.old ⟨h₁.old ⟨hd, ?_⟩, ?_⟩
      · rintro ⟨rfl, hd'⟩
        exact hgone ⟨List.mem_cons_self, hdue ▸ hd'⟩
      · rintro ⟨hd', hd''⟩
        exact hgone ⟨List.mem_cons_of_mem _ hd', hd''⟩
    · intro d hle hlt
      by_cases hd : d < (Rtc.visitEntry (allocating rearm) tick s ⟨some e, prevPtr⟩ e).1.top
      · refine h'.old ⟨h₁.new d hle hd, ?_⟩
        rintro ⟨hd', -⟩
        exact absurd (h.lt_top d (hrest d (List.mem_cons_of_mem _ hd'))) (not_lt.mpr hle)
      · exact h'.new d (not_lt.mp hd) hlt

/-- No more than `2^32` entries have addresses of their own. -/
theorem length_le (h : Refines F addr T c s) {es : List ℕ} (hes : ∀ e ∈ es, e ∈ T)
    (hnd : es.Nodup) : es.length ≤ 2 ^ 32 :=
  length_le_of_inj hnd fun d hd e he heq => h.addr_inj (hes d hd) (hes e he) heq

/-- `wake_up_list_check_and_execute` does what the abstract check does. -/
theorem check (h : Refines F addr T c s) {es : List ℕ} (hq : s.Queue es) (hes : ∀ e ∈ es, e ∈ T)
    (hc : c.ClearCheck rearm) :
    ∃ c' addr' T' s', c.wakeUpListCheckAndExecute rearm = some c' ∧
      wakeUpListCheckAndExecute (allocating rearm) s = some s' ∧
      Visited F addr T c s {d | d ∈ es ∧ due s (monotonicTimeGetTicksGlobal s) d = true} addr' T' c'
        s' := by
  have hhead : s.entries = es.head? := hq.holds.head_eq
  have hclear := hc h.wakeUpList_ne_zero
  rw [h.head, h.getTicks, hhead] at hclear
  obtain ⟨c', addr', T', s', l', hcode, habs, h'⟩ := h.checkLoop hq
    (CheckWalk.start (allocating rearm) (monotonicTimeGetTicksGlobal s) hq) hes (by simp) (2 ^ 32)
    (h.length_le hes hq.holds.nodup) hclear
  refine ⟨c', addr', T', s', ?_, ?_, h'⟩
  · rw [HeapTimers.wakeUpListCheckAndExecute, if_neg h.wakeUpList_ne_zero, h.head, h.getTicks,
      hhead]
    exact hcode
  · rw [wakeUpListCheckAndExecute, if_pos hq.hasWakeUpList, hhead, habs s.top hq.length_le]
    rfl

/-! ### A tick -/

theorem increment (h : Refines F addr T c s) :
    Refines F addr T c.monotonicTimeIncrementGlobal (monotonicTimeIncrementGlobal s) ∧
      c.monotonicTimeIncrementGlobal.wakeUpList = c.wakeUpList := by
  rw [HeapTimers.monotonicTimeIncrementGlobal, monotonicTimeIncrementGlobal]
  have hhas := h.hasMonotonicTime
  by_cases hnull : c.monotonicTime = 0
  · rw [if_neg (not_not.mpr hnull), if_neg (by simp [hhas, hnull])]
    exact ⟨h, rfl⟩
  · have htick : c.field c.monotonicTime 0 = s.tickCount := (h.clock hnull).field (i := 0) rfl rfl
    rw [if_pos hnull, if_pos (by simp [hhas, hnull]), htick]
    exact ⟨h.setClock hnull _, rfl⟩

/-- Callbacks that add nothing get no blocks. -/
theorem clearLoop_nil (tick : UInt32) (fuel : ℕ) (c : HeapTimers)
    (l : HeapTimers.CheckPtrs) : HeapTimers.ClearLoop (fun _ => []) tick fuel c l := by
  induction fuel generalizing c l with
  | zero => trivial
  | succ fuel ih => exact fun _ => ⟨fun _ _ => trivial, fun c' l' _ => ih c' l'⟩

/-- A tick, with callbacks that leave the list alone, does what the abstract tick does. -/
theorem rtcTick (h : Refines F addr T c s) {es : List ℕ} (hq : s.Queue es) (hes : ∀ e ∈ es, e ∈ T) :
    ∃ c' addr' T' s', c.rtcTick (fun _ => []) = some c' ∧ Rtc.rtcTick (fun _ => []) s = some s' ∧
      Visited F addr T c s {d | d ∈ es ∧ due s (nextTick s) d = true} addr' T' c' s' := by
  obtain ⟨hinc, hwake⟩ := h.increment
  -- the increment only moves the clock
  obtain ⟨tickCount, hs⟩ :
      ∃ tickCount, monotonicTimeIncrementGlobal s = { s with tickCount := tickCount } := by
    rw [monotonicTimeIncrementGlobal]
    split
    · exact ⟨_, rfl⟩
    · exact ⟨s.tickCount, rfl⟩
  have hq' : (monotonicTimeIncrementGlobal s).Queue es := by
    rw [hs]
    exact ⟨hq.hasWakeUpList, hq.holds, hq.lt_top⟩
  have hclear : c.monotonicTimeIncrementGlobal.ClearCheck fun _ => [] :=
    fun _ => clearLoop_nil _ _ _ _
  obtain ⟨c', addr', T', s', hcode, habs, h'⟩ := hinc.check hq' hes hclear
  refine ⟨c', addr', T', s', hcode, habs, h'.refines, h'.wakeUpList.trans hwake, ?_, ?_, ?_, ?_⟩
  · have := h'.top_le
    rwa [hs] at this
  · have := h'.addr
    rwa [hs] at this
  · have hold := h'.old
    change T \ {d | d ∈ es ∧ due (monotonicTimeIncrementGlobal s) (nextTick s) d = true} ⊆ T'
      at hold
    rwa [hs] at hold
  · have := h'.new
    rwa [hs] at this

/-! ### The list -/

/-- The list in the heap is that of the addresses. -/
theorem holds (h : Refines F addr T c s) {es : List ℕ} (hes : ∀ e ∈ es, e ∈ T)
    (hl : s.links.Holds es) :
    c.links.Holds (es.map addr) ∧ (es.map addr).map c.entryOf = es := by
  have hhead : c.links.head = s.links.head.map addr := by
    show ptr? (c.field c.wakeUpList 0) = _
    rw [h.head]
    exact ptr?_ptrOf fun d hd => h.addr_ne_zero (hes d (hl.head_mem hd))
  have hnext : ∀ e ∈ es, c.links.next (addr e) = (s.links.next e).map addr := by
    intro e he
    show ptr? (c.field (addr e) 12) = _
    rw [h.next (hes e he)]
    exact ptr?_ptrOf fun d hd => h.addr_ne_zero (hes d (hl.next_mem he hd))
  constructor
  · show Chain c.links.next c.links.head _ none
    rw [hhead]
    exact Chain.map hl hnext
  · rw [List.map_map]
    refine (List.map_congr_left fun e he => ?_).trans (List.map_id es)
    exact h.entryOf e (hes e he)

end Refines

end Shogun.Rtc
