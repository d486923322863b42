import Shogun.Async.Equiv.Actions
import Shogun.Memory.Equiv.ClientDecide

/-!
# A task queue in the heap

`Queue c ps` says that the tasks of the queue are at `ps`, and that the numbered blocks, the tasks
and their futures and wakers among them, are in use, each in a place of its own.  `Queue.refines`
reads the abstract executor off such a heap, and what is known of its passes applies.
-/

namespace Shogun.Async

open Memory Memory.HeapState LinkedList LinkedList.Links

/-- `p` is the address of a numbered block. -/
def Numbering.Names (n : Numbering) (p : UInt32) : Prop :=
  n.number p < n.top ∧ n.addr (n.number p) = p

/-- The number of words that every block of a kind has. -/
def Block.words : Block → ℕ
  | .task _ => 2
  | .future _ | .waker _ => 3

/-- A vtable is the one at its address. -/
theorem futureVTable?_eq_some {a : UInt32} {v : FutureVTable} (h : futureVTable? a = some v) :
    v.addr = a := by
  simpa using List.find?_some h

namespace HeapExecutor

/-- The numbered blocks. -/
def blocks (c : HeapExecutor) : List Block :=
  (List.range c.tasks.top).map .task ++ (List.range c.futures.top).map .future
    ++ (List.range c.wakers.top).map .waker

/-- The tasks of the queue are at `ps`.  The numbered blocks are in use, no two of them the same;
they point to one another, no two tasks of the queue have the same future, and no two futures the
same waker. -/
structure Queue (c : HeapExecutor) (ps : List UInt32) : Prop where
  sound : c.memory.Sound
  trace : c.trace = []
  owns : ∀ b ∈ c.blocks, c.memory.Owns (c.addr b) (4 * b.words)
  distinct : (c.blocks.map c.addr).Nodup
  latest : ∀ b ∈ c.blocks, c.Latest b
  future : ∀ t < c.tasks.top, c.futures.Names (c.field (c.tasks.addr t) 0)
  next : ∀ t < c.tasks.top,
    c.field (c.tasks.addr t) 4 = 0 ∨ c.tasks.Names (c.field (c.tasks.addr t) 4)
  vtable : ∀ f < c.futures.top, (futureVTable? (c.field (c.futures.addr f) 0)).isSome
  waker : ∀ f < c.futures.top,
    c.field (c.futures.addr f) 8 = 0 ∨ c.wakers.Names (c.field (c.futures.addr f) 8)
  waker_inj : ∀ f < c.futures.top, ∀ g < c.futures.top, c.field (c.futures.addr f) 8 ≠ 0 →
    c.field (c.futures.addr f) 8 = c.field (c.futures.addr g) 8 → f = g
  holds : c.links.Holds ps
  names : ∀ p ∈ ps, c.tasks.Names p
  futures_nodup : (ps.map fun p => c.field p 0).Nodup

/-- The abstract executor that the heap holds. -/
def toExecutor (c : HeapExecutor) : Executor where
  taskQueue := (ptr? c.taskQueue).map c.tasks.number
  taskCount := c.taskCount
  shouldPoll := c.shouldPoll
  tasks t := ⟨c.futures.number (c.field (c.tasks.addr t) 0),
    (ptr? (c.field (c.tasks.addr t) 4)).map c.tasks.number⟩
  futures f := ⟨(futureVTable? (c.field (c.futures.addr f) 0)).getD .sleepFuture,
    c.boolField (c.futures.addr f) 4, (ptr? (c.field (c.futures.addr f) 8)).map c.wakers.number⟩
  refCounts w := c.field (c.wakers.addr w) 4
  taskTop := c.tasks.top
  wakerTop := c.wakers.top
  trace := c.trace

namespace Queue

variable {c : HeapExecutor} {ps : List UInt32} {p : UInt32} {b : Block} {t f w : ℕ}

theorem mem_blocks : b ∈ c.blocks ↔ c.Created b := by
  cases b <;> simp [blocks, Created]

theorem live_iff (h : Queue c ps) : c.Live b ↔ c.Created b := by
  rw [Live, h.trace]
  exact and_iff_left List.not_mem_nil

theorem inj (h : Queue c ps) {b' : Block} (hb : c.Created b) (hb' : c.Created b')
    (heq : c.addr b = c.addr b') : b = b' :=
  List.inj_on_of_nodup_map h.distinct (mem_blocks.mpr hb) (mem_blocks.mpr hb') heq

/-- The words of the numbered blocks. -/
def store (c : HeapExecutor) : Blocks := fun p =>
  (c.blocks.find? fun b => c.addr b = p).map fun b =>
    (List.range b.words).map fun i => c.memory.field p (.ofNat (4 * i))

theorem store_addr (h : Queue c ps) (hb : c.Created b) :
    store c (c.addr b)
      = some ((List.range b.words).map fun i => c.memory.field (c.addr b) (.ofNat (4 * i))) := by
  have hmem := mem_blocks.mpr hb
  obtain ⟨b', hb'⟩ : ∃ b', c.blocks.find? (fun b' => c.addr b' = c.addr b) = some b' :=
    Option.isSome_iff_exists.mp (List.find?_isSome.mpr ⟨b, hmem, by simp⟩)
  have hsame : b' = b := h.inj (mem_blocks.mp (List.mem_of_find?_eq_some hb')) hb
    (by simpa using List.find?_some hb')
  rw [store, hb', Option.map_some, hsame]

theorem holds_store (h : Queue c ps) : c.memory.Holds (store c) := by
  refine ⟨h.sound, fun p ws hp => ?_⟩
  obtain ⟨b, hb, rfl⟩ := Option.map_eq_some_iff.mp hp
  obtain rfl : c.addr b = p := by simpa using List.find?_some hb
  exact Record.of_owns b.words (h.owns b (List.mem_of_find?_eq_some hb))

/-- A pointer to a numbered block, or `NULL`. -/
theorem ptrOf_map {n : Numbering} (hp : p = 0 ∨ n.Names p) :
    ptrOf n.addr ((ptr? p).map n.number) = p ∧
      ∀ d, (ptr? p).map n.number = some d → d < n.top := by
  by_cases hnull : p = 0
  · rw [hnull]
    exact ⟨rfl, nofun⟩
  · obtain ⟨hlt, haddr⟩ := hp.resolve_left hnull
    rw [ptr?_of_ne hnull]
    exact ⟨haddr, fun d hd => Option.some.inj hd ▸ hlt⟩

theorem taskQueue (h : Queue c ps) : c.taskQueue = 0 ∨ c.tasks.Names c.taskQueue := by
  by_cases hnull : c.taskQueue = 0
  · exact .inl hnull
  · exact .inr (h.names _ (h.holds.head_mem (ptr?_of_ne hnull)))

/-- The heap holds the abstract executor. -/
theorem refines (h : Queue c ps) : Refines (store c) (fun _ => []) c c.toExecutor where
  holds := h.holds_store
  taskQueue := (ptrOf_map h.taskQueue).1.symm
  taskCount := rfl
  shouldPoll := rfl
  trace := rfl
  taskTop := rfl
  wakerTop := rfl
  content := by
    intro b hb
    have hcr := h.live_iff.mp hb
    refine ⟨_, h.store_addr hcr, ?_⟩
    cases b with
    | task t =>
      show [c.field _ 0, c.field _ 4] = _
      rw [toExecutor]
      dsimp only
      rw [(ptrOf_map (h.next t hcr)).1, (h.future t hcr).2]
      rfl
    | future f =>
      obtain ⟨v, hv⟩ := Option.isSome_iff_exists.mp (h.vtable f hcr)
      refine ⟨c.field (c.futures.addr f) 4, ?_, ?_⟩
      · exact (h.holds_store.boolField (i := 1) (h.store_addr hcr) rfl rfl).symm
      · show [c.field _ 0, c.field _ 4, c.field _ 8] = _
        rw [toExecutor]
        dsimp only
        rw [(ptrOf_map (h.waker f hcr)).1, hv, Option.getD_some, futureVTable?_eq_some hv]
        rfl
    -- nothing is known of the other two words of a waker
    | waker w => exact ⟨_, _, rfl⟩
  inj := fun b b' hb hb' => h.inj (h.live_iff.mp hb) (h.live_iff.mp hb')
  latest := fun b hb => h.latest b (mem_blocks.mpr (h.live_iff.mp hb))
  freed := fun b hb => absurd (h.trace ▸ hb) List.not_mem_nil
  refers :=
    { queue_lt := (ptrOf_map h.taskQueue).2
      future_lt := fun t ht => (h.future t (h.live_iff.mp ht)).1
      next_lt := fun t ht => (ptrOf_map (h.next t (h.live_iff.mp ht))).2
      waker_live := fun f hf w hw =>
        h.live_iff.mpr ((ptrOf_map (h.waker f (h.live_iff.mp hf))).2 w hw)
      waker_inj := by
        intro f g hf hg w hfw hgw
        obtain ⟨p, hp, -⟩ := Option.map_eq_some_iff.mp hfw
        obtain ⟨heq, hne⟩ := ptr?_eq_some_iff.mp hp
        have hcf := h.live_iff.mp hf
        have hcg := h.live_iff.mp hg
        refine h.waker_inj f hcf g hcg (heq ▸ hne) ?_
        rw [← (ptrOf_map (h.waker f hcf)).1, ← (ptrOf_map (h.waker g hcg)).1]
        exact congrArg (ptrOf c.wakers.addr) (hfw.trans hgw.symm) }

theorem future_names (h : Queue c ps) (hp : p ∈ ps) : c.futures.Names (c.field p 0) := by
  obtain ⟨hlt, haddr⟩ := h.names p hp
  have := h.future _ hlt
  rwa [haddr] at this

theorem futureOf_eq (h : Queue c ps) (hp : p ∈ ps) :
    (c.toExecutor.tasks (c.tasks.number p)).future = c.futureOf p := by
  show c.futures.number (c.field (c.tasks.addr (c.tasks.number p)) 0) = _
  rw [(h.names p hp).2]
  rfl

theorem addr_futureOf (h : Queue c ps) (hp : p ∈ ps) :
    c.futures.addr (c.futureOf p) = c.field p 0 := (h.future_names hp).2

theorem live_task (h : Queue c ps) (hp : p ∈ ps) : c.Live (.task (c.tasks.number p)) :=
  h.live_iff.mpr (h.names p hp).1

theorem live_future (h : Queue c ps) (hp : p ∈ ps) : c.Live (.future (c.futureOf p)) :=
  h.live_iff.mpr (h.future_names hp).1

theorem completed_eq (h : Queue c ps) (hp : p ∈ ps) :
    (c.toExecutor.futureOf (c.tasks.number p)).isCompleted = c.completed p := by
  rw [Executor.futureOf, h.futureOf_eq hp]
  show c.boolField (c.futures.addr (c.futureOf p)) 4 = _
  rw [h.addr_futureOf hp]
  rfl

/-- The queue of the abstract executor. -/
theorem queue (h : Queue c ps) : c.toExecutor.Queue (ps.map c.tasks.number) where
  holds := by
    refine Chain.map h.holds fun p hp => ?_
    show (ptr? (c.field (c.tasks.addr (c.tasks.number p)) 4)).map c.tasks.number = _
    rw [(h.names p hp).2]
    rfl
  lt_top := List.forall_mem_map.mpr fun p hp => (h.names p hp).1
  futures_nodup := by
    have hfutures : (ps.map c.tasks.number).map (fun t => (c.toExecutor.tasks t).future)
        = (ps.map fun p => c.field p 0).map c.futures.number := by
      rw [List.map_map, List.map_map]
      refine List.map_congr_left fun p hp => ?_
      show c.futures.number (c.field (c.tasks.addr (c.tasks.number p)) 0) = _
      rw [(h.names p hp).2]
      rfl
    rw [hfutures]
    refine h.futures_nodup.map_on fun x hx y hy heq => ?_
    obtain ⟨p, hp, rfl⟩ := List.mem_map.mp hx
    obtain ⟨q, hq, rfl⟩ := List.mem_map.mp hy
    rw [← (h.future_names hp).2, heq, (h.future_names hq).2]

end Queue

/-! ### Concrete queues -/

section Decidable

variable {c : HeapExecutor}

instance (n : Numbering) (p : UInt32) : Decidable (n.Names p) :=
  inferInstanceAs (Decidable (n.number p < n.top ∧ n.addr (n.number p) = p))

instance : DecidablePred c.Latest
  | .task _ | .future _ | .waker _ => inferInstanceAs (Decidable (_ = _))

instance : DecidablePred c.Created
  | .task _ | .future _ | .waker _ => inferInstanceAs (Decidable (_ < _))

instance : DecidablePred c.Live := fun _ => inferInstanceAs (Decidable (_ ∧ _))

instance (ps : List UInt32) : Decidable (c.links.Holds ps) := Chain.decidable ..

instance (ps : List UInt32) : Decidable (Queue c ps) :=
  decidable_of_iff (c.memory.Sound ∧ c.trace = []
      ∧ (∀ b ∈ c.blocks, c.memory.Owns (c.addr b) (4 * b.words)) ∧ (c.blocks.map c.addr).Nodup
      ∧ (∀ b ∈ c.blocks, c.Latest b)
      ∧ (∀ t < c.tasks.top, c.futures.Names (c.field (c.tasks.addr t) 0))
      ∧ (∀ t < c.tasks.top,
          c.field (c.tasks.addr t) 4 = 0 ∨ c.tasks.Names (c.field (c.tasks.addr t) 4))
      ∧ (∀ f < c.futures.top, (futureVTable? (c.field (c.futures.addr f) 0)).isSome)
      ∧ (∀ f < c.futures.top,
          c.field (c.futures.addr f) 8 = 0 ∨ c.wakers.Names (c.field (c.futures.addr f) 8))
      ∧ (∀ f < c.futures.top, ∀ g < c.futures.top, c.field (c.futures.addr f) 8 ≠ 0 →
          c.field (c.futures.addr f) 8 = c.field (c.futures.addr g) 8 → f = g)
      ∧ c.links.Holds ps ∧ (∀ p ∈ ps, c.tasks.Names p) ∧ (ps.map fun p => c.field p 0).Nodup)
    ⟨fun ⟨h1, h2, h3, h4, h5, h6, h7, h8, h9, h10, h11, h12, h13⟩ =>
      ⟨h1, h2, h3, h4, h5, h6, h7, h8, h9, h10, h11, h12, h13⟩,
      fun h => ⟨h.sound, h.trace, h.owns, h.distinct, h.latest, h.future, h.next, h.vtable, h.waker,
        h.waker_inj, h.holds, h.names, h.futures_nodup⟩⟩

instance (future : UInt32) : Decidable (c.SpawnServed future) :=
  decidable_of_iff (c.memory.Full 8 ∨ c.memory.Clear 8 ∧ ∀ r ∈ c.memory.malloc 8,
      (r.1.setField r.2 0 future).Clear 12 ∨ (r.1.setField r.2 0 future).Full 12)
    (or_congr_right <| and_congr_right fun _ =>
      ⟨fun h m task hr => h (m, task) hr, fun h r hr => h r.1 r.2 hr⟩)

instance : DecidablePred c.Foreign := fun p =>
  decidable_of_iff (∀ b ∈ c.blocks, c.Live b → c.addr b ≠ p)
    (forall_congr' fun _ => ⟨fun h hb => h (Queue.mem_blocks.mpr hb.1) hb, fun h _ hb => h hb⟩)

instance : DecidablePred c.Safe
  | .malloc _ | .free _ | .write _ _ _ | .create _ _ | .spawn _ =>
    inferInstanceAs (Decidable (_ ∧ _))
  | .createSerialWrite _ _ => inferInstanceAs (Decidable (_ ∨ _))

instance (f : ℕ) : DecidablePred (c.WritesOwn f)
  | .write _ _ _ => inferInstanceAs (Decidable (_ ∧ _))
  | .malloc _ | .free _ | .create _ _ | .createSerialWrite _ _ | .spawn _ =>
    inferInstanceAs (Decidable False)

instance (f : ℕ) : DecidablePred (c.PollSafe f) := fun _ => inferInstanceAs (Decidable (_ ∨ _))

instance ActsMeet.decidable {P : HeapExecutor → Action → Prop} [∀ c, DecidablePred (P c)] :
    ∀ (c : HeapExecutor) (as : List Action), Decidable (c.ActsMeet P as)
  | _, [] => isTrue trivial
  | c, a :: as =>
    have : DecidablePred fun c' : HeapExecutor => c'.ActsMeet P as :=
      fun c' => ActsMeet.decidable c' as
    inferInstanceAs (Decidable (P c a ∧ ∀ c' ∈ c.act a, c'.ActsMeet P as))

instance (script : ℕ → PollScript) : DecidablePred (c.ScriptSafe script) := fun _ =>
  ActsMeet.decidable ..

instance Spawns.decidable : ∀ (c : HeapExecutor) (as : List Action), Decidable (c.Spawns as)
  | _, [] => isFalse nofun
  | c, a :: as =>
    have : DecidablePred fun c' : HeapExecutor => c'.Spawns as :=
      fun c' => Spawns.decidable c' as
    have : Decidable (∃ f, a = .spawn f) := match a with
      | .malloc _ | .free _ | .write _ _ _ | .create _ _ | .createSerialWrite _ _ =>
        isFalse nofun
      | .spawn f => isTrue ⟨f, rfl⟩
    decidable_of_iff (((∃ f, a = .spawn f) ∧ c.memory.Clear 8) ∨ ∃ c' ∈ c.act a, c'.Spawns as)
      Iff.rfl

instance LoopMeets.decidable {poll : PollFn} {P : HeapExecutor → PassLocals → Prop}
    [∀ c, DecidablePred (P c)] : ∀ (fuel : ℕ) (c : HeapExecutor) (l : PassLocals),
      Decidable (LoopMeets poll P fuel c l)
  | 0, _, _ => isTrue trivial
  | fuel + 1, c, l =>
    have : DecidablePred fun r : HeapExecutor × PassLocals => LoopMeets poll P fuel r.1 r.2 :=
      fun r => LoopMeets.decidable fuel r.1 r.2
    decidable_of_iff (l.current ≠ 0 → P c l ∧
        ∀ r ∈ c.visitTask poll l, LoopMeets poll P fuel r.1 r.2)
      (imp_congr_right fun _ => and_congr_right fun _ =>
        ⟨fun h c' l' hr => h (c', l') hr, fun h r hr => h r.1 r.2 hr⟩)

instance {poll : PollFn} {P : HeapExecutor → PassLocals → Prop} [∀ c, DecidablePred (P c)] :
    Decidable (c.PassMeets poll P) := LoopMeets.decidable ..

instance {poll : PollFn} {Ok : HeapExecutor → UInt32 → Prop} [∀ c, DecidablePred (Ok c)] :
    DecidablePred (c.VisitOk poll Ok) := fun task =>
  decidable_of_iff ((c.boolField (c.field task 0) 4 = false → Ok c (c.field task 0)) ∧
      (c.field (c.field task 0) 0 = FutureVTable.asyncRtcFuture.addr →
        ∀ r ∈ c.pollTask poll task, r.2 = false)) Iff.rfl

end Decidable

/-- The executor after some actions in an otherwise empty heap. -/
def after (as : List Action) : HeapExecutor :=
  ((boot emptyMemory).executorInit.acts as).getD (boot emptyMemory)

end HeapExecutor

end Shogun.Async
