import Mathlib.Data.UInt
import Shogun.Async.Equiv.HeapRun

/-!
# Serial writes deliver every byte once and in order

* `Refines.asyncSerialWritePoll`: what one poll does.
* `Delivers`: what the log says about every serial write future created so far; `Delivers.did`,
  `Delivers.poll`, `Delivers.settle`.
* `serialWrite_delivers`: the invariant spelled out, in every run whose blocks are clear.
-/

namespace Shogun.Async

open Memory

/-- The bytes at `data`. -/
def textAt (text : UInt32 → UInt8) (data : UInt32) (i : ℕ) : UInt8 := text (data + .ofNat i)

/-- The bytes of the first `n` indices. -/
def firstBytes (data : ℕ → UInt8) (n : ℕ) : List UInt8 := (List.range n).map data

theorem firstBytes_succ (data : ℕ → UInt8) (n : ℕ) :
    firstBytes data (n + 1) = firstBytes data n ++ [data n] := by
  unfold firstBytes
  rw [List.range_succ, List.map_append, List.map_singleton]

/-- The bytes that the polls wrote to the data port on behalf of a future, in order. -/
def bytesOf (polls : List PollRecord) (f : ℕ) : List UInt8 :=
  (polls.filter fun r => r.future == f).flatMap PollRecord.bytes

/-- A poll adds its bytes to those of its own future. -/
theorem bytesOf_append (polls : List PollRecord) (r : PollRecord) (f : ℕ) :
    bytesOf (polls ++ [r]) f = bytesOf polls f ++ if r.future = f then r.bytes else [] := by
  unfold bytesOf
  rw [List.filter_append, List.flatMap_append, List.filter_singleton]
  by_cases hrf : r.future = f
  · rw [if_pos hrf, beq_iff_eq.mpr hrf, cond_true, List.flatMap_singleton]
  · rw [if_neg hrf, beq_eq_false_iff_ne.mpr hrf, cond_false, List.flatMap_nil]

/-! ### One poll -/

/-- What a poll `r` does of a future with `len` bytes at `data` that has written `written` of
them, when the port answers `lineStatus`. -/
structure PollSpec (text : UInt32 → UInt8) (lineStatus : UInt8) (data len written : UInt32)
    (r : PollRecord) : Prop where
  written_le : r.written ≤ len
  progress : r.written.toNat
    = min (written.toNat + if serialIsTransmitEmpty lineStatus then 1 else 0) len.toNat
  bytes : firstBytes (textAt text data) r.written.toNat
    = firstBytes (textAt text data) written.toNat ++ r.bytes
  length_bytes : r.bytes.length ≤ 1
  reads : ∀ i ∈ r.reads, i < len.toNat
  ready : r.state = .ready ↔ r.written = len

namespace HeapExecutor

variable {σ σ' : Blocks} {pay pay' : ℕ → List UInt32} {c c' : HeapExecutor} {s s' : Executor}
  {text : UInt32 → UInt8} {data len written : UInt32} {f : ℕ}

/-- The poll `r` is added to the log. -/
def addPoll (c : HeapExecutor) (r : PollRecord) : HeapExecutor :=
  { c with log := { c.log with polls := c.log.polls ++ [r] } }

/-- The end of a poll. -/
theorem Refines.record (h : Refines σ pay c s) (hf : c.Live (.future f))
    (hpay : pay f = [data, len, written]) (reads : List ℕ) (bytes : List UInt8)
    (state : FutureState) :
    c.record (c.futures.addr f) reads bytes state
      = (c.addPoll ⟨f, reads, bytes, state, written⟩, state) := by
  have hwritten : c.field (c.futures.addr f) 20 = written :=
    h.payload hf (i := 2) rfl (by rw [hpay]; rfl)
  have hnumber : c.futures.number (c.futures.addr f) = f := h.latest _ hf
  rw [HeapExecutor.record, hwritten, hnumber]
  rfl

/-- What one poll does. -/
theorem Refines.asyncSerialWritePoll (h : Refines σ pay c s) (text : UInt32 → UInt8)
    (hf : c.Live (.future f))
    (hpay : pay f = [data, len, written]) (hle : written ≤ len) (lineStatus : UInt8) :
    ∃ m σ' r, HeapExecutor.asyncSerialWritePoll text lineStatus c (c.futures.addr f)
        = (addPoll { c with memory := m } r, r.state) ∧
      Refines σ' (Function.update pay f [data, len, r.written])
        (addPoll { c with memory := m } r) s ∧
      r.future = f ∧ PollSpec text lineStatus data len written r := by
  have hdata : c.field (c.futures.addr f) 12 = data := h.payload hf (i := 0) rfl (by rw [hpay]; rfl)
  have hlen : c.field (c.futures.addr f) 16 = len := h.payload hf (i := 1) rfl (by rw [hpay]; rfl)
  have hwritten : c.field (c.futures.addr f) 20 = written :=
    h.payload hf (i := 2) rfl (by rw [hpay]; rfl)
  have hself : Function.update pay f [data, len, written] = pay := by
    rw [← hpay, Function.update_eq_self]
  rw [UInt32.le_iff_toNat_le] at hle
  rw [HeapExecutor.asyncSerialWritePoll, hdata, hlen, hwritten]
  by_cases hleft : written < len
  · rw [if_pos hleft]
    rw [UInt32.lt_iff_toNat_lt] at hleft
    by_cases hempty : serialIsTransmitEmpty lineStatus = true
    · rw [if_pos hempty]
      -- the count does not wrap, as it stays below the length
      have hnext : (written + 1).toNat = written.toNat + 1 := by
        have := len.toNat_lt
        rw [UInt32.toNat_add, show (1 : UInt32).toNat = 1 from rfl]
        omega
      have hbytes : firstBytes (textAt text data) (written + 1).toNat
          = firstBytes (textAt text data) written.toNat ++ writeSerial (text (data + written)) := by
        rw [hnext, firstBytes_succ, textAt, UInt32.ofNat_toNat, writeSerial]
      have hreads : ∀ i ∈ [written.toNat], i < len.toNat := by
        intro i hi
        rw [List.mem_singleton.mp hi]
        exact hleft
      have hle' : written + 1 ≤ len := by
        rw [UInt32.le_iff_toNat_le, hnext]
        exact hleft
      obtain ⟨σ', h'⟩ := h.setPayload hf (k := 20) (i := 2) rfl (by simp [hpay]) (written + 1)
      rw [hpay] at h'
      have hpay' : Function.update pay f [data, len, written + 1] f = [data, len, written + 1] :=
        Function.update_self ..
      have hlen' : (c.setField (c.futures.addr f) 20 (written + 1)).field (c.futures.addr f) 16
          = len := h'.payload hf (i := 1) rfl (congrArg (·[1]?) hpay')
      have hwritten' : (c.setField (c.futures.addr f) 20 (written + 1)).field (c.futures.addr f) 20
          = written + 1 := h'.payload hf (i := 2) rfl (congrArg (·[2]?) hpay')
      have hrecord := h'.record (f := f) hf hpay'
      have hprogress : (written + 1).toNat
          = min (written.toNat + if serialIsTransmitEmpty lineStatus then 1 else 0) len.toNat := by
        rw [hnext, if_pos hempty, Nat.min_eq_left hleft]
      -- the poll answers by the count after its byte
      dsimp only
      rw [hlen', hwritten']
      by_cases hmore : written + 1 < len
      · rw [if_pos hmore]
        refine ⟨_, σ', ⟨f, _, _, .pending, written + 1⟩, hrecord _ _ _, h'.setLog _, rfl,
          ⟨hle', hprogress, hbytes, Nat.le_refl 1, hreads, ?_⟩⟩
        exact ⟨nofun, fun heq => absurd heq (UInt32.ne_of_lt hmore)⟩
      · rw [if_neg hmore]
        refine ⟨_, σ', ⟨f, _, _, .ready, written + 1⟩, hrecord _ _ _, h'.setLog _, rfl,
          ⟨hle', hprogress, hbytes, Nat.le_refl 1, hreads, ?_⟩⟩
        exact ⟨fun _ => UInt32.le_antisymm hle' (UInt32.not_lt.mp hmore), fun _ => rfl⟩
    · -- the transmitter is busy: nothing is written, and something is left
      rw [if_neg hempty]
      refine ⟨c.memory, σ, ⟨f, [], [], .pending, written⟩, h.record hf hpay .., ?_, rfl,
        ⟨UInt32.le_iff_toNat_le.mpr hle, ?_, (List.append_nil _).symm, Nat.zero_le 1, nofun, nofun,
          ?_⟩⟩
      · rw [hself]
        exact h.setLog _
      · rw [if_neg hempty, Nat.add_zero, Nat.min_eq_left hle]
      · intro heq
        rw [show written = len from heq] at hleft
        exact absurd hleft (Nat.lt_irrefl _)
  · rw [if_neg hleft]
    -- all was written before, or there was nothing to write
    have hall : written = len :=
      UInt32.le_antisymm (UInt32.le_iff_toNat_le.mpr hle) (UInt32.not_lt.mp hleft)
    refine ⟨c.memory, σ, ⟨f, [], [], .ready, written⟩, h.record hf hpay .., ?_, rfl,
      ⟨UInt32.le_iff_toNat_le.mpr hle, ?_, (List.append_nil _).symm, Nat.zero_le 1, nofun,
        fun _ => hall, fun _ => rfl⟩⟩
    · rw [hself]
      exact h.setLog _
    · rw [hall, Nat.min_eq_right (Nat.le_add_right _ _)]

/-! ### The invariant -/

/-- The poll `r` was one of the future `w` as it should be, after the polls `l`. -/
structure PolledWell (text : UInt32 → UInt8) (w : SerialWrite) (l : List PollRecord)
    (r : PollRecord) : Prop where
  written_le : r.written ≤ w.len
  bytes : bytesOf (l ++ [r]) w.future = firstBytes (textAt text w.data) r.written.toNat
  length_bytes : r.bytes.length ≤ 1
  reads : ∀ i ∈ r.reads, i < w.len.toNat
  ready : r.state = .ready ↔ r.written = w.len

structure Delivers (text : UInt32 → UInt8) (pay : ℕ → List UInt32) (c : HeapExecutor)
    (s : Executor) : Prop where
  sent : ∀ w ∈ c.log.created, ∃ written, written ≤ w.len ∧
    bytesOf c.log.polls w.future = firstBytes (textAt text w.data) written.toNat ∧
    (c.Live (.future w.future) → pay w.future = [w.data, w.len, written])
  polled : ∀ w ∈ c.log.created, ∀ l r, l ++ [r] <+: c.log.polls → r.future = w.future →
    PolledWell text w l r
  created_lt : ∀ w ∈ c.log.created, w.future < c.futures.top
  polls_lt : ∀ r ∈ c.log.polls, r.future < c.futures.top
  serial : ∀ f < c.futures.top,
    (s.futures f).vtable = .asyncSerialWrite ↔ ∃ w ∈ c.log.created, w.future = f

/-- The action creates a serial write future by `async_serial_write_create` alone. -/
def CreatesOther (a : Action) : Prop := ∀ size, a ≠ .create .asyncSerialWrite size

namespace Delivers

variable {a : Action} {calls : List SpawnCall} {own : Set ℕ} {gone : Set Block}

/-- The futures there were are left alone. -/
theorem same (h : Delivers text pay c s) (htop : c'.futures.top = c.futures.top)
    (hlog : c'.log = c.log)
    (hlive : ∀ f < c.futures.top, c'.Live (.future f) → c.Live (.future f))
    (hpay : ∀ w ∈ c.log.created, pay' w.future = pay w.future)
    (hvtable : ∀ f < c.futures.top, (s'.futures f).vtable = (s.futures f).vtable) :
    Delivers text pay' c' s' where
  sent := by
    rw [hlog]
    intro w hw
    obtain ⟨written, hle, hbytes, hlive'⟩ := h.sent w hw
    exact ⟨written, hle, hbytes, fun hf =>
      (hpay w hw).trans (hlive' (hlive _ (h.created_lt w hw) hf))⟩
  polled := by
    rw [hlog]
    exact h.polled
  created_lt := by
    rw [hlog, htop]
    exact h.created_lt
  polls_lt := by
    rw [hlog, htop]
    exact h.polls_lt
  serial := by
    rw [hlog, htop]
    intro f hf
    rw [hvtable f hf]
    exact h.serial f hf

theorem settle (h : Delivers text pay c s) (hset : Settled c s gone c' s') :
    Delivers text pay c' s' :=
  h.same (congrArg Numbering.top hset.futures) hset.log
    (fun f _ hf => ((hset.future f).mp hf).1)
    (fun _ _ => rfl) fun f _ => hset.vtable f

/-- Nothing has been written for a block that was not handed out yet. -/
theorem bytesOf_top (h : Delivers text pay c s) : bytesOf c.log.polls c.futures.top = [] := by
  unfold bytesOf
  rw [List.filter_eq_nil_iff.mpr, List.flatMap_nil]
  intro r hr
  rw [beq_iff_eq]
  exact Nat.ne_of_lt (h.polls_lt r hr)

/-- There is one more future, which is a serial write if it is among `new`. -/
theorem grow (h : Delivers text pay c s) (htop : c'.futures.top = c.futures.top + 1)
    (new : List SerialWrite)
    (hlog : c'.log = { c.log with created := c.log.created ++ new })
    (hnew : ∀ w ∈ new, w.future = c.futures.top ∧ pay' c.futures.top = [w.data, w.len, 0])
    (hserial : (s'.futures c.futures.top).vtable = .asyncSerialWrite ↔ new ≠ [])
    (hlive : ∀ f < c.futures.top, c'.Live (.future f) → c.Live (.future f))
    (hpay : ∀ w ∈ c.log.created, pay' w.future = pay w.future)
    (hvtable : ∀ f < c.futures.top, (s'.futures f).vtable = (s.futures f).vtable) :
    Delivers text pay' c' s' where
  sent := by
    rw [hlog]
    intro w hw
    rcases List.mem_append.mp hw with hw | hw
    · obtain ⟨written, hle, hbytes, hlive'⟩ := h.sent w hw
      exact ⟨written, hle, hbytes, fun hf =>
        (hpay w hw).trans (hlive' (hlive _ (h.created_lt w hw) hf))⟩
    · -- the new future has written nothing
      obtain ⟨hf, hp⟩ := hnew w hw
      rw [hf]
      exact ⟨0, UInt32.zero_le, h.bytesOf_top, fun _ => hp⟩
  polled := by
    rw [hlog]
    intro w hw l r hl hr
    rcases List.mem_append.mp hw with hw | hw
    · exact h.polled w hw l r hl hr
    · -- no poll so far is of the new future
      have hmem : r ∈ c.log.polls := hl.subset (List.mem_append_right _ List.mem_cons_self)
      rw [(hnew w hw).1] at hr
      exact absurd hr (Nat.ne_of_lt (h.polls_lt r hmem))
  created_lt := by
    rw [hlog, htop]
    intro w hw
    rcases List.mem_append.mp hw with hw | hw
    · exact Nat.lt_succ_of_lt (h.created_lt w hw)
    · rw [(hnew w hw).1]
      exact Nat.lt_succ_self _
  polls_lt := by
    rw [hlog, htop]
    exact fun r hr => Nat.lt_succ_of_lt (h.polls_lt r hr)
  serial := by
    rw [hlog, htop]
    intro f hf
    rcases Nat.lt_succ_iff_lt_or_eq.mp hf with hf | rfl
    · rw [hvtable f hf, h.serial f hf]
      constructor
      · rintro ⟨w, hw, rfl⟩
        exact ⟨w, List.mem_append_left _ hw, rfl⟩
      · rintro ⟨w, hw, rfl⟩
        rcases List.mem_append.mp hw with hw | hw
        · exact ⟨w, hw, rfl⟩
        · exact absurd (hnew w hw).1 (Nat.ne_of_lt hf)
    · rw [hserial]
      constructor
      · intro hne
        obtain ⟨w, hw⟩ := List.exists_mem_of_ne_nil new hne
        exact ⟨w, List.mem_append_right _ hw, (hnew w hw).1⟩
      · rintro ⟨w, hw, hwf⟩ rfl
        rw [List.append_nil] at hw
        exact absurd hwf (Nat.ne_of_lt (h.created_lt w hw))

/-- An action. -/
theorem did (h : Delivers text pay c s) (hdid : Did own pay c s a calls pay' c' s')
    (hother : CreatesOther a) (hown : ∀ w ∈ c.log.created, w.future ∉ own) :
    Delivers text pay' c' s' := by
  have hlive : ∀ f < c.futures.top, c'.Live (.future f) → c.Live (.future f) := fun f hf hl =>
    ⟨hf, hdid.acted.grows.trace ▸ hl.2⟩
  have hpay : ∀ w ∈ c.log.created, pay' w.future = pay w.future := fun w hw =>
    hdid.pay _ (h.created_lt w hw) (hown w hw)
  have hvtable : ∀ f < c.futures.top, (s'.futures f).vtable = (s.futures f).vtable := by
    intro f hf
    rw [hdid.acted.agree.future hf, foldl_executorSpawn_vtable]
  cases hdid.makes with
  | none htop hlog => exact h.same htop hlog hlive hpay hvtable
  | @create vtable size htop hv hlog =>
    refine h.grow htop [] (by rw [List.append_nil, hlog]) nofun ?_ hlive hpay hvtable
    refine ⟨fun heq => ?_, fun hn => absurd rfl hn⟩
    exact absurd (by rw [← hv, heq]) (hother size)
  | serial htop hv hp hlog =>
    refine h.grow htop [_] hlog ?_ ⟨fun _ => List.cons_ne_nil _ _, fun _ => hv⟩ hlive hpay hvtable
    simpa using hp

/-- A poll of a serial write future. -/
theorem poll (h : Delivers text pay c s) (hf : c.Live (.future f)) {m : HeapState} {r : PollRecord}
    (hr : r.future = f) (hpay : pay f = [data, len, written])
    {lineStatus : UInt8} (hspec : PollSpec text lineStatus data len written r) :
    Delivers text (Function.update pay f [data, len, r.written])
      (addPoll { c with memory := m } r) s where
  sent := by
    intro w hw
    obtain ⟨n, hle, hbytes, hlive⟩ := h.sent w hw
    by_cases hwf : w.future = f
    · -- a poll of the block is a poll of the future created there
      obtain ⟨rfl, rfl, rfl⟩ : w.data = data ∧ w.len = len ∧ n = written := by
        have hwp := hlive (hwf ▸ hf)
        rw [hwf, hpay] at hwp
        simpa [eq_comm] using hwp
      refine ⟨r.written, hspec.written_le, ?_, fun _ => ?_⟩
      · show bytesOf (c.log.polls ++ [r]) w.future = _
        rw [bytesOf_append, if_pos (hr.trans hwf.symm), hbytes, hspec.bytes]
      · rw [hwf, Function.update_self]
    · refine ⟨n, hle, ?_, fun hl => ?_⟩
      · show bytesOf (c.log.polls ++ [r]) w.future = _
        rw [bytesOf_append, if_neg fun heq => hwf (heq.symm.trans hr), List.append_nil, hbytes]
      · rw [Function.update_of_ne hwf]
        exact hlive hl
  polled := by
    intro w hw l q hl hq
    rcases List.prefix_concat_iff.mp hl with heq | hl
    · -- the poll is this one
      obtain ⟨rfl, hqr⟩ := List.append_inj' heq rfl
      obtain rfl : q = r := List.singleton_inj.mp hqr
      obtain ⟨n, hle, hbytes, hlive⟩ := h.sent w hw
      have hwf : w.future = f := hq.symm.trans hr
      obtain ⟨rfl, rfl, rfl⟩ : w.data = data ∧ w.len = len ∧ n = written := by
        have hwp := hlive (hwf ▸ hf)
        rw [hwf, hpay] at hwp
        simpa [eq_comm] using hwp
      refine ⟨hspec.written_le, ?_, hspec.length_bytes, hspec.reads, hspec.ready⟩
      rw [bytesOf_append, if_pos hq, hbytes, hspec.bytes]
    · exact h.polled w hw l q hl hq
  created_lt := h.created_lt
  polls_lt := by
    intro q hq
    rcases List.mem_append.mp hq with hq | hq
    · exact h.polls_lt q hq
    · rw [List.mem_singleton.mp hq, hr]
      exact hf.1
  serial := h.serial

end Delivers

/-! ### Runs -/

/-- What a poll of another future needs. -/
def OtherOk (script : ℕ → PollScript) (c : HeapExecutor) (p : UInt32) : Prop :=
  futureVTable? (c.field p 0) ≠ some .asyncSerialWrite →
    c.ActsMeet (fun c' a => c'.PollSafe (c.futures.number p) a ∧ c'.QueuesNew a ∧ CreatesOther a)
      (script (c.futures.number p)).actions

/-- What a step of a run needs. -/
def SerialStepOk (text : UInt32 → UInt8) (c : HeapExecutor) : RunOp PassScript → Prop
  | .act a => c.Safe a ∧ c.QueuesNew a ∧ CreatesOther a
  | .pass x => c.PassMeets (vtablePoll text x) fun c l =>
    c.VisitOk (vtablePoll text x) (OtherOk x.script) l.current

/-- What a poll of the future `f`, which is no serial write, keeps. -/
structure KeepsOther (text : UInt32 → UInt8) (f : ℕ) (pay : ℕ → List UInt32) (c : HeapExecutor)
    (s : Executor) : Prop where
  inv : TaskInv c s
  delivers : Delivers text pay c s
  lt_top : f < c.futures.top
  vtable : (s.futures f).vtable ≠ .asyncSerialWrite

theorem KeepsOther.did {a : Action} {calls : List SpawnCall} (h : KeepsOther text f pay c s)
    (hr : Refines σ pay c s) (hr' : Refines σ' pay' c' s')
    (hdid : Did {f} pay c s a calls pay' c' s') (hnew : c.QueuesNew a) (hother : CreatesOther a) :
    KeepsOther text f pay' c' s' where
  inv := h.inv.did hr hr' hdid hnew
  delivers := by
    refine h.delivers.did hdid hother ?_
    rintro w hw rfl
    exact h.vtable ((h.delivers.serial _ h.lt_top).mpr ⟨w, hw, rfl⟩)
  lt_top := h.lt_top.trans_le hdid.acted.grows.futures.top_le
  vtable := by
    rw [hdid.acted.agree.future h.lt_top, foldl_executorSpawn_vtable]
    exact h.vtable

theorem rule_vtablePoll (text : UInt32 → UInt8) (x : PassScript) :
    Rule (vtablePoll text x) (OtherOk x.script)
      (fun _ pay c s => TaskInv c s ∧ Delivers text pay c s) (fun _ _ => True) where
  poll := by
    rintro A σ pay c s f h ⟨hinv, hj⟩ - hf _ hok
    have hvtable : futureVTable? (c.field (c.futures.addr f) 0) = some (s.futures f).vtable := by
      rw [h.vtable hf, Refines.futureVTable?_addr]
    rw [OtherOk, hvtable, h.number_future hf] at hok
    by_cases hserial : (s.futures f).vtable = .asyncSerialWrite
    · obtain ⟨w, hw, rfl⟩ := (hj.serial f hf.1).mp hserial
      obtain ⟨n, hle, -, hlive⟩ := hj.sent w hw
      obtain ⟨m, σ', r, hcode, h', hr, hspec⟩ := h.asyncSerialWritePoll text hf (hlive hf) hle
        (x.lineStatus w.future)
      refine ⟨⟨[], r.state⟩, _, σ', _, s, ?_, h', ⟨⟨.refl _, .refl _, .refl _, rfl⟩, .refl _ s⟩,
        ⟨⟨hinv.future, hinv.inj⟩, hj.poll hf hr (hlive hf) hspec⟩, trivial⟩
      rw [vtablePoll, hvtable, hserial, if_pos rfl, h.number_future hf, hcode]
    · -- another kind of future is polled
      have hne : some (s.futures f).vtable ≠ some .asyncSerialWrite := fun heq =>
        hserial (Option.some.inj heq)
      obtain ⟨c', σ', pay', s', calls, hcode, h', hacted, hj', -⟩ :=
        h.scriptedPoll (J := KeepsOther text f) x.script (fun _ _ ha => ha.1)
          (fun hr hr' _ ha hdid hj => hj.did hr hr' hdid ha.2.1 ha.2.2) hf
          ⟨hinv, hj, hf.1, hserial⟩ (hok hne)
      refine ⟨⟨calls, (x.script f).state⟩, c', σ', pay', s', ?_, h', hacted,
        ⟨hj'.inv, hj'.delivers⟩, trivial⟩
      rw [vtablePoll, hvtable, if_neg hne, hcode]
  settle := fun ⟨hinv, hj⟩ hset hgone => ⟨hinv.settle hset hgone, hj.settle hset⟩

/-- A run keeps what was delivered. -/
theorem Delivers.run {ts : List ℕ} (h : Holding σ pay c s ts) (hj : Delivers text pay c s)
    (ops : List (RunOp PassScript)) (hok : c.RunMeets (vtablePoll text) (SerialStepOk text) ops) :
    ∃ c' σ' pay' s' ts', c.run (vtablePoll text) ops = some c' ∧ Holding σ' pay' c' s' ts' ∧
      Delivers text pay' c' s' := by
  induction ops generalizing σ pay c s ts with
  | nil => exact ⟨c, σ, pay, s, ts, rfl, h, hj⟩
  | cons op ops ih =>
    obtain ⟨hop, hrest⟩ := hok
    have hnext : ∃ c₁ σ₁ pay₁ s₁ ts₁, c.runStep (vtablePoll text) op = some c₁ ∧
        Holding σ₁ pay₁ c₁ s₁ ts₁ ∧ Delivers text pay₁ c₁ s₁ := by
      cases op with
      | act a =>
        obtain ⟨ha, hnew, hother⟩ := hop
        obtain ⟨c₁, σ₁, pay₁, s₁, calls, hcode, hdid, h₁⟩ := h.act ha hnew
        exact ⟨c₁, σ₁, pay₁, s₁, _, hcode, h₁, hj.did hdid hother fun _ _ => Set.notMem_empty _⟩
      | pass x =>
        obtain ⟨answer, c₁, r, σ₁, pay₁, s₁, s₀, hcode, -, -, hj₁, -, -, -, h₁⟩ :=
          h.pass (A := Set.univ) (rule_vtablePoll text x) And.left ⟨h.inv, hj⟩
            (fun _ _ => Set.mem_univ _) hop
        exact ⟨c₁, σ₁, pay₁, s₁, _, congrArg (Option.map Prod.fst) hcode, h₁, hj₁.2⟩
    obtain ⟨c₁, σ₁, pay₁, s₁, ts₁, hcode, h₁, hj₁⟩ := hnext
    obtain ⟨c', σ', pay', s', ts', hrun, h'⟩ := ih h₁ hj₁ (hrest c₁ hcode)
    refine ⟨c', σ', pay', s', ts', ?_, h'⟩
    rw [HeapExecutor.run, hcode]
    exact hrun

/-- The future `w` delivers its data: what was written to the data port for it is the part before
`written`, which is at most its length, and so it was after each of its polls, which read below the
length, wrote at most one byte, and answered `FUTURE_READY` exactly if all was written then. -/
structure Delivered (text : UInt32 → UInt8) (c : HeapExecutor) (w : SerialWrite) : Prop where
  sent : ∃ written, written ≤ w.len ∧
    bytesOf c.log.polls w.future = (List.range written.toNat).map (textAt text w.data) ∧
    (c.Live (.future w.future) → c.field (c.futures.addr w.future) 12 = w.data ∧
      c.field (c.futures.addr w.future) 16 = w.len ∧
      c.field (c.futures.addr w.future) 20 = written)
  polled : ∀ l r, l ++ [r] <+: c.log.polls → r.future = w.future → PolledWell text w l r

theorem Delivers.delivered (h : Refines σ pay c s) (hj : Delivers text pay c s) {w : SerialWrite}
    (hw : w ∈ c.log.created) : Delivered text c w where
  sent := by
    obtain ⟨written, hle, hbytes, hlive⟩ := hj.sent w hw
    refine ⟨written, hle, hbytes, fun hf => ?_⟩
    have hpay := hlive hf
    exact ⟨h.payload hf (i := 0) rfl (congrArg (·[0]?) hpay),
      h.payload hf (i := 1) rfl (congrArg (·[1]?) hpay),
      h.payload hf (i := 2) rfl (congrArg (·[2]?) hpay)⟩
  polled := hj.polled w hw

instance (a : Action) : Decidable (CreatesOther a) := match a with
  | .create vtable size => decidable_of_iff (vtable ≠ .asyncSerialWrite)
      ⟨fun h _ heq => h (Action.create.inj heq).1, fun h heq => h size (heq ▸ rfl)⟩
  | .malloc _ | .free _ | .write _ _ _ | .createSerialWrite _ _ | .spawn _ => isTrue nofun

instance (script : ℕ → PollScript) (c : HeapExecutor) : DecidablePred (c.OtherOk script) :=
  fun _ => inferInstanceAs (Decidable (_ ≠ _ → _))

instance (text : UInt32 → UInt8) (c : HeapExecutor) : DecidablePred (c.SerialStepOk text)
  | .act _ => inferInstanceAs (Decidable (_ ∧ _ ∧ _))
  | .pass _ => inferInstanceAs (Decidable (c.PassMeets _ _))

end HeapExecutor

open HeapExecutor

/-- **Serial writes deliver every byte once and in order**, in every run whose blocks are clear,
that queues no future twice and removes no RTC future. -/
theorem serialWrite_delivers {m : HeapState} (hm : m.Sound) (text : UInt32 → UInt8)
    (ops : List (RunOp PassScript))
    (hok : (boot m).executorInit.RunMeets (vtablePoll text) (SerialStepOk text) ops) :
    ∃ c, (boot m).executorInit.run (vtablePoll text) ops = some c ∧
      ∀ w ∈ c.log.created, Delivered text c w := by
  have hinit : Delivers text (fun _ => []) (boot m).executorInit
      (Async.executorInit Holding.noBlocks) :=
    ⟨nofun, nofun, nofun, nofun, fun f hf => absurd hf (Nat.not_lt_zero f)⟩
  obtain ⟨c, σ, pay, s, ts, hcode, h, hj⟩ := Delivers.run (.init hm) hinit ops hok
  exact ⟨c, hcode, fun w hw => hj.delivered h.refines hw⟩

/-- Two serial writes beside a sleep whose poll creates and queues another future; the transmitter
is busy in the second pass. -/
def HeapExecutor.writesAndSleep : List (RunOp PassScript) :=
  [.act (.createSerialWrite 100 2), .act (.spawn 0), .act (.createSerialWrite 200 0),
    .act (.spawn 1), .act (.create .sleepFuture 16), .act (.spawn 2),
    .pass ⟨fun _ => 0x60, fun _ => ⟨[.createSerialWrite 300 1, .spawn 3], .pending⟩⟩,
    .pass ⟨fun _ => 0x20, fun _ => ⟨[], .ready⟩⟩, .pass ⟨fun _ => 0x60, fun _ => ⟨[], .ready⟩⟩]

theorem serialWrite_delivers_writesAndSleep :
    ∃ c, (boot emptyMemory).executorInit.run (vtablePoll UInt32.toUInt8) writesAndSleep = some c ∧
      ∀ w ∈ c.log.created, Delivered UInt32.toUInt8 c w :=
  serialWrite_delivers (by decide +kernel) UInt32.toUInt8 writesAndSleep (by decide +kernel)

/-- Those writes are done after the run. -/
example : ((boot emptyMemory).executorInit.run (vtablePoll UInt32.toUInt8) writesAndSleep).map
    (fun c => [bytesOf c.log.polls 0, bytesOf c.log.polls 1, bytesOf c.log.polls 3])
      = some [[100, 101], [], [44]] := by
  decide +kernel

/-- Three serial writes in a nearly full heap; the transmitter is always ready. -/
def HeapExecutor.reusingRun : List (RunOp PassScript) :=
  let pass : PassScript := ⟨fun _ => 0x60, fun _ => ⟨[], .pending⟩⟩
  [.act (.malloc 860), .act (.createSerialWrite 100 2), .act (.spawn 0),
    .act (.createSerialWrite 100 0), .act (.spawn 1), .pass pass,
    .act (.createSerialWrite 100 20), .act (.spawn 2), .pass pass, .pass pass]

/-- The last future gets a block that ends in the header of a free segment,
whose size word is its `written`: when the blocks of the first are freed, it becomes more than the
length, and the next poll answers `FUTURE_READY` after one of twenty bytes. -/
theorem not_delivered_nearlyFull :
    ∃ c, (boot emptyMemory).executorInit.run (vtablePoll UInt32.toUInt8)
        reusingRun = some c
      ∧ ⟨2, 100, 20⟩ ∈ c.log.created ∧ bytesOf c.log.polls 2 = [100]
      ∧ c.log.polls.getLast? = some ⟨2, [], [], .ready, 0xFFFFFFFD⟩
      ∧ ¬ Delivered UInt32.toUInt8 c ⟨2, 100, 20⟩ := by
  have hcode : ((boot emptyMemory).executorInit.run (vtablePoll UInt32.toUInt8)
        reusingRun).map
      (fun c => (decide (⟨2, 100, 20⟩ ∈ c.log.created), bytesOf c.log.polls 2,
        c.log.polls.getLast?))
      = some (true, [100], some ⟨2, [], [], .ready, 0xFFFFFFFD⟩) := by
    decide +kernel
  obtain ⟨c, hcode, hend⟩ := Option.map_eq_some_iff.mp hcode
  obtain ⟨hmem, hend⟩ := Prod.mk.inj hend
  obtain ⟨hbytes, hlast⟩ := Prod.mk.inj hend
  refine ⟨c, hcode, of_decide_eq_true hmem, hbytes, hlast, fun h => ?_⟩
  obtain ⟨l, hl⟩ := List.getLast?_eq_some_iff.mp hlast
  have hprefix : l ++ [⟨2, [], [], .ready, 0xFFFFFFFD⟩] <+: c.log.polls := by rw [hl]
  have hready := (h.polled l _ hprefix rfl).ready.mp rfl
  exact absurd hready (by decide)

end Shogun.Async
