import Shogun.Async.Equiv.HeapPass
import Shogun.Async.HeapRun

/-!
# Actions in the heap

What a poll function, or what runs between two passes, does to the heap, as an effect on the
abstract executor.

* `Safe`: what an action needs; the blocks it gets are clear, or it gets none.
* `Refines.act`: a safe action.
* `Refines.acts`, `Refines.scriptedPoll`: the actions of a poll, and the invariants they keep.
-/

namespace Shogun.Async

open Memory Memory.HeapState

namespace HeapExecutor

/-! ### What an action needs -/

/-- The block at `p` is none of the executor's. -/
def Foreign (c : HeapExecutor) (p : UInt32) : Prop := ∀ b, c.Live b → c.addr b ≠ p

/-- The blocks that an action gets are clear, or it gets none; what it frees or writes is none of
the executor's; and the future it queues is in use. -/
def Safe (c : HeapExecutor) : Action → Prop
  | .malloc size =>
    4 ≤ size.toNat ∧ size.toNat < 2 ^ 31 ∧ (c.memory.Clear size ∨ c.memory.Full size)
  | .free p => p ∈ c.memory.live ∧ c.Foreign p
  | .write p k _ => k.toNat % 4 = 0 ∧ c.memory.Owns p (k.toNat + 4) ∧ c.Foreign p
  | .create _ size =>
    12 ≤ size.toNat ∧ size.toNat % 4 = 0 ∧ size.toNat < 2 ^ 31 ∧
      (c.memory.Clear size ∨ c.memory.Full size)
  | .createSerialWrite _ _ => c.memory.Clear 24 ∨ c.memory.Full 24
  | .spawn f => c.Live (.future f) ∧ c.SpawnServed (c.futures.addr f)

/-- The action writes a word of the future `f` behind its `base`. -/
def WritesOwn (c : HeapExecutor) (f : ℕ) : Action → Prop
  | .write p k _ => p = c.futures.addr f ∧ 12 ≤ k.toNat ∧ k.toNat % 4 = 0 ∧
    c.memory.Owns p (k.toNat + 4)
  | _ => False

/-- What an action of a poll of `f` needs. -/
def PollSafe (c : HeapExecutor) (f : ℕ) (a : Action) : Prop := c.Safe a ∨ c.WritesOwn f a

/-- `P` holds of every action, in the state in which it is taken. -/
def ActsMeet (P : HeapExecutor → Action → Prop) : HeapExecutor → List Action → Prop
  | _, [] => True
  | c, a :: as => P c a ∧ ∀ c', c.act a = some c' → ActsMeet P c' as

theorem ActsMeet.and {P : HeapExecutor → Action → Prop} {Q : Action → Prop} {as : List Action}
    {c : HeapExecutor} (h : c.ActsMeet P as) (hQ : ∀ a ∈ as, Q a) :
    c.ActsMeet (fun c a => P c a ∧ Q a) as := by
  induction as generalizing c with
  | nil => exact h
  | cons a as ih =>
    exact ⟨⟨h.1, hQ a List.mem_cons_self⟩,
      fun c' hcode => ih (h.2 c' hcode) fun b hb => hQ b (List.mem_cons_of_mem _ hb)⟩

/-- The future at `p` may be polled as the script says. -/
def ScriptSafe (script : ℕ → PollScript) (c : HeapExecutor) (p : UInt32) : Prop :=
  c.ActsMeet (fun c' a => c'.PollSafe (c.futures.number p) a) (script (c.futures.number p)).actions

/-! ### What an action does -/

/-- The calls of `executor_spawn` that an action is. -/
inductive Calls (c : HeapExecutor) : Action → List SpawnCall → Prop
  | none {a : Action} (ha : ∀ f, a ≠ .spawn f) : Calls c a []
  | spawn {call : SpawnCall} (hcall : call.taskAllocated = true ↔ c.memory.Clear 8) :
    Calls c (.spawn call.future) [call]

/-- The future that an action makes, and what the log has of it. -/
inductive Makes (c c' : HeapExecutor) (s' : Executor) (pay' : ℕ → List UInt32) : Action → Prop
  | none {a : Action} (htop : c'.futures.top = c.futures.top) (hlog : c'.log = c.log) :
    Makes c c' s' pay' a
  | create {vtable : FutureVTable} {size : UInt32} (htop : c'.futures.top = c.futures.top + 1)
    (hvtable : (s'.futures c.futures.top).vtable = vtable) (hlog : c'.log = c.log) :
    Makes c c' s' pay' (.create vtable size)
  | serial {data len : UInt32} (htop : c'.futures.top = c.futures.top + 1)
    (hvtable : (s'.futures c.futures.top).vtable = .asyncSerialWrite)
    (hpay : pay' c.futures.top = [data, len, 0])
    (hlog : c'.log
      = { c.log with created := c.log.created ++ [⟨c.futures.top, data, len⟩] }) :
    Makes c c' s' pay' (.createSerialWrite data len)

/-- What an action did; of the futures there were, it wrote at most to those in `own`. -/
structure Did (own : Set ℕ) (pay : ℕ → List UInt32) (c : HeapExecutor) (s : Executor) (a : Action)
    (calls : List SpawnCall) (pay' : ℕ → List UInt32) (c' : HeapExecutor) (s' : Executor) :
    Prop where
  acted : Acted c s calls c' s'
  calls : c.Calls a calls
  makes : c.Makes c' s' pay' a
  pay : ∀ f < c.futures.top, f ∉ own → pay' f = pay f

section Act

variable {σ : Blocks} {pay : ℕ → List UInt32} {c c' : HeapExecutor} {s : Executor} {f : ℕ}
  {a : Action} {own : Set ℕ}

theorem Did.mono {own' : Set ℕ} {calls : List SpawnCall} {pay' : ℕ → List UInt32} {s' : Executor}
    (h : Did own pay c s a calls pay' c' s') (hsub : own ⊆ own') :
    Did own' pay c s a calls pay' c' s' :=
  { h with pay := fun f hf hn => h.pay f hf fun hm => hn (hsub hm) }

/-- An action that the abstract executor does not see. -/
theorem Did.of_same (htasks : c'.tasks = c.tasks) (hfutures : c'.futures = c.futures)
    (hwakers : c'.wakers = c.wakers) (htrace : c'.trace = c.trace) (hlog : c'.log = c.log)
    (ha : ∀ f, a ≠ .spawn f) : Did own pay c s a [] pay c' s where
  acted := ⟨⟨htasks ▸ .refl _, hfutures ▸ .refl _, hwakers ▸ .refl _, htrace⟩, .refl _ s⟩
  calls := .none ha
  makes := .none (congrArg Numbering.top hfutures) hlog
  pay := fun _ _ _ => rfl

theorem ne_zero_of_le {size : UInt32} (h : 4 ≤ size.toNat) : size ≠ 0 := by
  rintro rfl
  exact absurd h (by decide)

/-- A future with another vtable is created. -/
theorem Refines.create (h : Refines σ pay c s) {vtable : FutureVTable} {size : UInt32}
    (ha : c.Safe (.create vtable size)) :
    ∃ c' σ' pay' s' calls, c.act (.create vtable size) = some c' ∧ Refines σ' pay' c' s' ∧
      Did own pay c s (.create vtable size) calls pay' c' s' := by
  obtain ⟨hlow, hmod, hlt, hc | hfull⟩ := ha
  · obtain ⟨c', σ', ws, hcode, -, h', he, htop, -, hlog, -⟩ :=
      h.newFuture vtable (n := size.toNat / 4 - 3) (by omega) hlt hc
    refine ⟨c', σ', _, _, [], ?_, h', ⟨he, _, rfl, fun g hg => ?_⟩, .none nofun,
      .create htop ?_ hlog, fun g hg _ => ?_⟩
    · rw [HeapExecutor.act, hcode]
      rfl
    · exact Function.update_of_ne hg.ne _ _
    · rw [Executor.addFuture]
      dsimp only
      rw [Function.update_self]
    · exact Function.update_of_ne hg.ne _ _
  · refine ⟨c, σ, pay, s, [], ?_, h, .of_same rfl rfl rfl rfl rfl nofun⟩
    rw [HeapExecutor.act, HeapExecutor.newFuture, hfull.malloc (ne_zero_of_le (by omega))]
    rfl

theorem eq_three {ws : List UInt32} (hlen : ws.length = 3) (a b d : UInt32) :
    ((ws.set 0 a).set 1 b).set 2 d = [a, b, d] := by
  match ws, hlen with
  | [_, _, _], _ => rfl

/-- The stores to the fields of a new serial write future. -/
def fillSerialWrite (c : HeapExecutor) (p data len : UInt32) : HeapExecutor :=
  ((c.setField p 12 data).setField p 16 len).setField p 20 0

theorem Refines.fillSerialWrite {ws : List UInt32} (h : Refines σ (Function.update pay f ws) c s)
    (hf : c.Live (.future f)) (hlen : ws.length = 3) (data len : UInt32) :
    ∃ σ', Refines σ' (Function.update pay f [data, len, 0])
      (c.fillSerialWrite (c.futures.addr f) data len) s := by
  obtain ⟨σ₁, h₁⟩ := h.setPayload hf (k := 12) (i := 0) rfl (by simp [hlen]) data
  obtain ⟨σ₂, h₂⟩ := h₁.setPayload hf (k := 16) (i := 1) rfl (by simp [hlen]) len
  obtain ⟨σ₃, h₃⟩ := h₂.setPayload hf (k := 20) (i := 2) rfl (by simp [hlen]) 0
  simp only [Function.update_idem, Function.update_self, eq_three hlen] at h₃
  exact ⟨σ₃, h₃⟩

/-- `async_serial_write_create`. -/
theorem Refines.asyncSerialWriteCreate (h : Refines σ pay c s) {data len : UInt32}
    (ha : c.Safe (.createSerialWrite data len)) :
    ∃ c' σ' pay' s' calls, c.act (.createSerialWrite data len) = some c' ∧
      Refines σ' pay' c' s' ∧ Did own pay c s (.createSerialWrite data len) calls pay' c' s' := by
  rcases ha with hc | hfull
  · obtain ⟨c₁, σ₁, ws, hcode, hlen, h₁, he, htop, -, hlog, hlive⟩ :=
      h.newFuture .asyncSerialWrite (n := 3) rfl (by decide) hc
    have hp0 : c₁.futures.addr c.futures.top ≠ 0 := h₁.addr_ne_zero hlive
    obtain ⟨σ₂, h₂⟩ := h₁.fillSerialWrite hlive hlen data len
    refine ⟨_, σ₂, _, _, [], ?_, h₂.setLog { c₁.log with
      created := c₁.log.created ++ [⟨c.futures.top, data, len⟩] }, ⟨?_, .none nofun,
      .serial ?_ ?_ ?_ ?_,   fun g hg _ => ?_⟩⟩
    · rw [HeapExecutor.act, HeapExecutor.asyncSerialWriteCreate, hcode]
      dsimp only [Option.map_some]
      rw [if_neg hp0]
      rfl
    · exact ⟨⟨he.tasks, he.futures, he.wakers, he.trace⟩, _, rfl,
        fun g hg => Function.update_of_ne hg.ne _ _⟩
    · exact htop
    · rw [Executor.addFuture]
      dsimp only
      rw [Function.update_self]
    · exact Function.update_self ..
    · dsimp only
      rw [hlog]
    · exact Function.update_of_ne hg.ne _ _
  · refine ⟨c, σ, pay, s, [], ?_, h, .of_same rfl rfl rfl rfl rfl nofun⟩
    rw [HeapExecutor.act, HeapExecutor.asyncSerialWriteCreate, HeapExecutor.newFuture,
      hfull.malloc (by decide)]
    rfl

/-- A word of a future behind its `base` is written. -/
theorem Refines.writeFuture (h : Refines σ pay c s) (hf : c.Live (.future f)) {k : UInt32}
    (hmod : k.toNat % 4 = 0) (hle : 12 ≤ k.toNat)
    (ho : c.memory.Owns (c.futures.addr f) (k.toNat + 4)) (v : UInt32) :
    ∃ σ' ws, Refines σ' (Function.update pay f ws) (c.setField (c.futures.addr f) k v) s := by
  obtain ⟨i, hk⟩ : ∃ i, k.toNat = 4 * (i + 3) := ⟨k.toNat / 4 - 3, by omega⟩
  have ho' : c.memory.Owns (c.futures.addr f) (4 * (i + 4)) := by
    rwa [show 4 * (i + 4) = k.toNat + 4 by omega]
  obtain ⟨σ₁, ws, h₁, hi⟩ := h.extendPayload hf ho'
  obtain ⟨σ₂, h₂⟩ := h₁.setPayload hf hk (by rw [Function.update_self]; omega) v
  rw [Function.update_idem] at h₂
  exact ⟨σ₂, _, h₂⟩

/-- A word of a block that is none of the executor's is written. -/
theorem Refines.writeForeign (h : Refines σ pay c s) {p k : UInt32} (hp : c.Foreign p)
    (hmod : k.toNat % 4 = 0) (ho : c.memory.Owns p (k.toNat + 4)) (v : UInt32) :
    ∃ σ', Refines σ' pay (c.setField p k v) s := by
  obtain ⟨i, hk⟩ : ∃ i, k.toNat = 4 * i := ⟨k.toNat / 4, by omega⟩
  have ho' : c.memory.Owns p (4 * (i + 1)) := by
    rwa [show 4 * (i + 1) = k.toNat + 4 by omega]
  obtain ⟨ws, hlen, hm⟩ := h.holds.add ho'
  have h₁ := h.untracked hp hm
  exact ⟨_, h₁.setUntracked (Function.update_self ..) hp hk (by omega) v⟩

/-- A safe action. -/
theorem Refines.act (h : Refines σ pay c s) (ha : c.Safe a) :
    ∃ c' σ' pay' s' calls, c.act a = some c' ∧ Refines σ' pay' c' s' ∧
      Did ∅ pay c s a calls pay' c' s' := by
  cases a with
  | malloc size =>
    obtain ⟨hlow, hlt, hc | hfull⟩ := ha
    · obtain ⟨m, p, hcode, h'⟩ := h.malloc_other hc hlow hlt
      refine ⟨_, σ, pay, s, [], ?_, h', .of_same rfl rfl rfl rfl rfl nofun⟩
      rw [HeapExecutor.act, hcode]
      rfl
    · refine ⟨c, σ, pay, s, [], ?_, h, .of_same rfl rfl rfl rfl rfl nofun⟩
      rw [HeapExecutor.act, hfull.malloc (ne_zero_of_le hlow)]
      rfl
  | free p =>
    obtain ⟨hlive, hp⟩ := ha
    obtain ⟨m, hcode, hm⟩ := h.holds.free hlive
    refine ⟨_, _, pay, s, [], ?_, h.untracked hp hm, .of_same rfl rfl rfl rfl rfl nofun⟩
    rw [HeapExecutor.act, hcode]
    rfl
  | write p k v =>
    obtain ⟨hmod, ho, hp⟩ := ha
    obtain ⟨σ', h'⟩ := h.writeForeign hp hmod ho v
    exact ⟨_, σ', pay, s, [], rfl, h', .of_same rfl rfl rfl rfl rfl nofun⟩
  | create vtable size => exact h.create ha
  | createSerialWrite data len => exact h.asyncSerialWriteCreate ha
  | spawn g =>
    obtain ⟨hg, hs⟩ := ha
    obtain ⟨c', σ', call, hcode, h', he, rfl, hall, hfutures, hlog⟩ := h.executorSpawn hg hs
    refine ⟨c', σ', pay, _, [call], ?_, h', ⟨he, .refl _ _⟩, .spawn hall,
      .none (congrArg Numbering.top hfutures) hlog, fun _ _ _ => rfl⟩
    have hlt : call.future < c.futures.top := hg.1
    rw [HeapExecutor.act, if_pos hlt, hcode]

/-- An action of a poll of `f`. -/
theorem Refines.pollAct (h : Refines σ pay c s) (hf : c.Live (.future f)) (ha : c.PollSafe f a) :
    ∃ c' σ' pay' s' calls, c.act a = some c' ∧ Refines σ' pay' c' s' ∧
      Did {f} pay c s a calls pay' c' s' := by
  rcases ha with ha | ha
  · obtain ⟨c', σ', pay', s', calls, hcode, h', hdid⟩ := h.act ha
    exact ⟨c', σ', pay', s', calls, hcode, h', hdid.mono (Set.empty_subset _)⟩
  · cases a with
    | write p k v =>
      obtain ⟨rfl, hle, hmod, ho⟩ := ha
      obtain ⟨σ', ws, h'⟩ := h.writeFuture hf hmod hle ho v
      have hsame : Did {f} pay c s (.write (c.futures.addr f) k v) [] pay
          (c.setField (c.futures.addr f) k v) s := .of_same rfl rfl rfl rfl rfl nofun
      exact ⟨_, σ', _, s, [], rfl, h', hsame.acted, hsame.calls, .none rfl rfl,
        fun g _ hn => Function.update_of_ne hn _ _⟩
    | _ => exact ha.elim

/-! ### The actions of a poll -/

/-- One of the actions is a call of `executor_spawn` that gets a task. -/
def Spawns (c : HeapExecutor) : List Action → Prop
  | [] => False
  | a :: as => ((∃ f, a = .spawn f) ∧ c.memory.Clear 8) ∨ ∃ c', c.act a = some c' ∧ c'.Spawns as

theorem Calls.spawns_iff {calls : List SpawnCall} (h : c.Calls a calls) :
    spawnCount calls ≠ 0 ↔ (∃ f, a = .spawn f) ∧ c.memory.Clear 8 := by
  cases h with
  | none ha => exact ⟨fun hn => absurd rfl hn, fun ⟨⟨f, hf⟩, _⟩ => absurd hf (ha f)⟩
  | @spawn call hcall =>
    rw [← hcall, spawnCount, List.countP_singleton]
    cases call.taskAllocated <;> simp

theorem Calls.mem {calls : List SpawnCall} (h : c.Calls a calls) :
    ∀ call ∈ calls, a = .spawn call.future := by
  cases h with
  | none ha => exact nofun
  | spawn hcall =>
    intro call hmem
    rw [List.mem_singleton.mp hmem]

/-- The actions of a poll of `f`; `J` is what they keep. -/
theorem Refines.acts {J : (ℕ → List UInt32) → HeapExecutor → Executor → Prop}
    {P : HeapExecutor → Action → Prop} (hP : ∀ c a, P c a → c.PollSafe f a)
    (hJ : ∀ {σ σ' pay pay' c c' s s' a calls}, Refines σ pay c s → Refines σ' pay' c' s' →
      c.Live (.future f) → P c a → Did {f} pay c s a calls pay' c' s' → J pay c s → J pay' c' s')
    (h : Refines σ pay c s) (hf : c.Live (.future f)) (hj : J pay c s) {as : List Action}
    (has : c.ActsMeet P as) :
    ∃ c' σ' pay' s' calls, c.acts as = some c' ∧ Refines σ' pay' c' s' ∧ Acted c s calls c' s' ∧
      J pay' c' s' ∧ (∀ call ∈ calls, .spawn call.future ∈ as) ∧
      (spawnCount calls ≠ 0 ↔ c.Spawns as) := by
  induction as generalizing c s σ pay with
  | nil =>
    exact ⟨c, σ, pay, s, [], rfl, h, .refl c s, hj, nofun, fun hn => absurd rfl hn, nofun⟩
  | cons a as ih =>
    obtain ⟨ha, has⟩ := has
    obtain ⟨c₁, σ₁, pay₁, s₁, calls₁, hcode₁, h₁, hdid⟩ := h.pollAct hf (hP c a ha)
    obtain ⟨c₂, σ₂, pay₂, s₂, calls₂, hcode₂, h₂, hacted₂, hj₂, hmem₂, hspawns₂⟩ :=
      ih h₁ (hdid.acted.grows.live hf) (hJ h h₁ hf ha hdid hj) (has c₁ hcode₁)
    refine ⟨c₂, σ₂, pay₂, s₂, calls₁ ++ calls₂, ?_, h₂, hdid.acted.trans hacted₂, hj₂,
      fun call hcall => ?_, ?_⟩
    · rw [HeapExecutor.acts, hcode₁]
      exact hcode₂
    · rcases List.mem_append.mp hcall with hcall | hcall
      · exact hdid.calls.mem call hcall ▸ List.mem_cons_self
      · exact List.mem_cons_of_mem _ (hmem₂ call hcall)
    · have hsum : spawnCount (calls₁ ++ calls₂) = spawnCount calls₁ + spawnCount calls₂ :=
        List.countP_append
      rw [hsum, Ne, Nat.add_eq_zero_iff, not_and_or, ← Ne, ← Ne, hdid.calls.spawns_iff, hspawns₂,
        Spawns]
      refine or_congr_right ⟨fun hn => ⟨c₁, hcode₁, hn⟩, ?_⟩
      rintro ⟨c', hcode, hn⟩
      obtain rfl := Option.some.inj (hcode₁.symm.trans hcode)
      exact hn

/-- A poll that does what a script says. -/
theorem Refines.scriptedPoll {J : (ℕ → List UInt32) → HeapExecutor → Executor → Prop}
    {P : HeapExecutor → Action → Prop} (script : ℕ → PollScript)
    (hP : ∀ c a, P c a → c.PollSafe f a)
    (hJ : ∀ {σ σ' pay pay' c c' s s' a calls}, Refines σ pay c s → Refines σ' pay' c' s' →
      c.Live (.future f) → P c a → Did {f} pay c s a calls pay' c' s' → J pay c s → J pay' c' s')
    (h : Refines σ pay c s) (hf : c.Live (.future f)) (hj : J pay c s)
    (has : c.ActsMeet P (script f).actions) :
    ∃ c' σ' pay' s' calls,
      HeapExecutor.scriptedPoll script c (c.futures.addr f) = some (c', (script f).state) ∧
      Refines σ' pay' c' s' ∧ Acted c s calls c' s' ∧ J pay' c' s' ∧
      (∀ call ∈ calls, .spawn call.future ∈ (script f).actions) ∧
      (spawnCount calls ≠ 0 ↔ c.Spawns (script f).actions) := by
  obtain ⟨c', σ', pay', s', calls, hcode, h'⟩ := h.acts hP hJ hf hj has
  refine ⟨c', σ', pay', s', calls, ?_, h'⟩
  rw [HeapExecutor.scriptedPoll, h.vtable hf, futureVTable?_addr, h.number_future hf,
    Option.bind_some, hcode]
  rfl

end Act

end HeapExecutor

end Shogun.Async
