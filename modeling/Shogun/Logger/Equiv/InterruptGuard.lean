import Mathlib.Data.List.Induction
import Mathlib.Data.UInt
import Shogun.Logger.InterruptGuard

/-!
# Nesting of the interrupt guard

A guard that nests leaves interrupts off while it is held and gives the flag back as it found it.
`KeepsFlag` says so of one sequence of calls, at every point of it.

`keepsFlag_iff`: a properly nested sequence keeps the flag exactly when it is empty or starts with
interrupts on, and is never nested more than `2^32` deep.  The outermost release runs `sti` whatever
the flag was, and a counter of 32 bits is zero again at depth `2^32`.
-/

namespace Shogun.Logger

/-- How many acquires of the sequence are not released yet. -/
def depth (ops : List GuardOp) : ℕ :=
  ops.count .acquire - ops.count .release

/-- No point of the sequence has more releases than acquires, and its end has as many. -/
def ProperlyNested (ops : List GuardOp) : Prop :=
  (∀ pre, pre <+: ops → pre.count .release ≤ pre.count .acquire)
    ∧ ops.count .release = ops.count .acquire

/-- Run from a counter of zero and the flag `f`, the flag is off wherever the depth is positive and
is `f` again wherever the depth is zero. -/
def KeepsFlag (f : Bool) (ops : List GuardOp) : Prop :=
  ∀ pre, pre <+: ops →
    (0 < depth pre → (GuardState.run ⟨f, 0⟩ pre).interruptFlag = false)
      ∧ (depth pre = 0 → (GuardState.run ⟨f, 0⟩ pre).interruptFlag = f)

/-! ### One call -/

section Step

variable {ops pre : List GuardOp} {f : Bool}

theorem run_concat (s : GuardState) (ops : List GuardOp) (op : GuardOp) :
    s.run (ops ++ [op]) = (s.run ops).step op := by
  rw [GuardState.run, List.foldl_append]
  rfl

theorem depth_acquire (h : pre.count .release ≤ pre.count .acquire) :
    depth (pre ++ [.acquire]) = depth pre + 1 := by
  have hrel : (pre ++ [GuardOp.acquire]).count .release = pre.count .release := by simp
  have hacq : (pre ++ [GuardOp.acquire]).count .acquire = pre.count .acquire + 1 := by simp
  rw [depth, depth, hrel, hacq]
  omega

theorem depth_release (h : (pre ++ [GuardOp.release]).count .release
      ≤ (pre ++ [GuardOp.release]).count .acquire) :
    depth pre = depth (pre ++ [.release]) + 1 := by
  have hrel : (pre ++ [GuardOp.release]).count .release = pre.count .release + 1 := by simp
  have hacq : (pre ++ [GuardOp.release]).count .acquire = pre.count .acquire := by simp
  rw [hrel, hacq] at h
  rw [depth, depth, hrel, hacq]
  omega

/-- While the calls nest, the counter is the depth modulo `2^32`. -/
theorem counter_run (hn : ∀ p, p <+: pre → p.count .release ≤ p.count .acquire) :
    (GuardState.run ⟨f, 0⟩ pre).interruptGuardCounter = UInt32.ofNat (depth pre) := by
  induction pre using List.reverseRecOn with
  | nil => rfl
  | append_singleton pre op ih =>
    have ih := ih fun p hp => hn p (hp.trans (List.prefix_append _ _))
    rw [run_concat]
    cases op with
    | acquire =>
      have hd := depth_acquire (hn pre (List.prefix_append _ _))
      rw [hd, UInt32.ofNat_add, ← ih]
      rfl
    | release =>
      have hd := depth_release (hn _ List.prefix_rfl)
      have hpred : UInt32.ofNat (depth (pre ++ [.release]))
          = UInt32.ofNat (depth pre) - 1 := by
        rw [hd, UInt32.ofNat_add]
        exact (UInt32.add_sub_cancel _ 1).symm
      rw [hpred, ← ih]
      rfl

/-- A release that brings the depth to a multiple of `2^32` turns interrupts on; any other leaves
the flag alone. -/
theorem flag_release (hn : ∀ p, p <+: pre ++ [.release] → p.count .release ≤ p.count .acquire) :
    (GuardState.run ⟨f, 0⟩ (pre ++ [.release])).interruptFlag
      = if depth (pre ++ [.release]) % 2 ^ 32 = 0 then true
        else (GuardState.run ⟨f, 0⟩ pre).interruptFlag := by
  have hcount := counter_run (f := f) hn
  rw [run_concat] at hcount ⊢
  have hzero : (GuardState.run ⟨f, 0⟩ pre).interruptGuardCounter - 1 = 0
      ↔ depth (pre ++ [.release]) % 2 ^ 32 = 0 := by
    change (GuardState.run ⟨f, 0⟩ pre).interruptGuardCounter - 1 = _ at hcount
    rw [hcount, ← UInt32.toNat_inj, UInt32.toNat_ofNat]
    rfl
  show (if (GuardState.run ⟨f, 0⟩ pre).interruptGuardCounter - 1 = 0 then true
    else (GuardState.run ⟨f, 0⟩ pre).interruptFlag) = _
  simp only [hzero]

theorem flag_acquire : (GuardState.run ⟨f, 0⟩ (pre ++ [.acquire])).interruptFlag = false := by
  rw [run_concat]
  rfl

end Step

/-! ### Whole sequences -/

section Run

variable {ops : List GuardOp} {f : Bool}

theorem ProperlyNested.depth_eq_zero (hn : ProperlyNested ops) : depth ops = 0 := by
  rw [depth, hn.2, Nat.sub_self]

/-- A nonempty properly nested sequence ends in an outermost release. -/
theorem ProperlyNested.exists_last (hn : ProperlyNested ops) (hne : ops ≠ []) :
    ∃ pre, ops = pre ++ [.release] := by
  obtain ⟨pre, op, rfl⟩ := (List.eq_nil_or_concat' ops).resolve_left hne
  cases op with
  | release => exact ⟨pre, rfl⟩
  | acquire =>
    have hpre := hn.1 pre (List.prefix_append _ _)
    have hend : pre.count .release = pre.count .acquire + 1 := by simpa using hn.2
    omega

/-- A sequence that passes depth `2^32` comes back to it with a release. -/
theorem ProperlyNested.exists_release (hn : ProperlyNested ops) {pre post : List GuardOp}
    (hops : ops = pre ++ post) (hdeep : 2 ^ 32 < depth pre) :
    ∃ q, q ++ [.release] <+: ops ∧ depth (q ++ [.release]) = 2 ^ 32 := by
  induction post generalizing pre with
  | nil =>
    rw [List.append_nil] at hops
    have hzero := hn.depth_eq_zero
    rw [← hops] at hdeep
    omega
  | cons op post ih =>
    have hsplit : ops = (pre ++ [op]) ++ post := by
      rw [hops, List.append_assoc]
      rfl
    have hprefix : pre ++ [op] <+: ops := ⟨post, hsplit.symm⟩
    cases op with
    | acquire =>
      have hd := depth_acquire (hn.1 pre ⟨_, hops.symm⟩)
      exact ih hsplit (by omega)
    | release =>
      have hd := depth_release (hn.1 _ hprefix)
      rcases Nat.lt_or_ge (2 ^ 32) (depth (pre ++ [.release])) with hlt | hge
      · exact ih hsplit hlt
      · -- the depth goes down by one, so it is `2 ^ 32` here
        exact ⟨pre, hprefix, by omega⟩

/-- Shallow nesting from interrupts on keeps the flag. -/
theorem keepsFlag_of_shallow (hn : ∀ p, p <+: ops → p.count .release ≤ p.count .acquire)
    (hshallow : ∀ p, p <+: ops → depth p ≤ 2 ^ 32) : KeepsFlag true ops := by
  intro pre hpre
  induction pre using List.reverseRecOn with
  | nil => exact ⟨fun h => absurd h (by decide), fun _ => rfl⟩
  | append_singleton pre op ih =>
    have hpre' : pre <+: ops := (List.prefix_append _ _).trans hpre
    cases op with
    | acquire =>
      have hd := depth_acquire (hn pre hpre')
      exact ⟨fun _ => flag_acquire, fun h => absurd h (by omega)⟩
    | release =>
      have hd := depth_release (hn _ hpre)
      have hle := hshallow pre hpre'
      rw [flag_release fun p hp => hn p (hp.trans hpre)]
      refine ⟨fun hpos => ?_, fun hzero => ?_⟩
      · rw [if_neg (by omega)]
        exact (ih hpre').1 (by omega)
      · rw [if_pos (by omega)]

/-- The outermost release turns interrupts on. -/
theorem ProperlyNested.flag_run (hn : ProperlyNested ops) (hne : ops ≠ []) :
    (GuardState.run ⟨f, 0⟩ ops).interruptFlag = true := by
  obtain ⟨pre, rfl⟩ := hn.exists_last hne
  have hzero := hn.depth_eq_zero
  rw [flag_release hn.1, if_pos (by omega)]

/-- **A properly nested sequence keeps the flag exactly when it is empty or starts with interrupts
on, and never nests more than `2^32` deep.** -/
theorem keepsFlag_iff (f : Bool) (hn : ProperlyNested ops) :
    KeepsFlag f ops
      ↔ (ops = [] ∨ f = true) ∧ ∀ pre, pre <+: ops → depth pre ≤ 2 ^ 32 := by
  constructor
  · intro hk
    refine ⟨or_iff_not_imp_left.mpr fun hne => ?_, fun pre ⟨post, hpost⟩ => ?_⟩
    · have hflag := (hk ops List.prefix_rfl).2 hn.depth_eq_zero
      rw [← hflag, hn.flag_run hne]
    · by_contra hdeep
      obtain ⟨q, hq, hdepth⟩ := hn.exists_release hpost.symm (not_le.mp hdeep)
      have hflag := (hk _ hq).1 (by omega)
      rw [flag_release fun p hp => hn.1 p (hp.trans hq), if_pos (by omega)] at hflag
      exact Bool.noConfusion hflag
  · rintro ⟨hflag, hshallow⟩
    rcases hflag with rfl | rfl
    · intro pre hpre
      obtain rfl := List.prefix_nil.mp hpre
      exact ⟨fun h => absurd h (by decide), fun _ => rfl⟩
    · exact keepsFlag_of_shallow hn.1 hshallow

end Run

/-! ### The log functions -/

theorem properlyNested_nil : ProperlyNested [] :=
  ⟨fun pre hpre => by rw [List.prefix_nil.mp hpre]; exact le_rfl, rfl⟩

theorem properlyNested_pair : ProperlyNested [.acquire, .release] := by
  refine ⟨fun pre hpre => ?_, rfl⟩
  rw [List.prefix_iff_eq_take.mp hpre]
  generalize pre.length = k
  rcases k with - | - | k <;> simp

theorem ProperlyNested.append {xs ys : List GuardOp} (hx : ProperlyNested xs)
    (hy : ProperlyNested ys) : ProperlyNested (xs ++ ys) := by
  refine ⟨fun pre hpre => ?_, ?_⟩
  · rcases List.prefix_or_prefix_of_prefix hpre (List.prefix_append xs ys) with h | ⟨q, rfl⟩
    · exact hx.1 pre h
    · rw [List.count_append, List.count_append, hx.2]
      exact Nat.add_le_add_left (hy.1 q ((List.prefix_append_right_inj xs).mp hpre)) _
  · rw [List.count_append, List.count_append, hx.2, hy.2]

theorem LogCall.properlyNested_guardOps (c : LogCall) : ProperlyNested c.guardOps := by
  cases c with
  | log moduleLevel level =>
    rw [guardOps, loggerLogGuard]
    split
    · exact properlyNested_nil
    · exact properlyNested_pair
  | debug moduleLevel | info moduleLevel | warning moduleLevel | error moduleLevel =>
    simp only [guardOps, loggerDebugGuard, loggerInfoGuard, loggerWarningGuard, loggerErrorGuard,
      loggerLevelGuard]
    split
    · exact properlyNested_pair
    · exact properlyNested_nil

/-- Log calls one after the other nest properly, whatever levels they have. -/
theorem properlyNested_logCalls (calls : List LogCall) :
    ProperlyNested (calls.flatMap LogCall.guardOps) := by
  induction calls with
  | nil => exact properlyNested_nil
  | cons c calls ih =>
    rw [List.flatMap_cons]
    exact c.properlyNested_guardOps.append ih

/-- The log calls that `kernel_main` makes before `gdt_init` and `idt_init`, at the level set by
`logger_init`. -/
def kernelMainLogCalls : List LogCall :=
  [.debug .info, .info .info, .warning .info, .error .info]

/-- With interrupts on, the same calls would keep the flag. -/
theorem keepsFlag_iff_kernelMain :
    KeepsFlag true (kernelMainLogCalls.flatMap LogCall.guardOps) := by
  refine (keepsFlag_iff true (properlyNested_logCalls _)).mpr ⟨.inr rfl, fun pre hpre => ?_⟩
  have hlen : pre.length ≤ 6 := hpre.length_le
  have hdepth : depth pre ≤ pre.length := (Nat.sub_le _ _).trans List.count_le_length
  omega

/-- The boot loader hands over with interrupts off; `kernel_main`'s first log calls leave them on,
with no IDT loaded. -/
theorem not_keepsFlag_kernelMain :
    ProperlyNested (kernelMainLogCalls.flatMap LogCall.guardOps)
      ∧ ¬ KeepsFlag false (kernelMainLogCalls.flatMap LogCall.guardOps) := by
  have hn := properlyNested_logCalls kernelMainLogCalls
  refine ⟨hn, fun hk => ?_⟩
  have hkept := (hk _ List.prefix_rfl).2 hn.depth_eq_zero
  rw [hn.flag_run (by decide)] at hkept
  exact Bool.noConfusion hkept

end Shogun.Logger
