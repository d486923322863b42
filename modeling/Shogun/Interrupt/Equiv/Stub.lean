import Shogun.Interrupt.Stub
import Shogun.Util.WordStack

/-!
# What a stub restores

* `saveRegisters_spec`, `restoreRegisters_spec`: the two ends of a stub, on the words they push and
  pop.
* `runStub_eq`: a stub reaches `iret` with `ESP` and the registers as it found them.
* `stub_restores_iff`: that is what the interrupted context needs exactly if the CPU has not pushed
  an error code.
-/

namespace Shogun.Interrupt

open WordStack

/-- The words on top of the stack. -/
def Cpu.Stack (s : Cpu) (ws : List UInt32) : Prop := Holds s.mem s.esp ws

/-- The general-purpose and the segment registers are those of another state. -/
structure SameContext (s t : Cpu) : Prop where
  eax : s.eax = t.eax
  ecx : s.ecx = t.ecx
  edx : s.edx = t.edx
  ebx : s.ebx = t.ebx
  ebp : s.ebp = t.ebp
  esi : s.esi = t.esi
  edi : s.edi = t.edi
  ds : s.ds = t.ds
  es : s.es = t.es
  fs : s.fs = t.fs
  gs : s.gs = t.gs

/-- The words a stub saves, last first. -/
def savedWords (s : Cpu) : List UInt32 :=
  [s.gs.toUInt32, s.fs.toUInt32, s.es.toUInt32, s.ds.toUInt32, s.edi, s.esi, s.ebp, s.esp, s.ebx,
    s.edx, s.ecx, s.eax]

/-! ### The stack -/

theorem Cpu.Stack.push {s : Cpu} {ws : List UInt32} (h : s.Stack ws) (w : UInt32)
    (hlen : ws.length < 20) : (s.push w).Stack (w :: ws) :=
  Holds.push h w (by omega)

/-- Several words go on the stack. -/
theorem Cpu.Stack.foldl_push {s : Cpu} {ws : List UInt32} (h : s.Stack ws) (vs : List UInt32)
    (hlen : vs.length + ws.length ≤ 20) : (vs.foldl Cpu.push s).Stack (vs.reverse ++ ws) := by
  induction vs generalizing s ws with
  | nil => exact h
  | cons v vs ih =>
    rw [List.length_cons] at hlen
    rw [List.reverse_cons, List.append_assoc]
    apply ih (h.push v (by omega))
    rw [List.length_cons]
    omega

theorem seg_push (s : Cpu) (w : UInt32) (r : Seg) : (s.push w).seg r = s.seg r := by
  cases r <;> rfl

theorem seg_pushal (s : Cpu) (r : Seg) : s.pushal.seg r = s.seg r := by
  unfold Cpu.pushal
  simp only [List.foldl_cons, List.foldl_nil, seg_push]

@[simp]
theorem mem_setSeg (s : Cpu) (r : Seg) (v : UInt16) : (s.setSeg r v).mem = s.mem := by
  cases r <;> rfl

@[simp]
theorem esp_setSeg (s : Cpu) (r : Seg) (v : UInt16) : (s.setSeg r v).esp = s.esp := by
  cases r <;> rfl

theorem seg_setSeg (s : Cpu) (r : Seg) (v : UInt16) (r' : Seg) :
    (s.setSeg r v).seg r' = if r' = r then v else s.seg r' := by
  cases r <;> cases r' <;> rfl

/-! ### The two ends of a stub -/

theorem pushal_stack {s : Cpu} {ws : List UInt32} (h : s.Stack ws) (hlen : ws.length ≤ 4) :
    s.pushal.Stack
      ([s.edi, s.esi, s.ebp, s.esp, s.ebx, s.edx, s.ecx, s.eax] ++ ws) := by
  unfold Cpu.pushal
  apply h.foldl_push
  rw [show List.length _ = 8 from rfl]
  omega

/-- The four segment registers are pushed. -/
def pushSegs (s : Cpu) : Cpu :=
  [(s.seg .ds).toUInt32, (s.seg .es).toUInt32, (s.seg .fs).toUInt32,
    (s.seg .gs).toUInt32].foldl Cpu.push s

/-- The four segment registers are set. -/
def kernelSegs (s : Cpu) : Cpu :=
  let s := { s with eax := 0x10 }
  let s := s.setSeg .ds s.eax.toUInt16
  let s := s.setSeg .es s.eax.toUInt16
  let s := s.setSeg .fs s.eax.toUInt16
  s.setSeg .gs s.eax.toUInt16

theorem pushSegs_stack {s : Cpu} {ws : List UInt32} (h : s.Stack ws) (hlen : ws.length ≤ 12) :
    (pushSegs s).Stack
      ([(s.seg .gs).toUInt32, (s.seg .fs).toUInt32, (s.seg .es).toUInt32,
        (s.seg .ds).toUInt32] ++ ws) := by
  unfold pushSegs
  apply h.foldl_push
  rw [show List.length _ = 4 from rfl]
  omega

section

variable (calls : ∀ f : CFunction, CCall f.argBytes)

theorem runStub_saveRegisters (s : Cpu) (is : List Instr) :
    runStub calls (saveRegisters ++ is) s = runStub calls is (kernelSegs (pushSegs s.pushal)) := by
  have hsegs : pushSegs s.pushal = exec calls (exec calls (exec calls (exec calls s.pushal
      (.pushSeg .ds)) (.pushSeg .es)) (.pushSeg .fs)) (.pushSeg .gs) := by
    unfold exec pushSegs
    simp only [List.foldl_cons, List.foldl_nil, seg_push]
  rw [hsegs]
  rfl

/-- The registers are on the stack behind the beginning of a stub. -/
theorem saveRegisters_spec {s : Cpu} {ws : List UInt32} (h : s.Stack ws) (hlen : ws.length ≤ 4) :
    (kernelSegs (pushSegs s.pushal)).Stack (savedWords s ++ ws) ∧
      (kernelSegs (pushSegs s.pushal)).esp = s.esp - 48 := by
  constructor
  · have hsegs := pushSegs_stack (pushal_stack h hlen) (by simp; omega)
    simp only [seg_pushal] at hsegs
    unfold kernelSegs Cpu.Stack
    simp only [mem_setSeg, esp_setSeg]
    exact hsegs
  · unfold kernelSegs
    simp only [esp_setSeg]
    show s.esp - 4 - 4 - 4 - 4 - 4 - 4 - 4 - 4 - 4 - 4 - 4 - 4 = s.esp - 48
    simp only [sub_sub]
    rfl

end

theorem seg_popSeg (s : Cpu) (r r' : Seg) :
    (s.popSeg r).seg r' = if r' = r then s.top.toUInt16 else s.seg r' := by
  unfold Cpu.popSeg
  rw [seg_setSeg]
  cases r' <;> rfl

theorem esp_popSeg (s : Cpu) (r : Seg) : (s.popSeg r).esp = s.esp + 4 := esp_setSeg ..

/-- A segment register comes off the stack. -/
theorem Cpu.Stack.popSeg {s : Cpu} {w : UInt32} {ws : List UInt32} (h : s.Stack (w :: ws))
    (r : Seg) : s.top = w ∧ (s.popSeg r).Stack ws := by
  refine ⟨h.1, ?_⟩
  unfold Cpu.popSeg Cpu.Stack
  rw [mem_setSeg, esp_setSeg]
  exact h.2

/-- The four segment registers are popped. -/
def popSegs (s : Cpu) : Cpu := (((s.popSeg .gs).popSeg .fs).popSeg .es).popSeg .ds

theorem popSegs_spec {s t : Cpu} {ws : List UInt32}
    (h : t.Stack ([s.gs.toUInt32, s.fs.toUInt32, s.es.toUInt32, s.ds.toUInt32] ++ ws)) :
    (popSegs t).Stack ws ∧ (popSegs t).esp = t.esp + 16 ∧ ∀ r, (popSegs t).seg r = s.seg r := by
  obtain ⟨hgs, hfs⟩ := Cpu.Stack.popSeg h .gs
  obtain ⟨hfs, hes⟩ := Cpu.Stack.popSeg hfs .fs
  obtain ⟨hes, hds⟩ := Cpu.Stack.popSeg hes .es
  obtain ⟨hds, hws⟩ := Cpu.Stack.popSeg hds .ds
  refine ⟨hws, ?_, ?_⟩
  · unfold popSegs
    simp only [esp_popSeg, add_assoc]
    rfl
  · intro r
    unfold popSegs
    simp only [seg_popSeg, hgs, hfs, hes, hds]
    cases r <;> simp [Cpu.seg]

theorem popal_spec {s t : Cpu} {x : UInt32} {ws : List UInt32}
    (h : t.Stack ([s.edi, s.esi, s.ebp, x, s.ebx, s.edx, s.ecx, s.eax] ++ ws))
    (hsegs : ∀ r, t.seg r = s.seg r) :
    SameContext t.popal s ∧ t.popal.Stack ws ∧ t.popal.esp = t.esp + 32 := by
  unfold Cpu.Stack at h
  simp only [List.cons_append, List.nil_append, Holds, add_assoc] at h
  obtain ⟨hedi, hesi, hebp, -, hebx, hedx, hecx, heax, hws⟩ := h
  exact ⟨⟨heax, hecx, hedx, hebx, hebp, hesi, hedi, hsegs .ds, hsegs .es, hsegs .fs, hsegs .gs⟩,
    hws, rfl⟩

/-- The registers come back at the end of a stub. -/
theorem restoreRegisters_spec (calls : ∀ f : CFunction, CCall f.argBytes) {s t : Cpu}
    {ws : List UInt32} (h : t.Stack (savedWords s ++ ws)) :
    ∃ u, runStub calls restoreRegisters t = some u ∧ SameContext u s ∧ u.Stack ws ∧
      u.esp = t.esp + 48 := by
  obtain ⟨hstack, hesp, hsegs⟩ := popSegs_spec (s := s) h
  obtain ⟨hsame, hws, hesp'⟩ := popal_spec hstack hsegs
  refine ⟨(popSegs t).popal, rfl, hsame, hws, ?_⟩
  rw [hesp', hesp, add_assoc]
  rfl

/-! ### Whole stubs -/

/-- A function without arguments leaves the whole frame of its caller. -/
theorem CCall.stack {n : ℕ} (c : CCall n) (hn : n = 0) {s : Cpu} {ws : List UInt32}
    (h : s.Stack ws) (hlen : ws.length ≤ 17) : (c.run s).Stack ws := by
  unfold Cpu.Stack
  rw [c.esp_eq]
  apply Holds.congr h
  intro i hi
  exact c.frame_eq s i (by omega) (by omega)

/-- A function with one argument leaves the frame behind it, which the caller then drops. -/
theorem CCall.drop_stack {n : ℕ} (c : CCall n) (hn : n = 4) {s : Cpu} {w : UInt32}
    {ws : List UInt32} (h : s.Stack (w :: ws)) (hlen : ws.length ≤ 16) :
    ((c.run s).drop 4).Stack ws := by
  show Holds (c.run s).mem ((c.run s).esp + 4) ws
  rw [c.esp_eq]
  apply Holds.congr h.2
  intro i hi
  have hbyte := c.frame_eq s (4 + i) (by omega) (by omega)
  rw [UInt32.ofNat_add, ← UInt32.add_assoc] at hbyte
  exact hbyte

section

variable (calls : ∀ f : CFunction, CCall f.argBytes)

theorem runStub_plainHandler {f : CFunction} (hf : f.argBytes = 0) {s : Cpu} {ws : List UInt32}
    (h : s.Stack ws) (hlen : ws.length ≤ 4) :
    ∃ u, runStub calls (plainHandler f) s = some u ∧ SameContext u s ∧ u.Stack ws ∧
      u.esp = s.esp := by
  obtain ⟨hsaved, hesp⟩ := saveRegisters_spec h hlen
  have hreturn := (calls f).stack hf hsaved (by rw [List.length_append]; show 12 + _ ≤ _; omega)
  obtain ⟨u, hrun, hsame, hws, hesp'⟩ := restoreRegisters_spec calls hreturn
  refine ⟨u, ?_, hsame, hws, ?_⟩
  · unfold plainHandler
    rw [List.append_assoc, runStub_saveRegisters]
    exact hrun
  · rw [hesp', (calls f).esp_eq, hesp, sub_add_cancel]

theorem runStub_vectorHandler {f : CFunction} (hf : f.argBytes = 4) (num : UInt8) {s : Cpu}
    {ws : List UInt32} (h : s.Stack ws) (hlen : ws.length ≤ 4) :
    ∃ u, runStub calls (vectorHandler f num) s = some u ∧ SameContext u s ∧ u.Stack ws ∧
      u.esp = s.esp := by
  obtain ⟨hsaved, hesp⟩ := saveRegisters_spec h hlen
  have hwords : (savedWords s ++ ws).length ≤ 16 := by
    rw [List.length_append]
    show 12 + _ ≤ _
    omega
  have hreturn := (calls f).drop_stack hf (hsaved.push num.toUInt32 (by omega)) hwords
  obtain ⟨u, hrun, hsame, hws, hesp'⟩ := restoreRegisters_spec calls hreturn
  refine ⟨u, ?_, hsame, hws, ?_⟩
  · unfold vectorHandler
    rw [List.append_assoc, runStub_saveRegisters]
    exact hrun
  · rw [hesp']
    show ((calls f).run _).esp + 4 + 48 = s.esp
    rw [(calls f).esp_eq]
    show (kernelSegs (pushSegs s.pushal)).esp - 4 + 4 + 48 = s.esp
    rw [hesp, sub_add_cancel, sub_add_cancel]

/-- **A stub reaches `iret` with the stack and the registers as it found them.** -/
theorem runStub_eq (v : UInt8) {s : Cpu} {ws : List UInt32} (h : s.Stack ws)
    (hlen : ws.length ≤ 4) :
    ∃ u, runStub calls (generateErrorCodeHandler v) s = some u ∧ SameContext u s ∧ u.Stack ws ∧
      u.esp = s.esp := by
  unfold generateErrorCodeHandler
  split_ifs
  · exact runStub_plainHandler calls rfl h hlen
  · exact runStub_plainHandler calls rfl h hlen
  · exact runStub_plainHandler calls rfl h hlen
  · exact runStub_vectorHandler calls rfl v h hlen
  · exact runStub_vectorHandler calls rfl v h hlen

end

/-! ### The interrupted context -/

/-- What `iret` needs: `ESP` at the saved `EIP`, and the registers of the interrupted code. -/
structure Restores (s u : Cpu) : Prop where
  esp : u.esp = s.esp - 12
  eip : u.top = s.eip
  context : SameContext u s

theorem SameContext.trans {s t u : Cpu} (h : SameContext s t) (h' : SameContext t u) :
    SameContext s u where
  eax := h.eax.trans h'.eax
  ecx := h.ecx.trans h'.ecx
  edx := h.edx.trans h'.edx
  ebx := h.ebx.trans h'.ebx
  ebp := h.ebp.trans h'.ebp
  esi := h.esi.trans h'.esi
  edi := h.edi.trans h'.edi
  ds := h.ds.trans h'.ds
  es := h.es.trans h'.es
  fs := h.fs.trans h'.fs
  gs := h.gs.trans h'.gs

/-- A push changes memory and `ESP` only. -/
theorem push_context (s : Cpu) (w : UInt32) : SameContext (s.push w) s :=
  ⟨rfl, rfl, rfl, rfl, rfl, rfl, rfl, rfl, rfl, rfl, rfl⟩

theorem interrupt_context (s : Cpu) (v : UInt8) (errorCode : UInt32) :
    SameContext (s.interrupt v errorCode) s := by
  have hframe : SameContext (((s.push s.eflags).push s.cs.toUInt32).push s.eip) s :=
    ((push_context _ _).trans (push_context _ _)).trans (push_context _ _)
  unfold Cpu.interrupt
  split_ifs
  · exact (push_context _ _).trans hframe
  · exact hframe

/-- The words of the interrupt frame. -/
theorem interrupt_stack (s : Cpu) :
    (((s.push s.eflags).push s.cs.toUInt32).push s.eip).Stack
      [s.eip, s.cs.toUInt32, s.eflags] := by
  have hnil : s.Stack [] := trivial
  exact ((hnil.push s.eflags (by decide)).push s.cs.toUInt32 (by simp)).push s.eip (by simp)

/-- **The stubs restore the interrupted context exactly for the vectors without an error code.** -/
theorem stub_restores_iff (calls : ∀ f : CFunction, CCall f.argBytes) (s : Cpu) (v : UInt8)
    (errorCode : UInt32) :
    (∃ u, runStub calls (generateErrorCodeHandler v) (s.interrupt v errorCode) = some u ∧
      Restores s u) ↔ v ∉ errorCodeVectors := by
  have hcontext := interrupt_context s v errorCode
  by_cases hv : v ∈ errorCodeVectors
  · -- the error code is still on the stack at `iret`
    have hentry : s.interrupt v errorCode
        = (((s.push s.eflags).push s.cs.toUInt32).push s.eip).push errorCode := if_pos hv
    have hstack : (s.interrupt v errorCode).Stack
        [errorCode, s.eip, s.cs.toUInt32, s.eflags] := by
      rw [hentry]
      exact (interrupt_stack s).push errorCode (by simp)
    obtain ⟨u, hrun, -, -, hesp⟩ := runStub_eq calls v hstack (by simp)
    constructor
    · rintro ⟨u', hrun', hrestores⟩
      rw [hrun] at hrun'
      cases hrun'
      have hsub : s.esp - 12 = s.esp - 4 - 4 - 4 - 4 := by
        rw [← hrestores.esp, hesp, hentry]
        rfl
      rw [sub_sub, sub_sub, sub_sub, sub_right_inj] at hsub
      exact absurd hsub (by decide)
    · intro hnot
      exact absurd hv hnot
  · have hentry : s.interrupt v errorCode
        = ((s.push s.eflags).push s.cs.toUInt32).push s.eip := if_neg hv
    have hstack : (s.interrupt v errorCode).Stack [s.eip, s.cs.toUInt32, s.eflags] := by
      rw [hentry]
      exact interrupt_stack s
    -- the stub leaves the stack as the CPU has pushed it
    obtain ⟨u, hrun, hsame, hws, hesp⟩ := runStub_eq calls v hstack (by simp)
    refine ⟨fun _ => hv, fun _ => ⟨u, hrun, ?_, hws.1, hsame.trans hcontext⟩⟩
    rw [hesp, hentry]
    show s.esp - 4 - 4 - 4 = s.esp - 12
    rw [sub_sub, sub_sub]
    rfl

/-- A function that returns at once. -/
def emptyCall (n : ℕ) : CCall n where
  run := id
  esp_eq := fun _ => rfl
  frame_eq := fun _ _ _ _ => rfl

/-- A state with the stack at `0x9000`. -/
def sampleCpu : Cpu where
  eax := 1
  ecx := 2
  edx := 3
  ebx := 4
  esp := 0x9000
  ebp := 5
  esi := 6
  edi := 7
  ds := 0x10
  es := 0x10
  fs := 0x10
  gs := 0x10
  eip := 0x100000
  cs := 8
  eflags := 0x202
  mem := fun _ => 0

/-- Vector `11` with error code `0x18`: at `iret` the stack pointer is at the error code, one word
below the saved `EIP`. -/
theorem stub_keeps_error_code :
    ∃ u, runStub (fun f => emptyCall f.argBytes) (generateErrorCodeHandler 11)
        (sampleCpu.interrupt 11 0x18) = some u ∧
      u.esp = sampleCpu.esp - 16 ∧ u.top = 0x18 ∧ ¬ Restores sampleCpu u := by
  have hstack : (sampleCpu.interrupt 11 0x18).Stack
      [0x18, sampleCpu.eip, sampleCpu.cs.toUInt32, sampleCpu.eflags] :=
    (interrupt_stack sampleCpu).push 0x18 (by simp)
  obtain ⟨u, hrun, -, hws, hesp⟩ := runStub_eq (fun f => emptyCall f.argBytes) 11 hstack (by simp)
  have hlow : u.esp = sampleCpu.esp - 16 := hesp.trans (by decide)
  refine ⟨u, hrun, hlow, hws.1, ?_⟩
  intro hrestores
  rw [hrestores.esp] at hlow
  exact absurd hlow (by decide)

end Shogun.Interrupt
