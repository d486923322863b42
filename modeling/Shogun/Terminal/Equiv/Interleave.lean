import Shogun.Terminal.Equiv.Vga
import Shogun.Terminal.Interleave

/-!
# The cursor under interrupts

While `write_string` moves the cursor it is off the screen for a while: in column 80 of a row that
is full, and in row 25 from `terminal_row++` until the screen has scrolled.  A dot that the
interrupt handler prints then is stored where the cursor is.

* `AllStores n s`: the stores so far were below index `n`.
* `Tracked`: where the cursor can be at each access of the call.
* `writeString_stores`: in every interleaving the stores stay within the row below the screen, and
  on the screen if and only if no dot finds the cursor off the screen.
-/

namespace Shogun.Terminal

open Serial (Writer)

/-! ### Stores -/

/-- All stores so far were below index `n`. -/
def AllStores (n : ℕ) (s : VgaState) : Prop := ∀ i ∈ s.stores, i < n

theorem allStores_store (n : ℕ) (s : VgaState) (i : ℕ) (entry : UInt16) :
    AllStores n (s.store i entry) ↔ i < n ∧ AllStores n s := by
  simp [AllStores, VgaState.store]

theorem allStores_putChar (n : ℕ) (s : VgaState) (c color : UInt8) (x y : ℕ) :
    AllStores n (putChar s c color x y) ↔ y * 80 + x < n ∧ AllStores n s :=
  allStores_store n s _ _

/-- Scrolling keeps to the screen, and leaves the cursor where it is. -/
structure ScrollFrame (n : ℕ) (s t : VgaState) : Prop where
  cursor : SameCursor t s
  stores : AllStores n t ↔ AllStores n s

theorem ScrollFrame.store {n : ℕ} {s t : VgaState} (h : ScrollFrame n s t) {i : ℕ} (hi : i < n)
    (entry : UInt16) : ScrollFrame n s (t.store i entry) where
  cursor := h.cursor
  stores := by rw [allStores_store, h.stores, and_iff_right hi]

theorem scrollFrame_scrollTerminal {n : ℕ} (hn : 2000 ≤ n) (s : VgaState) :
    ScrollFrame n s (scrollTerminal s) := by
  unfold scrollTerminal
  apply forLoop_invariant (fun _ => ScrollFrame n s)
  · apply forLoop_invariant (fun _ => ScrollFrame n s)
    · exact ⟨⟨rfl, rfl, rfl⟩, Iff.rfl⟩
    intro y t hy ht
    apply forLoop_invariant (fun _ => ScrollFrame n s) ht
    intro x u hx hu
    apply hu.store
    show y * 80 + x < n
    change y < 24 at hy
    change x < 80 at hx
    omega
  · intro x t hx ht
    apply ht.store
    show 24 * 80 + x < n
    change x < 80 at hx
    omega

/-! ### The cursor -/

/-- The cursor is on the screen. -/
def OnScreen (s : VgaState) : Prop := s.terminalRow.toNat < 25 ∧ s.terminalColumn.toNat < 80

/-- The index of `vga_buffer` that the next character goes to. -/
def cursorIndex (s : VgaState) : ℕ := s.terminalRow.toNat * 80 + s.terminalColumn.toNat

theorem toNat_add_one {a : UInt8} (h : a.toNat < 255) : (a + 1).toNat = a.toNat + 1 := by
  rw [UInt8.toNat_add, show (1 : UInt8).toNat = 1 from rfl]
  omega

/-- The test for the last row at the end of a character. -/
theorem scrollIfBelow_frame {n : ℕ} (hn : 2000 ≤ n) {s : VgaState}
    (hcolumn : s.terminalColumn.toNat < 80) :
    OnScreen (scrollIfBelow s) ∧ (AllStores n (scrollIfBelow s) ↔ AllStores n s) := by
  have hframe := scrollFrame_scrollTerminal hn s
  unfold scrollIfBelow
  generalize scrollTerminal s = t at hframe
  split_ifs with hbelow
  · refine ⟨⟨?_, ?_⟩, hframe.stores⟩
    · show (24 : UInt8).toNat < 25
      decide
    · show t.terminalColumn.toNat < 80
      rw [hframe.cursor.2.1]
      exact hcolumn
  · exact ⟨⟨not_le.mp hbelow, hcolumn⟩, Iff.rfl⟩

/-- A character printed where the cursor may be off the screen: it goes to the cell of the cursor,
and the cursor is on the screen afterwards. -/
theorem terminalPutChar_frame {n : ℕ} (hn : 2000 ≤ n) {s : VgaState}
    (h : s.terminalColumn.toNat ≤ 80) {c : UInt8} (hc : c ≠ 10) :
    OnScreen (terminalPutChar s c) ∧
      (AllStores n (terminalPutChar s c) ↔ cursorIndex s < n ∧ AllStores n s) := by
  have hcolumn : (s.terminalColumn + 1).toNat = s.terminalColumn.toNat + 1 :=
    toNat_add_one (by omega)
  unfold terminalPutChar
  rw [if_neg hc, cursorIndex, ← allStores_putChar n s c s.terminalColor]
  generalize hput : putChar s c s.terminalColor s.terminalColumn.toNat s.terminalRow.toNat = t
  have hcursor : SameCursor t s := by
    rw [← hput]
    exact ⟨rfl, rfl, rfl⟩
  unfold terminalPutCursor
  dsimp only
  rw [hcursor.1, hcursor.2.1, hcolumn]
  split_ifs with hfull
  · apply scrollIfBelow_frame hn
    show (0 : UInt8).toNat < 80
    decide
  · apply scrollIfBelow_frame hn
    show (s.terminalColumn + 1).toNat < 80
    change ¬ s.terminalColumn.toNat + 1 ≥ 80 at hfull
    omega

/-! ### The invariant -/

/-- Where the cursor can be at an access, and what the call keeps in registers there. -/
def PutPc.Tracks (s : VgaState) : PutPc → Prop
  | .store x y => x < 80 ∧ y < 25 ∧ OnScreen s
  | .writeColumn column => column.toNat ≤ 80 ∧ OnScreen s
  | .writeRow row => row.toNat ≤ 25 ∧ OnScreen s
  -- a full row
  | .testColumn | .zeroColumn => s.terminalRow.toNat < 25 ∧ s.terminalColumn.toNat ≤ 80
  -- below the last row
  | .testRow | .setRow => s.terminalRow.toNat ≤ 25 ∧ s.terminalColumn.toNat < 80
  | .load y x | .copy y x _ =>
    y < 24 ∧ x < 80 ∧ s.terminalRow.toNat ≤ 25 ∧ s.terminalColumn.toNat < 80
  | .blank x => x < 80 ∧ s.terminalRow.toNat ≤ 25 ∧ s.terminalColumn.toNat < 80
  | .arguments | .readColumn | .readRow | .done => OnScreen s

/-- What holds of a call of `write_string` at every access. -/
structure Tracked (s : PutState) : Prop where
  tracks : s.pc.Tracks s.vga
  str_ne : s.pc ≠ .done → s.str ≠ []

/-- A cursor on the screen is what each access asks for at least. -/
theorem tracks_of_onScreen {s t : VgaState} (h : OnScreen t) {pc : PutPc} (hpc : pc.Tracks s) :
    pc.Tracks t := by
  have hrow : t.terminalRow.toNat ≤ 25 := h.1.le
  have hcolumn : t.terminalColumn.toNat ≤ 80 := h.2.le
  cases pc with
  | store x y => exact ⟨hpc.1, hpc.2.1, h⟩
  | writeColumn | writeRow => exact ⟨hpc.1, h⟩
  | testColumn | zeroColumn => exact ⟨h.1, hcolumn⟩
  | testRow | setRow => exact ⟨hrow, h.2⟩
  | load | copy => exact ⟨hpc.1, hpc.2.1, hrow, h.2⟩
  | blank => exact ⟨hpc.1, hrow, h.2⟩
  | arguments | readColumn | readRow | done => exact h

/-- The cursor is never behind column 80, and leaves the screen in one direction only. -/
theorem PutPc.Tracks.cursor {s : VgaState} {pc : PutPc} (h : pc.Tracks s) :
    s.terminalRow.toNat < 25 ∧ s.terminalColumn.toNat ≤ 80 ∨
      s.terminalRow.toNat ≤ 25 ∧ s.terminalColumn.toNat < 80 := by
  cases pc with
  | store x y => exact .inl ⟨h.2.2.1, h.2.2.2.le⟩
  | writeColumn | writeRow => exact .inl ⟨h.2.1, h.2.2.le⟩
  | testColumn | zeroColumn => exact .inl h
  | testRow | setRow => exact .inr h
  | load | copy => exact .inr h.2.2
  | blank => exact .inr h.2
  | arguments | readColumn | readRow | done => exact .inl ⟨h.1, h.2.le⟩

/-- The accesses that end a full row. -/
def PutPc.endsRow : PutPc → Bool
  | .testColumn | .zeroColumn => true
  | _ => false

/-- The accesses from the test of the row to the end of the scrolling. -/
def PutPc.scrolls : PutPc → Bool
  | .testRow | .load _ _ | .copy _ _ _ | .blank _ | .setRow => true
  | _ => false

/-- Where the call is when a character would go below the screen. -/
theorem PutPc.Tracks.offScreen {s : VgaState} {pc : PutPc} (h : pc.Tracks s)
    (hoff : 2000 ≤ cursorIndex s) :
    s.terminalRow.toNat = 24 ∧ s.terminalColumn.toNat = 80 ∧ pc.endsRow ∨
      s.terminalRow.toNat = 25 ∧ pc.scrolls := by
  have hon : ¬ OnScreen s := by
    rintro ⟨hrow, hcolumn⟩
    unfold cursorIndex at hoff
    omega
  unfold cursorIndex at hoff
  cases pc with
  | store x y => exact absurd h.2.2 hon
  | writeColumn | writeRow => exact absurd h.2 hon
  | testColumn | zeroColumn =>
    obtain ⟨hrow, hcolumn⟩ := h
    exact .inl ⟨by omega, by omega, rfl⟩
  | testRow | setRow =>
    obtain ⟨hrow, hcolumn⟩ := h
    exact .inr ⟨by omega, rfl⟩
  | load | copy =>
    obtain ⟨-, -, hrow, hcolumn⟩ := h
    exact .inr ⟨by omega, rfl⟩
  | blank =>
    obtain ⟨-, hrow, hcolumn⟩ := h
    exact .inr ⟨by omega, rfl⟩
  | arguments | readColumn | readRow | done => exact absurd h hon

theorem tracks_enter {s : VgaState} (h : OnScreen s) (str : List UInt8) :
    (PutPc.enter str).Tracks s := by
  cases str with
  | nil => exact h
  | cons c str =>
    rw [PutPc.enter]
    split_ifs
    · exact ⟨h.1, h.2.le⟩
    · exact h

theorem tracked_start {vga : VgaState} (h : OnScreen vga) (str : List UInt8) :
    Tracked (PutState.start vga str) where
  tracks := tracks_enter h str
  str_ne := by
    intro hpc hnil
    rw [show str = [] from hnil] at hpc
    exact hpc rfl

namespace Tracked

variable {s : PutState}

/-- Nothing but the registers changes. -/
theorem goto (h : Tracked s) {pc : PutPc} (htracks : pc.Tracks s.vga) (hpc : s.pc ≠ .done) :
    Tracked { s with pc := pc } :=
  ⟨htracks, fun _ => h.str_ne hpc⟩

theorem next (hcursor : OnScreen s.vga) : Tracked s.next := by
  unfold PutState.next
  split
  · exact ⟨hcursor, fun hpc => absurd rfl hpc⟩
  · rename_i c str hstr
    refine ⟨tracks_enter hcursor str, ?_⟩
    rintro hpc rfl
    exact hpc rfl

theorem access (h : Tracked s) : Tracked s.access := by
  obtain ⟨pc, str, vga, printed⟩ := s
  have htracks : pc.Tracks vga := h.tracks
  have hne : pc ≠ .done → str ≠ [] := h.str_ne
  cases pc with
  | arguments => exact h.goto ⟨htracks.2, htracks.1, htracks⟩ nofun
  | store x y =>
    cases str with
    | nil => exact h
    | cons c str => exact ⟨htracks.2.2, fun _ => hne nofun⟩
  | readColumn =>
    apply h.goto _ nofun
    refine ⟨?_, htracks⟩
    have hlt : vga.terminalColumn.toNat < 80 := htracks.2
    rw [toNat_add_one (show vga.terminalColumn.toNat < 255 by omega)]
    exact hlt
  | writeColumn column => exact ⟨⟨htracks.2.1, htracks.1⟩, fun _ => hne nofun⟩
  | testColumn =>
    unfold PutState.access
    dsimp only
    split_ifs with hfull
    · exact h.goto htracks nofun
    · exact h.goto ⟨htracks.1.le, not_le.mp hfull⟩ nofun
  | zeroColumn =>
    exact ⟨⟨htracks.1, by show (0 : UInt8).toNat < 80; decide⟩, fun _ => hne nofun⟩
  | readRow =>
    apply h.goto _ nofun
    refine ⟨?_, htracks⟩
    have hlt : vga.terminalRow.toNat < 25 := htracks.1
    rw [toNat_add_one (show vga.terminalRow.toNat < 255 by omega)]
    exact hlt
  | writeRow row => exact ⟨⟨htracks.1, htracks.2.2⟩, fun _ => hne nofun⟩
  | testRow =>
    unfold PutState.access
    dsimp only
    split_ifs with hbelow
    · exact h.goto ⟨by decide, by decide, htracks⟩ nofun
    · exact next ⟨not_le.mp hbelow, htracks.2⟩
  | load y x => exact h.goto htracks nofun
  | copy y x entry =>
    refine ⟨?_, fun _ => hne nofun⟩
    obtain ⟨hy, hx, hcursor⟩ := htracks
    show (PutPc.nextCell y x).Tracks _
    unfold PutPc.nextCell
    split_ifs with hcolumn hrow
    · exact ⟨hy, hcolumn, hcursor⟩
    · exact ⟨hrow, by decide, hcursor⟩
    · exact ⟨by decide, hcursor⟩
  | blank x =>
    refine ⟨?_, fun _ => hne nofun⟩
    obtain ⟨-, hcursor⟩ := htracks
    show (if x + 1 < vgaWidth then PutPc.blank (x + 1) else .setRow).Tracks _
    split_ifs with hcolumn
    · exact ⟨hcolumn, hcursor⟩
    · exact hcursor
  | setRow => exact next ⟨by show (24 : UInt8).toNat < 25; decide, htracks.2⟩
  | done => exact h

theorem dot (h : Tracked s) : Tracked s.dot where
  tracks := tracks_of_onScreen
    (terminalPutChar_frame le_rfl (by have := h.tracks.cursor; omega) (by decide)).1 h.tracks
  str_ne := h.str_ne

theorem step (h : Tracked s) (σ : PutStep) : Tracked (s.step σ) := by
  cases σ with
  | access => exact h.access
  | dot => exact h.dot

theorem run (h : Tracked s) (steps : List PutStep) : Tracked (s.run steps) := by
  induction steps generalizing s with
  | nil => exact h
  | cons σ steps ih => exact ih (h.step σ)

end Tracked

/-! ### The stores of a run -/

/-- The accesses of the call itself keep to the screen. -/
theorem allStores_access {n : ℕ} (hn : 2000 ≤ n) {s : PutState} (h : s.pc.Tracks s.vga) :
    AllStores n s.access.vga ↔ AllStores n s.vga := by
  have hnext : ∀ t : PutState, t.next.vga = t.vga := by
    intro t
    unfold PutState.next
    split <;> rfl
  obtain ⟨pc, str, vga, printed⟩ := s
  change pc.Tracks vga at h
  cases pc with
  | store x y =>
    cases str with
    | nil => exact Iff.rfl
    | cons c str =>
      obtain ⟨hx, hy, -⟩ := h
      show AllStores n (putChar vga c vga.terminalColor x y) ↔ _
      rw [allStores_putChar, and_iff_right (by omega)]
  | copy y x entry =>
    obtain ⟨hy, hx, -⟩ := h
    show AllStores n (vga.store (y * 80 + x) entry) ↔ _
    rw [allStores_store, and_iff_right (by omega)]
  | blank x =>
    obtain ⟨hx, -⟩ := h
    show AllStores n (vga.store (24 * 80 + x) _) ↔ _
    rw [allStores_store, and_iff_right (by omega)]
  | testRow =>
    unfold PutState.access
    dsimp only
    split_ifs
    · exact Iff.rfl
    · rw [hnext]
  | setRow =>
    unfold PutState.access
    dsimp only
    rw [hnext]
    exact Iff.rfl
  | arguments | readColumn | writeColumn | testColumn | zeroColumn | readRow | writeRow | load
  | done => exact Iff.rfl

/-- Every dot of a run comes in a state with `P`. -/
def DotsIn (P : PutState → Prop) (s : PutState) : List PutStep → Prop
  | [] => True
  | .access :: steps => DotsIn P s.access steps
  | .dot :: steps => P s ∧ DotsIn P s.dot steps

theorem dotsIn_of_forall {P : PutState → Prop} {s : PutState} (hs : Tracked s)
    (h : ∀ t, Tracked t → P t) (steps : List PutStep) : DotsIn P s steps := by
  induction steps generalizing s with
  | nil => trivial
  | cons σ steps ih =>
    cases σ with
    | access => exact ih hs.access
    | dot => exact ⟨h s hs, ih hs.dot⟩

/-- The stores are below `n` if those before were, and the cursor was there at every dot. -/
theorem allStores_run {n : ℕ} (hn : 2000 ≤ n) {s : PutState} (h : Tracked s)
    (steps : List PutStep) :
    AllStores n (s.run steps).vga ↔
      AllStores n s.vga ∧ DotsIn (fun t => cursorIndex t.vga < n) s steps := by
  induction steps generalizing s with
  | nil => exact (and_iff_left trivial).symm
  | cons σ steps ih =>
    rw [show s.run (σ :: steps) = (s.step σ).run steps from rfl, ih (h.step σ)]
    cases σ with
    | access => exact and_congr_left' (allStores_access hn h.tracks)
    | dot =>
      have hdot := (terminalPutChar_frame hn (s := s.vga) (c := 46)
        (by have := h.tracks.cursor; omega) (by decide)).2
      show AllStores n (terminalPutChar s.vga 46) ∧ DotsIn _ s.dot steps ↔
        AllStores n s.vga ∧ cursorIndex s.vga < n ∧ DotsIn _ s.dot steps
      rw [hdot]
      tauto

/-! ### The end of the call -/

/-- The accesses that are left for the character at hand, at most. -/
def PutPc.accesses : PutPc → ℕ
  | .arguments => 3930
  | .store _ _ => 3929
  | .readColumn => 3928
  | .writeColumn _ => 3927
  | .testColumn => 3926
  | .zeroColumn => 3925
  | .readRow => 3924
  | .writeRow _ => 3923
  | .testRow => 3922
  | .load y x => 3921 - 2 * (y * 80 + x)
  | .copy y x _ => 3920 - 2 * (y * 80 + x)
  | .blank x => 81 - x
  | .setRow => 1
  | .done => 0

/-- The accesses that are left for the call, at most. -/
def PutState.accesses (s : PutState) : ℕ := (s.str.length - 1) * 3930 + s.pc.accesses

theorem accesses_enter (str : List UInt8) :
    (str.length - 1) * 3930 + (PutPc.enter str).accesses ≤ str.length * 3930 := by
  cases str with
  | nil => simp [PutPc.enter, PutPc.accesses]
  | cons c str =>
    rw [PutPc.enter, List.length_cons, Nat.add_sub_cancel, Nat.succ_mul]
    split_ifs
    · apply Nat.add_le_add_left
      show 3925 ≤ 3930
      omega
    · exact le_rfl

theorem accesses_next {s : PutState} (h : s.str ≠ []) (hpc : 0 < s.pc.accesses) :
    s.next.accesses < s.accesses := by
  obtain ⟨pc, str, vga, printed⟩ := s
  cases str with
  | nil => exact absurd rfl h
  | cons c str =>
    apply lt_of_le_of_lt (accesses_enter str)
    exact Nat.lt_add_of_pos_right hpc

theorem accesses_access {s : PutState} (h : Tracked s) (hpc : s.pc ≠ .done) :
    s.access.accesses < s.accesses := by
  obtain ⟨pc, str, vga, printed⟩ := s
  have hstr : str ≠ [] := h.str_ne hpc
  have htracks : pc.Tracks vga := h.tracks
  cases pc with
  | store x y =>
    cases str with
    | nil => exact absurd rfl hstr
    | cons c str => exact Nat.lt_succ_self _
  | testColumn =>
    apply Nat.add_lt_add_left
    show PutPc.accesses (if _ then _ else _) < 3926
    split_ifs
    · show 3925 < 3926
      omega
    · show 3922 < 3926
      omega
  | testRow =>
    unfold PutState.access
    dsimp only
    split_ifs
    · exact Nat.lt_succ_self _
    · exact accesses_next hstr (by show 0 < 3922; decide)
  | load y x =>
    obtain ⟨hy, hx, -⟩ := htracks
    apply Nat.add_lt_add_left
    show 3920 - 2 * (y * 80 + x) < 3921 - 2 * (y * 80 + x)
    omega
  | copy y x entry =>
    obtain ⟨hy, hx, -⟩ := htracks
    apply Nat.add_lt_add_left
    show (PutPc.nextCell y x).accesses < 3920 - 2 * (y * 80 + x)
    unfold PutPc.nextCell
    split_ifs with hcolumn hrow
    · show 3921 - 2 * (y * 80 + (x + 1)) < _
      omega
    · change ¬ x + 1 < 80 at hcolumn
      show 3921 - 2 * ((y + 1) * 80 + 0) < _
      omega
    · show 81 < _
      omega
  | blank x =>
    obtain ⟨hx, -⟩ := htracks
    apply Nat.add_lt_add_left
    show PutPc.accesses (if x + 1 < 80 then .blank (x + 1) else .setRow) < 81 - x
    split_ifs
    · show 81 - (x + 1) < 81 - x
      omega
    · show 1 < 81 - x
      omega
  | setRow => exact accesses_next hstr Nat.one_pos
  | done => exact absurd rfl hpc
  | arguments | readColumn | writeColumn | zeroColumn | readRow | writeRow =>
    exact Nat.lt_succ_self _

theorem run_done {s : PutState} (h : s.pc = .done) (steps : List PutStep) :
    (s.run steps).pc = .done := by
  induction steps generalizing s with
  | nil => exact h
  | cons σ steps ih =>
    cases σ with
    | access =>
      have hstay : s.access = s := by
        unfold PutState.access
        rw [h]
      exact ih (by rw [show s.step .access = s.access from rfl, hstay]; exact h)
    | dot => exact ih h

/-- A call that is given its accesses returns, whatever dots come between them. -/
theorem done_of_accesses {s : PutState} (h : Tracked s) {steps : List PutStep}
    (hcount : s.accesses ≤ steps.count .access) : (s.run steps).pc = .done := by
  induction steps generalizing s with
  | nil =>
    by_contra hpc
    have hlt := accesses_access h hpc
    change s.accesses ≤ 0 at hcount
    omega
  | cons σ steps ih =>
    cases σ with
    | access =>
      rw [List.count_cons_self] at hcount
      by_cases hpc : s.pc = .done
      · exact run_done hpc _
      · apply ih h.access
        have hlt := accesses_access h hpc
        omega
    | dot =>
      rw [List.count_cons_of_ne (by decide)] at hcount
      exact ih h.dot hcount

/-- **A dot can only be lost in the row below the screen.**  In every interleaving of a call of
`write_string` with dots of the interrupt handler, the stores are within the screen and the row
below it; they are all on the screen if and only if no dot finds the cursor off the screen, where it
is only at the end of a row or while the screen scrolls; and the call returns after at most 3930
accesses for each character, with the cursor on the screen. -/
theorem writeString_stores {vga : VgaState} (hcursor : OnScreen vga) (hbounds : InBounds vga)
    (str : CString) (steps : List PutStep) :
    let s := (PutState.start vga str.text).run steps
    (∀ i ∈ s.vga.stores, i < 2080) ∧
    (InBounds s.vga ↔
      DotsIn (fun t => cursorIndex t.vga < 2000) (PutState.start vga str.text) steps) ∧
    (2000 ≤ cursorIndex s.vga →
      s.vga.terminalRow.toNat = 24 ∧ s.vga.terminalColumn.toNat = 80 ∧ s.pc.endsRow ∨
        s.vga.terminalRow.toNat = 25 ∧ s.pc.scrolls) ∧
    (str.text.length * 3930 ≤ steps.count .access → s.pc = .done ∧ OnScreen s.vga) := by
  intro s
  have hstart := tracked_start hcursor str.text
  have h : Tracked s := hstart.run steps
  refine ⟨?_, ?_, ?_, ?_⟩
  · apply (allStores_run (by decide) hstart steps).mpr
    refine ⟨fun i hi => (hbounds i hi).trans (by decide), ?_⟩
    apply dotsIn_of_forall hstart
    intro t ht
    have := ht.tracks.cursor
    unfold cursorIndex
    omega
  · exact (allStores_run le_rfl hstart steps).trans (and_iff_right hbounds)
  · exact h.tracks.offScreen
  · intro hcount
    have hdone := done_of_accesses hstart ((accesses_enter str.text).trans hcount)
    have htracks := h.tracks
    rw [show s.pc = .done from hdone] at htracks
    exact ⟨hdone, htracks⟩

/-- A dot behind `terminal_column++` in the last cell of the screen. -/
theorem writeString_stores_below :
    let vga : VgaState := ⟨fun _ => blankEntry 0x0F, 24, 79, 0x0F, []⟩
    ¬ InBounds
      ((PutState.start vga (ascii "a")).run [.access, .access, .access, .access, .dot]).vga := by
  intro vga hbounds
  have hcursor : OnScreen vga := ⟨by decide, by decide⟩
  obtain ⟨-, hiff, -⟩ := writeString_stores hcursor (fun i hi => absurd hi List.not_mem_nil)
    ⟨ascii "a", by decide⟩ [.access, .access, .access, .access, .dot]
  have hdot : 24 * 80 + 80 < 2000 := (hiff.mp hbounds).1
  exact absurd hdot (by decide)

end Shogun.Terminal
