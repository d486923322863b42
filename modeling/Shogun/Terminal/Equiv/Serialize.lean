import Shogun.Serial.Equiv.WriteSerial
import Shogun.Terminal.Equiv.Interleave

/-!
# Dots between characters

* `PutState.settle`: the terminal at the end of the character at hand, if no dot comes until then.
  An access leaves it as it is, or ends the character (`access_settle`).
* `Serial`: the terminal is the one that the characters printed so far leave, one call of
  `terminal_put_char` after the other.
* `writeString_serial`: this holds of every interleaving in which dots come between characters only,
  so that the screen shows all of them.
* `dot_replaces`: a dot inside `terminal_column++` replaces the character that was stored before.
-/

namespace Shogun.Terminal

open Serial (Writer)

/-! ### Scrolling cell by cell -/

/-- The cell with index `k` takes the one below it. -/
def copyCell (k : ℕ) (s : VgaState) : VgaState := s.store k (s.vgaBuffer (k + 80))

/-- The cell in column `x` of the last row is blanked. -/
def blankCell (x : ℕ) (s : VgaState) : VgaState :=
  s.store (24 * 80 + x) (blankEntry s.terminalColor)

theorem scrollTerminal_eq (s : VgaState) :
    scrollTerminal s = forLoop 80 blankCell (forLoop 1920 copyCell s) := by
  have hcell : (fun (y x : ℕ) (s : VgaState) =>
      s.store (y * vgaWidth + x) (s.vgaBuffer ((y + 1) * vgaWidth + x)))
      = fun y x => copyCell (y * 80 + x) := by
    funext y x t
    show t.store (y * 80 + x) (t.vgaBuffer ((y + 1) * 80 + x)) = copyCell (y * 80 + x) t
    rw [copyCell, show (y + 1) * 80 + x = y * 80 + x + 80 by omega]
  have hrows : forLoop (vgaHeight - 1) (fun y s => forLoop vgaWidth (fun x s =>
      s.store (y * vgaWidth + x) (s.vgaBuffer ((y + 1) * vgaWidth + x))) s) s
      = forLoop 1920 copyCell s :=
    calc forLoop (vgaHeight - 1) (fun y s => forLoop vgaWidth (fun x s =>
          s.store (y * vgaWidth + x) (s.vgaBuffer ((y + 1) * vgaWidth + x))) s) s
        = forLoop (vgaHeight - 1) (fun y => forLoop vgaWidth ((fun (y x : ℕ) (s : VgaState) =>
            s.store (y * vgaWidth + x) (s.vgaBuffer ((y + 1) * vgaWidth + x))) y)) s := rfl
      _ = forLoop 24 (fun y => forLoop 80 fun x => copyCell (y * 80 + x)) s := by
          rw [hcell, show vgaWidth = 80 from rfl, show vgaHeight - 1 = 24 from rfl]
      _ = forLoop (24 * 80) copyCell s := forLoop_nested 24 80 copyCell s
  unfold scrollTerminal
  rw [hrows]
  generalize forLoop 1920 copyCell s = t
  rfl

/-! ### The rest of a character -/

/-- `terminal_put_cursor` behind `terminal_column++`. -/
def afterColumn (s : VgaState) : VgaState :=
  scrollIfBelow
    (if s.terminalColumn.toNat ≥ vgaWidth then
      { s with terminalColumn := 0, terminalRow := s.terminalRow + 1 }
    else s)

/-- The end of the blanking, from column `x` on. -/
def blankFrom (x : ℕ) (s : VgaState) : VgaState :=
  { loopFrom x 80 blankCell s with terminalRow := 24 }

/-- The end of the scrolling, from the cell with index `k` on. -/
def scrollFrom (k : ℕ) (s : VgaState) : VgaState := blankFrom 0 (loopFrom k 1920 copyCell s)

/-- The terminal at the end of the character `c`, if no dot comes until then. -/
def PutPc.settle (s : VgaState) (c : UInt8) : PutPc → VgaState
  | .arguments => terminalPutChar s c
  | .store x y => terminalPutCursor (putChar s c s.terminalColor x y)
  | .readColumn => terminalPutCursor s
  | .writeColumn column => afterColumn { s with terminalColumn := column }
  | .testColumn => afterColumn s
  | .zeroColumn => scrollIfBelow { s with terminalColumn := 0, terminalRow := s.terminalRow + 1 }
  | .readRow => scrollIfBelow { s with terminalRow := s.terminalRow + 1 }
  | .writeRow row => scrollIfBelow { s with terminalRow := row }
  | .testRow => scrollIfBelow s
  | .load y x => scrollFrom (y * 80 + x) s
  | .copy y x entry => scrollFrom (y * 80 + x + 1) (s.store (y * 80 + x) entry)
  | .blank x => blankFrom x s
  | .setRow => { s with terminalRow := 24 }
  | .done => s

/-- The accesses that the call comes to with the character `c`. -/
def PutPc.fits (c : UInt8) : PutPc → Bool
  | .arguments | .store _ _ | .readColumn | .writeColumn _ | .testColumn => c != 10
  | .done => false
  | _ => true

theorem settle_enter (s : VgaState) (c : UInt8) (str : List UInt8) :
    (PutPc.enter (c :: str)).settle s c = terminalPutChar s c := by
  rw [PutPc.enter]
  split_ifs with hc
  · rw [terminalPutChar, if_pos hc]
    rfl
  · rfl

theorem fits_enter (c : UInt8) (str : List UInt8) : (PutPc.enter (c :: str)).fits c = true := by
  rw [PutPc.enter]
  split_ifs with hc
  · rfl
  · exact bne_iff_ne.mpr hc

theorem settle_nextCell {y x : ℕ} (hy : y < 24) (hx : x < 80) (s : VgaState) (c : UInt8) :
    (PutPc.nextCell y x).settle s c = scrollFrom (y * 80 + x + 1) s := by
  unfold PutPc.nextCell
  split_ifs with hcolumn hrow
  · rfl
  · change ¬ x + 1 < 80 at hcolumn
    show scrollFrom ((y + 1) * 80 + 0) s = _
    rw [show (y + 1) * 80 + 0 = y * 80 + x + 1 by omega]
  · change ¬ x + 1 < 80 at hcolumn
    change ¬ y + 1 < 24 at hrow
    rw [show y * 80 + x + 1 = 1920 by omega]
    unfold scrollFrom
    rw [loopFrom_self]
    rfl

/-- What an access does to the character at hand: it ends it, or it leaves what will come of it. -/
theorem access_settle {s : PutState} {c : UInt8} {str : List UInt8} (hstr : s.str = c :: str)
    (hfits : s.pc.fits c = true) (htracks : s.pc.Tracks s.vga) :
    s.access = { s with vga := s.pc.settle s.vga c }.next ∨
      ∃ pc vga, s.access = { s with pc := pc, vga := vga } ∧ pc ≠ .enter s.str ∧
        pc.fits c = true ∧ pc.settle vga c = s.pc.settle s.vga c := by
  obtain ⟨pc, str', vga, printed⟩ := s
  obtain rfl : str' = c :: str := hstr
  change pc.fits c = true at hfits
  change pc.Tracks vga at htracks
  -- no access comes back to the start of its character
  have henter : ∀ pc' : PutPc, pc' ≠ .arguments → (c = 10 → pc' ≠ .zeroColumn) →
      pc' ≠ .enter (c :: str) := by
    intro pc' harguments hzero
    rw [PutPc.enter]
    split_ifs with hc
    · exact hzero hc
    · exact harguments
  have hbehind : ∀ pc' : PutPc, pc' ≠ .arguments ∧ pc' ≠ .zeroColumn → pc' ≠ .enter (c :: str) :=
    fun pc' h => henter pc' h.1 fun _ => h.2
  cases pc with
  | arguments =>
    have hc : c ≠ 10 := bne_iff_ne.mp hfits
    refine .inr ⟨_, _, rfl, hbehind _ (by simp), hfits, ?_⟩
    show terminalPutCursor _ = terminalPutChar vga c
    rw [terminalPutChar, if_neg hc]
  | store x y => exact .inr ⟨_, _, rfl, hbehind _ (by simp), hfits, rfl⟩
  | readColumn => exact .inr ⟨_, _, rfl, hbehind _ (by simp), hfits, rfl⟩
  | writeColumn column => exact .inr ⟨_, _, rfl, hbehind _ (by simp), hfits, rfl⟩
  | testColumn =>
    have hc : c ≠ 10 := bne_iff_ne.mp hfits
    right
    by_cases hfull : vga.terminalColumn.toNat ≥ vgaWidth
    · refine ⟨.zeroColumn, vga, by simp [PutState.access, hfull],
        henter _ (by simp) (fun h => absurd h hc), rfl, ?_⟩
      show scrollIfBelow _ = afterColumn vga
      rw [afterColumn, if_pos hfull]
    · refine ⟨.testRow, vga, by simp [PutState.access, hfull], hbehind _ (by simp), rfl, ?_⟩
      show scrollIfBelow vga = afterColumn vga
      rw [afterColumn, if_neg hfull]
  | zeroColumn => exact .inr ⟨_, _, rfl, hbehind _ (by simp), rfl, rfl⟩
  | readRow => exact .inr ⟨_, _, rfl, hbehind _ (by simp), rfl, rfl⟩
  | writeRow row => exact .inr ⟨_, _, rfl, hbehind _ (by simp), rfl, rfl⟩
  | testRow =>
    by_cases hbelow : vga.terminalRow.toNat ≥ vgaHeight
    · refine .inr ⟨.load 0 0, vga, by simp [PutState.access, hbelow], hbehind _ (by simp), rfl, ?_⟩
      show scrollFrom (0 * 80 + 0) vga = scrollIfBelow vga
      rw [scrollIfBelow, if_pos hbelow, scrollTerminal_eq, scrollFrom, blankFrom, loopFrom_zero,
        loopFrom_zero]
    · left
      show PutState.access _ = PutState.next { pc := .testRow, vga := scrollIfBelow vga, .. }
      rw [scrollIfBelow_of_lt (not_le.mp hbelow)]
      exact if_neg hbelow
  | load y x =>
    obtain ⟨hy, hx, -⟩ := htracks
    refine .inr ⟨_, _, rfl, hbehind _ (by simp), rfl, ?_⟩
    show scrollFrom (y * 80 + x + 1) (vga.store (y * 80 + x) (vga.vgaBuffer ((y + 1) * 80 + x)))
      = scrollFrom (y * 80 + x) vga
    unfold scrollFrom
    rw [loopFrom_of_lt (show y * 80 + x < 1920 by omega) copyCell vga, copyCell,
      show (y + 1) * 80 + x = y * 80 + x + 80 by omega]
  | copy y x entry =>
    obtain ⟨hy, hx, -⟩ := htracks
    have hnext : (PutPc.nextCell y x ≠ .arguments ∧ PutPc.nextCell y x ≠ .zeroColumn) ∧
        (PutPc.nextCell y x).fits c = true := by
      unfold PutPc.nextCell
      split_ifs <;> exact ⟨by simp, rfl⟩
    exact .inr ⟨_, _, rfl, hbehind _ hnext.1, hnext.2, settle_nextCell hy hx _ c⟩
  | blank x =>
    obtain ⟨hx, -⟩ := htracks
    right
    have hblank : blankFrom x vga = blankFrom (x + 1) (blankCell x vga) := by
      unfold blankFrom
      rw [loopFrom_of_lt hx]
    by_cases hcolumn : x + 1 < vgaWidth
    · exact ⟨.blank (x + 1), blankCell x vga, by simp [PutState.access, hcolumn]; rfl,
        hbehind _ (by simp), rfl, hblank.symm⟩
    · refine ⟨.setRow, blankCell x vga, by simp [PutState.access, hcolumn]; rfl,
        hbehind _ (by simp), rfl, ?_⟩
      change ¬ x + 1 < 80 at hcolumn
      show { blankCell x vga with terminalRow := 24 } = blankFrom x vga
      rw [hblank, show x + 1 = 80 by omega, blankFrom, loopFrom_self]
  | setRow => exact .inl rfl
  | done => exact absurd hfits Bool.false_ne_true

/-! ### The order of the characters -/

/-- The terminal after the characters printed so far, one call of `terminal_put_char` after the
other. -/
def PutState.serial (vga : VgaState) (s : PutState) : VgaState :=
  (s.printed.map Prod.snd).foldl terminalPutChar vga

theorem foldl_concat (vga : VgaState) (printed : List (Writer × UInt8)) (p : Writer × UInt8) :
    ((printed ++ [p]).map Prod.snd).foldl terminalPutChar vga
      = terminalPutChar ((printed.map Prod.snd).foldl terminalPutChar vga) p.2 := by
  rw [List.map_append, List.foldl_append]
  rfl

/-- What holds of a call of `write_string(text)` on the terminal `vga₀`, when dots come between
characters only. -/
structure Serialized (vga₀ : VgaState) (text : List UInt8) (s : PutState) : Prop where
  tracked : Tracked s
  fits : ∀ c str, s.str = c :: str → s.pc.fits c = true
  between : s.pc = .enter s.str → s.vga = s.serial vga₀
  settles : ∀ c str, s.str = c :: str →
    s.pc.settle s.vga c = terminalPutChar (s.serial vga₀) c
  main : Writer.main.bytes s.printed ++ s.str = text

/-- The start of a character. -/
theorem serialized_enter {vga₀ : VgaState} {text str : List UInt8} {printed : List (Writer × UInt8)}
    {vga : VgaState} (htracked : Tracked ⟨.enter str, str, vga, printed⟩)
    (hvga : vga = (printed.map Prod.snd).foldl terminalPutChar vga₀)
    (hmain : Writer.main.bytes printed ++ str = text) :
    Serialized vga₀ text ⟨.enter str, str, vga, printed⟩ where
  tracked := htracked
  fits := by
    rintro c str' hstr
    obtain rfl : str = c :: str' := hstr
    exact fits_enter c str'
  between := fun _ => hvga
  settles := by
    rintro c str' hstr
    obtain rfl : str = c :: str' := hstr
    exact (settle_enter vga c str').trans (by rw [hvga]; rfl)
  main := hmain

namespace Serialized

variable {vga₀ : VgaState} {text : List UInt8} {s : PutState}

theorem access (h : Serialized vga₀ text s) : Serialized vga₀ text s.access := by
  by_cases hpc : s.pc = .done
  · have hstay : s.access = s := by
      unfold PutState.access
      rw [hpc]
    rw [hstay]
    exact h
  obtain ⟨c, str, hstr⟩ := List.exists_cons_of_ne_nil (h.tracked.str_ne hpc)
  have htracked := h.tracked.access
  rcases access_settle hstr (h.fits c str hstr) h.tracked.tracks with
    hend | ⟨pc, vga, hgo, hne, hfits, hsettle⟩
  · -- the character is done
    have hnext : s.access
        = ⟨.enter str, str, s.pc.settle s.vga c, s.printed ++ [(.main, c)]⟩ := by
      rw [hend]
      unfold PutState.next
      dsimp only
      rw [hstr]
    have hmain := h.main
    rw [hnext] at htracked ⊢
    apply serialized_enter htracked
    · rw [foldl_concat]
      exact h.settles c str hstr
    · rw [Writer.bytes_concat, if_pos rfl, List.append_assoc]
      rw [hstr] at hmain
      exact hmain
  · rw [hgo] at htracked ⊢
    refine ⟨htracked, ?_, ?_, ?_, h.main⟩
    · intro c' str' hstr'
      obtain ⟨rfl, -⟩ := List.cons.inj (hstr.symm.trans hstr')
      exact hfits
    · exact fun hpc => absurd hpc hne
    · intro c' str' hstr'
      obtain ⟨rfl, -⟩ := List.cons.inj (hstr.symm.trans hstr')
      exact hsettle.trans (h.settles c str hstr)

theorem dot (h : Serialized vga₀ text s) (hbetween : s.pc = .enter s.str) :
    Serialized vga₀ text s.dot := by
  have htracked := h.tracked.dot
  have hdot : s.dot
      = ⟨.enter s.str, s.str, terminalPutChar s.vga 46, s.printed ++ [(.handler, 46)]⟩ := by
    rw [← hbetween]
    rfl
  rw [hdot] at htracked ⊢
  apply serialized_enter htracked
  · rw [foldl_concat, h.between hbetween]
    rfl
  · rw [Writer.bytes_concat, if_neg (by decide), List.append_nil]
    exact h.main

theorem run (h : Serialized vga₀ text s) {steps : List PutStep}
    (hdots : DotsIn (fun t => t.pc = .enter t.str) s steps) :
    Serialized vga₀ text (s.run steps) := by
  induction steps generalizing s with
  | nil => exact h
  | cons σ steps ih =>
    cases σ with
    | access => exact ih h.access hdots
    | dot => exact ih (h.dot hdots.1) hdots.2

end Serialized

theorem onScreen_of_shows {vga : VgaState} {L : ScrollBack} (h : Shows vga L) : OnScreen vga := by
  have hrow := h.screen.row
  have hcolumn := h.column
  have hopen := h.open_row
  exact ⟨by omega, by omega⟩

theorem serialized_start {vga : VgaState} (h : OnScreen vga) (text : List UInt8) :
    Serialized vga text (PutState.start vga text) :=
  serialized_enter (tracked_start h text) rfl rfl

/-- The handler has printed one dot for each of its interrupts. -/
theorem handler_bytes_run (s : PutState) (steps : List PutStep) :
    Writer.handler.bytes (s.run steps).printed
      = Writer.handler.bytes s.printed ++ List.replicate (steps.count .dot) 46 := by
  have hnext : ∀ t : PutState,
      Writer.handler.bytes t.next.printed = Writer.handler.bytes t.printed := by
    intro t
    unfold PutState.next
    split
    · rfl
    · exact (Writer.bytes_concat _ _ _).trans (List.append_nil _)
  induction steps generalizing s with
  | nil => exact (List.append_nil _).symm
  | cons σ steps ih =>
    rw [show s.run (σ :: steps) = (s.step σ).run steps from rfl, ih]
    cases σ with
    | access =>
      rw [List.count_cons_of_ne (by decide)]
      congr 1
      show Writer.handler.bytes s.access.printed = _
      unfold PutState.access
      split <;> first | rfl | exact hnext _ | skip
      · split <;> rfl
      · split_ifs
        · rfl
        · exact hnext s
    | dot =>
      rw [List.count_cons_self, List.replicate_succ]
      show Writer.handler.bytes (s.printed ++ [(.handler, 46)]) ++ _ = _
      rw [Writer.bytes_concat, if_pos rfl, List.append_assoc]
      rfl

/-- **Dots between characters are printed in order.**  If every dot of an interleaving comes between
two characters of `write_string`, then whenever the call is between two characters the terminal is
the one that a sequence of calls of `terminal_put_char` leaves, one for each character of the text
so far and one for each dot, in the order in which they came; and the screen shows them all. -/
theorem writeString_serial {vga : VgaState} {L : ScrollBack} (h : Shows vga L) (str : CString)
    (steps : List PutStep)
    (hdots : DotsIn (fun t => t.pc = .enter t.str) (PutState.start vga str.text) steps) :
    let s := (PutState.start vga str.text).run steps
    Writer.handler.bytes s.printed = List.replicate (steps.count .dot) 46 ∧
    Writer.main.bytes s.printed <+: str.text ∧
    (s.pc = .done → Writer.main.bytes s.printed = str.text) ∧
    (s.pc = .enter s.str →
      s.vga = (s.printed.map Prod.snd).foldl terminalPutChar vga ∧
      Shows s.vga ((s.printed.map Prod.snd).foldl ScrollBack.put L)) := by
  intro s
  have hs : Serialized vga str.text s :=
    (serialized_start (onScreen_of_shows h) str.text).run hdots
  refine ⟨handler_bytes_run _ steps, ⟨_, hs.main⟩, ?_, ?_⟩
  · intro hdone
    have hnil : s.str = [] := by
      cases hstr : s.str with
      | nil => rfl
      | cons c rest =>
        have hfits := hs.fits c rest hstr
        rw [hdone] at hfits
        exact absurd hfits Bool.false_ne_true
    have hmain := hs.main
    rw [hnil, List.append_nil] at hmain
    exact hmain
  · intro hbetween
    have hvga := hs.between hbetween
    rw [hvga]
    exact ⟨rfl, (h.foldl _).1⟩

/-- A dot between two characters. -/
theorem writeString_serial_between :
    let vga := clearTerminal ⟨fun _ => 0, 0, 0, 0x0F, []⟩
    let steps := List.replicate 6 .access ++ .dot :: List.replicate 6 .access
    let s := (PutState.start vga (ascii "ab")).run steps
    s.pc = .done ∧ Writer.main.bytes s.printed = ascii "ab" ∧
      s.vga = (ascii "a.b").foldl terminalPutChar vga ∧ Shows s.vga ⟨[], ascii "a.b"⟩ := by
  intro vga steps s
  have h : Shows vga ScrollBack.empty := shows_clearTerminal fun i hi => absurd hi List.not_mem_nil
  have hdone : s.pc = .done := by decide
  have hstr : s.str = [] := by decide
  have hprinted : s.printed.map Prod.snd = ascii "a.b" := by decide
  obtain ⟨-, -, hall, hshows⟩ := writeString_serial h ⟨ascii "ab", by decide⟩ steps ⟨rfl, trivial⟩
  obtain ⟨hvga, hscreen⟩ := hshows (by rw [hdone, hstr]; rfl)
  rw [hprinted] at hvga hscreen
  exact ⟨hdone, hall hdone, hvga, hscreen⟩

/-! ### A dot inside a character -/

/-- Without dots the character at hand comes to its end. -/
theorem exists_settled {s : PutState} {c : UInt8} {str : List UInt8} (hstr : s.str = c :: str)
    (hfits : s.pc.fits c = true) (h : Tracked s) :
    ∃ n, s.run (List.replicate n .access)
      = ⟨.enter str, str, s.pc.settle s.vga c, s.printed ++ [(.main, c)]⟩ := by
  induction hn : s.accesses using Nat.strong_induction_on generalizing s with
  | _ n ih =>
    have hpc : s.pc ≠ .done := by
      intro hdone
      rw [hdone] at hfits
      exact absurd hfits Bool.false_ne_true
    have hless := accesses_access h hpc
    rcases access_settle hstr hfits h.tracks with hend | ⟨pc, vga, hgo, -, hfits', hsettle⟩
    · refine ⟨1, ?_⟩
      show s.access = _
      rw [hend]
      unfold PutState.next
      dsimp only
      rw [hstr]
    · have htracked := h.access
      rw [hgo] at htracked hless
      obtain ⟨m, hm⟩ :=
        ih _ (by omega) (s := { s with pc := pc, vga := vga }) hstr hfits' htracked rfl
      refine ⟨m + 1, ?_⟩
      rw [List.replicate_succ, show s.run (.access :: List.replicate m .access)
        = s.access.run (List.replicate m .access) from rfl, hgo, hm, hsettle]

/-- A character stored and overwritten at once is as if it had never been there. -/
theorem terminalPutChar_putChar {s : VgaState} {L : ScrollBack} (h : Shows s L) (c : UInt8)
    {d : UInt8} (hd : d ≠ 10) :
    Shows (terminalPutChar
      (putChar s c s.terminalColor s.terminalColumn.toNat s.terminalRow.toNat) d) (L.put d) := by
  have hcursor := onScreen_of_shows h
  have hindex : s.terminalRow.toNat * 80 + s.terminalColumn.toNat < 2000 := by
    have := hcursor.1
    have := hcursor.2
    omega
  -- the same terminal with the store of `c` on record only
  let t : VgaState := { s with
    stores := (s.terminalRow.toNat * 80 + s.terminalColumn.toNat) :: s.stores }
  have ht : Shows t L := by
    refine ⟨⟨?_, h.screen.cells, h.screen.row⟩, h.column, h.open_row⟩
    intro i hi
    rcases List.mem_cons.mp hi with rfl | hi
    · exact hindex
    · exact h.screen.bounds i hi
  have heq : terminalPutChar
      (putChar s c s.terminalColor s.terminalColumn.toNat s.terminalRow.toNat) d
      = terminalPutChar t d := by
    unfold terminalPutChar
    rw [if_neg hd, if_neg hd]
    congr 1
    unfold putChar VgaState.store
    dsimp only
    rw [Function.update_idem]
    rfl
  rw [heq]
  exact (ht.terminalPutChar d).1

/-- **A dot can replace a character.**  On every screen and for every character but a newline: a dot
that comes between the read and the write of `terminal_column++` overwrites the character, and the
screen shows the dot alone, with a row skipped behind it at the end of a row. -/
theorem dot_replaces {vga : VgaState} {L : ScrollBack} (h : Shows vga L) {c : UInt8} (hc : c ≠ 10)
    (str : List UInt8) :
    ∃ n,
      let s := (PutState.start vga (c :: str)).run
        ([.access, .access, .access, .dot] ++ List.replicate n .access)
      s.pc = .enter str ∧ s.str = str ∧ s.printed = [(.handler, 46), (.main, c)] ∧
      Shows s.vga (if L.last.length + 1 = 80 then (L.put 46).put 10 else L.put 46) := by
  have hcursor := onScreen_of_shows h
  have hnewline : (46 : UInt8) ≠ 10 := by decide
  have hdot := terminalPutChar_putChar h c hnewline
  generalize hv : terminalPutChar
    (putChar vga c vga.terminalColor vga.terminalColumn.toNat vga.terminalRow.toNat) 46 = v at hdot
  -- the call behind the dot, about to write the column it has read before
  have hfour : (PutState.start vga (c :: str)).run [.access, .access, .access, .dot]
      = ⟨.writeColumn (vga.terminalColumn + 1), c :: str, v, [(.handler, 46)]⟩ := by
    rw [← hv]
    rw [PutState.start, PutPc.enter, if_neg hc]
    rfl
  have htracked :
      Tracked ⟨.writeColumn (vga.terminalColumn + 1), c :: str, v, [(.handler, 46)]⟩ := by
    rw [← hfour]
    exact (tracked_start hcursor _).run _
  obtain ⟨n, hn⟩ := exists_settled rfl
    (show (PutPc.writeColumn (vga.terminalColumn + 1)).fits c = true from bne_iff_ne.mpr hc)
    htracked
  refine ⟨n, ?_⟩
  intro s
  have hs : s = ⟨.enter str, str, afterColumn { v with terminalColumn := vga.terminalColumn + 1 },
      [(.handler, 46), (.main, c)]⟩ := by
    show PutState.run _ _ = _
    rw [PutState.run, List.foldl_append, ← PutState.run, ← PutState.run, hfour, hn]
    rfl
  rw [hs]
  refine ⟨rfl, rfl, rfl, ?_⟩
  have hcolumn : (vga.terminalColumn + 1).toNat = L.last.length + 1 := by
    rw [toNat_add_one (by have := hcursor.2; omega), h.column]
  have hopen := h.open_row
  show Shows (afterColumn { v with terminalColumn := vga.terminalColumn + 1 }) _
  unfold afterColumn
  dsimp only
  rw [hcolumn, show vgaWidth = 80 from rfl]
  by_cases hfull : L.last.length + 1 = 80
  · rw [if_pos hfull, if_pos (show L.last.length + 1 ≥ 80 from hfull.ge)]
    exact (hdot.terminalPutChar 10).1
  · rw [if_neg hfull, if_neg (show ¬ L.last.length + 1 ≥ 80 by omega)]
    have hsame : v.terminalColumn = vga.terminalColumn + 1 := by
      apply UInt8.toNat_inj.mp
      rw [hdot.column, hcolumn, ScrollBack.put, if_neg hnewline]
      dsimp only
      rw [List.length_append, List.length_singleton, if_neg hfull, List.length_append,
        List.length_singleton]
    rw [← hsame]
    rw [scrollIfBelow_of_lt (onScreen_of_shows hdot).1]
    exact hdot

/-- The `a` of a first row is replaced. -/
theorem dot_replaces_first :
    let vga := clearTerminal ⟨fun _ => 0, 0, 0, 0x0F, []⟩
    ∃ n, Shows ((PutState.start vga (ascii "ab")).run
      ([.access, .access, .access, .dot] ++ List.replicate n .access)).vga ⟨[], ascii "."⟩ := by
  intro vga
  have h : Shows vga ScrollBack.empty := shows_clearTerminal fun i hi => absurd hi List.not_mem_nil
  obtain ⟨n, hn⟩ := dot_replaces h (c := 97) (by decide) (ascii "b")
  exact ⟨n, hn.2.2.2⟩

end Shogun.Terminal
