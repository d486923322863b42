import Mathlib.Data.List.DropRight
import Mathlib.Data.List.GetD
import Shogun.Terminal.Vga

/-!
# The terminal is a window on an unbounded scroll-back

* `ScrollBack`: all rows ever written, the last of them still open.
* `scrollTerminal_spec`, `clearTerminal_spec`: the loops of the two screen operations.
* `Shows s L`: the screen and the cursor are those of the scroll-back `L`.
* `writeString_shows`: every text written to a cleared terminal is shown.
-/

namespace Shogun.Terminal

/-! ### The scroll-back -/

/-- The rows written so far: those that are complete, and the last one. -/
structure ScrollBack where
  done : List (List UInt8)
  last : List UInt8

namespace ScrollBack

/-- One empty row. -/
def empty : ScrollBack := ⟨[], []⟩

/-- All rows, top to bottom. -/
def rows (L : ScrollBack) : List (List UInt8) := L.done ++ [L.last]

/-- Starts a new row. -/
def newRow (L : ScrollBack) : ScrollBack := ⟨L.rows, []⟩

/-- A newline starts a new row; another character goes to the last row, and a new row starts as
soon as that holds 80 of them. -/
def put (L : ScrollBack) (c : UInt8) : ScrollBack :=
  if c = 10 then L.newRow
  else
    let L : ScrollBack := ⟨L.done, L.last ++ [c]⟩
    if L.last.length = 80 then L.newRow else L

end ScrollBack

/-- The cell in column `x` of a row on the screen. -/
def cell (color : UInt8) (row : List UInt8) (x : ℕ) : UInt16 :=
  match row[x]? with
  | some c => vgaEntry c color
  | none => blankEntry color

/-! ### Scrolling and clearing -/

/-- The cursor and the color are those of another state. -/
def SameCursor (s t : VgaState) : Prop :=
  s.terminalRow = t.terminalRow ∧ s.terminalColumn = t.terminalColumn ∧
    s.terminalColor = t.terminalColor

/-- All stores so far were to the screen. -/
def InBounds (s : VgaState) : Prop := ∀ i ∈ s.stores, i < 2000

theorem InBounds.store {s : VgaState} (h : InBounds s) {i : ℕ} (hi : i < 2000) (entry : UInt16) :
    InBounds (s.store i entry) := by
  intro j hj
  rcases List.mem_cons.mp hj with rfl | hj
  · exact hi
  · exact h j hj

/-- Copying has moved the first `n` cells up by a row. -/
structure Copied (s : VgaState) (n : ℕ) (t : VgaState) : Prop where
  cursor : SameCursor t s
  bounds : InBounds t
  cells : ∀ j, t.vgaBuffer j = if j < n then s.vgaBuffer (j + 80) else s.vgaBuffer j

theorem Copied.store {s t : VgaState} {n : ℕ} (h : Copied s n t) (hn : n < 2000) :
    Copied s (n + 1) (t.store n (t.vgaBuffer (n + 80))) where
  cursor := h.cursor
  bounds := h.bounds.store hn _
  cells := by
    intro j
    show Function.update t.vgaBuffer n (t.vgaBuffer (n + 80)) j = _
    by_cases hj : j = n
    · rw [hj, Function.update_self, h.cells, if_neg (by omega), if_pos (by omega)]
    · rw [Function.update_of_ne hj, h.cells]
      split_ifs <;> first | rfl | omega

/-- Every cell of the screen takes the one below it, and the last row is blank. -/
structure Scrolled (s : VgaState) (x : ℕ) (t : VgaState) : Prop where
  cursor : SameCursor t s
  bounds : InBounds t
  copied : ∀ j, j < 1920 → t.vgaBuffer j = s.vgaBuffer (j + 80)
  blank : ∀ j, 1920 ≤ j → j < 1920 + x → t.vgaBuffer j = blankEntry s.terminalColor

theorem Scrolled.store {s t : VgaState} {x : ℕ} (h : Scrolled s x t) (hx : x < 80) :
    Scrolled s (x + 1) (t.store (1920 + x) (blankEntry s.terminalColor)) where
  cursor := h.cursor
  bounds := h.bounds.store (by omega) _
  copied := by
    intro j hj
    show Function.update t.vgaBuffer (1920 + x) (blankEntry s.terminalColor) j = _
    rw [Function.update_of_ne (by omega)]
    exact h.copied j hj
  blank := by
    intro j hlow hj
    show Function.update t.vgaBuffer (1920 + x) (blankEntry s.terminalColor) j = _
    by_cases hjx : j = 1920 + x
    · rw [hjx, Function.update_self]
    · rw [Function.update_of_ne hjx]
      exact h.blank j hlow (by omega)

theorem scrollTerminal_spec {s : VgaState} (h : InBounds s) : Scrolled s 80 (scrollTerminal s) := by
  have hcopied : Copied s (24 * 80) (forLoop (vgaHeight - 1) (fun y s =>
      forLoop vgaWidth (fun x s =>
        s.store (y * vgaWidth + x) (s.vgaBuffer ((y + 1) * vgaWidth + x))) s) s) := by
    -- the outer loop has copied whole rows, the inner one a part of the next
    apply forLoop_invariant (fun y => Copied s (y * 80))
    · exact ⟨⟨rfl, rfl, rfl⟩, h, fun j => rfl⟩
    intro y t hy ht
    show Copied s _ (forLoop 80 _ t)
    rw [show (y + 1) * 80 = y * 80 + 80 by omega]
    apply forLoop_invariant (fun x => Copied s (y * 80 + x)) ht
    intro x u hx hu
    show Copied s (y * 80 + x + 1) (u.store (y * 80 + x) (u.vgaBuffer ((y + 1) * 80 + x)))
    rw [show (y + 1) * 80 + x = y * 80 + x + 80 by omega]
    exact hu.store (by omega)
  unfold scrollTerminal
  generalize forLoop (vgaHeight - 1) _ s = t at hcopied
  -- the last row is blanked
  apply forLoop_invariant (Scrolled s)
  · exact ⟨hcopied.cursor, hcopied.bounds, fun j hj => by rw [hcopied.cells, if_pos hj],
      fun j _ _ => by omega⟩
  intro x t hx ht
  show Scrolled s (x + 1) (t.store (1920 + x) (blankEntry t.terminalColor))
  rw [ht.cursor.2.2]
  exact ht.store hx

/-- The blank entry is what `put_char` computes for a space. -/
theorem vgaEntry_space (color : UInt8) : vgaEntry 32 color = blankEntry color := rfl

/-- The first `n` cells are blank. -/
structure Cleared (s : VgaState) (n : ℕ) (t : VgaState) : Prop where
  color : t.terminalColor = s.terminalColor
  bounds : InBounds t
  blank : ∀ j, j < n → t.vgaBuffer j = blankEntry s.terminalColor

theorem Cleared.putChar {s t : VgaState} {n x y : ℕ} (h : Cleared s n t) (hn : y * 80 + x = n)
    (hlt : n < 2000) : Cleared s (n + 1) (putChar t 32 t.terminalColor x y) where
  color := h.color
  bounds := h.bounds.store (show y * 80 + x < 2000 by omega) _
  blank := by
    intro j hj
    show Function.update t.vgaBuffer (y * 80 + x) (vgaEntry 32 t.terminalColor) j = _
    rw [hn, vgaEntry_space, h.color]
    by_cases hjn : j = n
    · rw [hjn, Function.update_self]
    · rw [Function.update_of_ne hjn]
      exact h.blank j (by omega)

theorem clearTerminal_spec {s : VgaState} (h : InBounds s) : Cleared s 2000 (clearTerminal s) := by
  have hcleared : Cleared s (25 * 80) (forLoop vgaHeight (fun y s =>
      forLoop vgaWidth (fun x s => putChar s 32 s.terminalColor x y) s) s) := by
    apply forLoop_invariant (fun y => Cleared s (y * 80))
    · exact ⟨rfl, h, fun j hj => by omega⟩
    intro y t hy ht
    show Cleared s _ (forLoop 80 _ t)
    rw [show (y + 1) * 80 = y * 80 + 80 by omega]
    apply forLoop_invariant (fun x => Cleared s (y * 80 + x)) ht
    intro x u hx hu
    exact hu.putChar rfl (by omega)
  unfold clearTerminal
  generalize forLoop vgaHeight _ s = t at hcleared
  exact ⟨hcleared.color, hcleared.bounds, hcleared.blank⟩

/-! ### The screen of a scroll-back -/

/-- The screen shows the last 25 rows, and the next character goes to the row and column given. -/
structure Screen (s : VgaState) (rows : List (List UInt8)) : Prop where
  bounds : InBounds s
  cells : ∀ y x, y < 25 → x < 80 →
    s.vgaBuffer (y * 80 + x) = cell s.terminalColor ((rows.rtake 25).getD y []) x
  row : s.terminalRow.toNat = min rows.length 25 - 1

/-- Row `y` of the screen, counted from the first row of the scroll-back. -/
theorem getD_rtake (rows : List (List UInt8)) (n y : ℕ) :
    (rows.rtake n).getD y [] = rows.getD (rows.length - n + y) [] := by
  unfold List.rtake
  rw [List.getD_eq_getElem?_getD, List.getD_eq_getElem?_getD, List.getElem?_drop]

theorem cell_nil (color : UInt8) (x : ℕ) : cell color [] x = blankEntry color := rfl

/-- Behind the last row there is nothing. -/
theorem getD_append_nil (rows : List (List UInt8)) (i : ℕ) :
    (rows ++ [[]]).getD i [] = rows.getD i [] := by
  rw [List.getD_eq_getElem?_getD, List.getD_eq_getElem?_getD, List.getElem?_append]
  split_ifs with hi
  · rfl
  · rw [List.getElem?_eq_none (not_lt.mp hi), List.getElem?_singleton]
    split_ifs <;> rfl

/-- Going to the next row, scrolling where there is none. -/
theorem Screen.newRow {s t : VgaState} {rows : List (List UInt8)} (h : Screen s rows)
    (hpos : 0 < rows.length) (hbuffer : t.vgaBuffer = s.vgaBuffer) (hstores : t.stores = s.stores)
    (hcolor : t.terminalColor = s.terminalColor) (hrow : t.terminalRow = s.terminalRow + 1) :
    Screen (scrollIfBelow t) (rows ++ [[]]) ∧
      (scrollIfBelow t).terminalColumn = t.terminalColumn ∧
      (scrollIfBelow t).terminalColor = s.terminalColor := by
  have hbounds : InBounds t := by
    unfold InBounds
    rw [hstores]
    exact h.bounds
  have hnext : t.terminalRow.toNat = min rows.length 25 := by
    have hs := h.row
    rw [hrow, UInt8.toNat_add, show (1 : UInt8).toNat = 1 from rfl]
    omega
  unfold scrollIfBelow
  split_ifs with hbelow
  · -- below the last row: the screen moves up by one row
    rw [hnext, show vgaHeight = 25 from rfl] at hbelow
    have hspec := scrollTerminal_spec hbounds
    generalize scrollTerminal t = u at hspec
    refine ⟨⟨hspec.bounds, ?_, ?_⟩, hspec.cursor.2.1, hspec.cursor.2.2.trans hcolor⟩
    · intro y x hy hx
      show u.vgaBuffer (y * 80 + x) = cell u.terminalColor _ x
      rw [hspec.cursor.2.2, hcolor, getD_rtake, getD_append_nil, List.length_append,
        List.length_singleton]
      by_cases hlast : y = 24
      · rw [hspec.blank _ (by omega) (by omega), hcolor,
          List.getD_eq_default _ _ (by omega), cell_nil]
      · rw [hspec.copied _ (by omega), hbuffer, show y * 80 + x + 80 = (y + 1) * 80 + x by omega,
          h.cells _ _ (by omega) hx, getD_rtake]
        congr 2
        omega
    · show (24 : UInt8).toNat = _
      rw [List.length_append, List.length_singleton, show (24 : UInt8).toNat = 24 from rfl]
      omega
  · -- a blank row is left
    rw [hnext, show vgaHeight = 25 from rfl] at hbelow
    refine ⟨⟨hbounds, ?_, ?_⟩, rfl, hcolor⟩
    · intro y x hy hx
      rw [hbuffer, hcolor, h.cells _ _ hy hx, getD_rtake, getD_rtake, getD_append_nil,
        List.length_append, List.length_singleton]
      congr 2
      omega
    · rw [hnext, List.length_append, List.length_singleton]
      omega

/-- The cells of a row with one more character. -/
theorem cell_append (color : UInt8) (row : List UInt8) (c : UInt8) (x : ℕ) :
    cell color (row ++ [c]) x = if x = row.length then vgaEntry c color else cell color row x := by
  unfold cell
  split_ifs with hx
  · rw [hx, List.getElem?_concat_length]
  · by_cases hlt : x < row.length
    · rw [List.getElem?_append_left hlt]
    · rw [List.getElem?_eq_none (by simp; omega), List.getElem?_eq_none (by omega)]

/-- Rows other than the last do not change when the last one does. -/
theorem getD_concat (done : List (List UInt8)) (last : List UInt8) (i : ℕ) :
    (done ++ [last]).getD i [] = if i = done.length then last else done.getD i [] := by
  rw [List.getD_eq_getElem?_getD, List.getD_eq_getElem?_getD]
  split_ifs with hi
  · rw [hi, List.getElem?_concat_length, Option.getD_some]
  · by_cases hlt : i < done.length
    · rw [List.getElem?_append_left hlt]
    · rw [List.getElem?_eq_none (by simp; omega), List.getElem?_eq_none (by omega)]

/-- A character put behind the last row. -/
theorem Screen.putChar {s : VgaState} {done : List (List UInt8)} {last : List UInt8}
    (h : Screen s (done ++ [last])) (hlast : last.length < 80) (c : UInt8) :
    Screen (putChar s c s.terminalColor last.length s.terminalRow.toNat)
      (done ++ [last ++ [c]]) := by
  have hrow := h.row
  rw [List.length_append, List.length_singleton] at hrow
  refine ⟨?_, ?_, ?_⟩
  · apply h.bounds.store
    show s.terminalRow.toNat * 80 + last.length < 2000
    omega
  · intro y x hy hx
    have hold := h.cells y x hy hx
    rw [getD_rtake, getD_concat, List.length_append, List.length_singleton] at hold ⊢
    show Function.update s.vgaBuffer (s.terminalRow.toNat * 80 + last.length)
      (vgaEntry c s.terminalColor) (y * 80 + x) = cell s.terminalColor _ x
    -- only the cell behind the last row's text changes
    by_cases hy' : y = s.terminalRow.toNat
    · rw [if_pos (by omega)] at hold ⊢
      rw [cell_append]
      split_ifs with hx'
      · rw [hy', hx', Function.update_self]
      · rw [Function.update_of_ne (by omega), hold]
    · rw [if_neg (by omega)] at hold ⊢
      rw [Function.update_of_ne (by omega), hold]
  · show s.terminalRow.toNat = _
    rw [hrow, List.length_append, List.length_singleton]

/-- The screen and the cursor are those of a scroll-back. -/
structure Shows (s : VgaState) (L : ScrollBack) : Prop where
  screen : Screen s L.rows
  column : s.terminalColumn.toNat = L.last.length
  open_row : L.last.length < 80

theorem shows_clearTerminal {s : VgaState} (h : InBounds s) :
    Shows (clearTerminal s) ScrollBack.empty := by
  have hspec := clearTerminal_spec h
  refine ⟨⟨hspec.bounds, ?_, rfl⟩, rfl, by decide⟩
  intro y x hy hx
  rw [hspec.blank _ (by omega), hspec.color]
  cases y <;> rfl

theorem scrollIfBelow_of_lt {s : VgaState} (h : s.terminalRow.toNat < 25) :
    scrollIfBelow s = s := by
  unfold scrollIfBelow
  exact if_neg (not_le.mpr h)

/-- Every character written is shown. -/
theorem Shows.terminalPutChar {s : VgaState} {L : ScrollBack} (h : Shows s L) (c : UInt8) :
    Shows (terminalPutChar s c) (L.put c) ∧
      (terminalPutChar s c).terminalColor = s.terminalColor := by
  have hpos : ∀ last, 0 < (L.done ++ [last]).length := by
    intro last
    rw [List.length_append, List.length_singleton]
    omega
  unfold Terminal.terminalPutChar ScrollBack.put
  by_cases hnewline : c = 10
  · rw [if_pos hnewline, if_pos hnewline]
    obtain ⟨hscreen, hcolumn, hcolor⟩ := h.screen.newRow (hpos _)
      (t := { s with terminalColumn := 0, terminalRow := s.terminalRow + 1 }) rfl rfl rfl rfl
    exact ⟨⟨hscreen, congrArg UInt8.toNat hcolumn, by show 0 < 80; omega⟩, hcolor⟩
  · -- `put_char` and then `terminal_put_cursor`
    rw [if_neg hnewline, if_neg hnewline, h.column]
    have hput := h.screen.putChar h.open_row c
    have hcolumn : (s.terminalColumn + 1).toNat = L.last.length + 1 := by
      rw [UInt8.toNat_add, h.column, show (1 : UInt8).toNat = 1 from rfl]
      have := h.open_row
      omega
    unfold terminalPutCursor
    dsimp only
    rw [show ((putChar s c s.terminalColor L.last.length s.terminalRow.toNat).terminalColumn
      + 1).toNat = L.last.length + 1 from hcolumn, List.length_append, List.length_singleton]
    by_cases hfull : L.last.length + 1 = 80
    · -- the row is full, which starts the next one at once
      rw [if_pos (show L.last.length + 1 ≥ vgaWidth from hfull.ge), if_pos hfull]
      obtain ⟨hscreen, hcol, hcolor⟩ := hput.newRow (hpos _)
        (t := { putChar s c s.terminalColor L.last.length s.terminalRow.toNat with
          terminalColumn := 0, terminalRow := s.terminalRow + 1 }) rfl rfl rfl rfl
      exact ⟨⟨hscreen, congrArg UInt8.toNat hcol, by show 0 < 80; omega⟩, hcolor⟩
    · have hlt : L.last.length + 1 < 80 := by
        have := h.open_row
        omega
      rw [if_neg (show ¬ L.last.length + 1 ≥ vgaWidth from not_le.mpr hlt), if_neg hfull,
        scrollIfBelow_of_lt (by show s.terminalRow.toNat < 25; rw [h.screen.row]; omega)]
      refine ⟨⟨⟨hput.bounds, hput.cells, hput.row⟩, ?_, ?_⟩, rfl⟩
      · show (s.terminalColumn + 1).toNat = (L.last ++ [c]).length
        rw [hcolumn, List.length_append, List.length_singleton]
      · show (L.last ++ [c]).length < 80
        rw [List.length_append, List.length_singleton]
        exact hlt

/-! ### Texts -/

theorem Shows.foldl {s : VgaState} {L : ScrollBack} (h : Shows s L) (text : List UInt8) :
    Shows (text.foldl Terminal.terminalPutChar s) (text.foldl ScrollBack.put L) ∧
      (text.foldl Terminal.terminalPutChar s).terminalColor = s.terminalColor := by
  induction text generalizing s L with
  | nil => exact ⟨h, rfl⟩
  | cons c text ih =>
    obtain ⟨hstep, hcolor⟩ := h.terminalPutChar c
    obtain ⟨hrest, hcolors⟩ := ih hstep
    exact ⟨hrest, hcolors.trans hcolor⟩

/-- Writing several strings is writing them as one. -/
theorem foldl_writeString (s : VgaState) (strs : List CString) :
    strs.foldl writeString s
      = (strs.map CString.text).flatten.foldl Terminal.terminalPutChar s := by
  induction strs generalizing s with
  | nil => rfl
  | cons str strs ih =>
    rw [List.foldl_cons, ih, List.map_cons, List.flatten_cons, List.foldl_append]
    rfl

/-- **The terminal shows the end of everything written to it.** -/
theorem writeString_shows (vgaBuffer : ℕ → UInt16) (row column color : UInt8)
    (strs : List CString) :
    let s := strs.foldl writeString (clearTerminal ⟨vgaBuffer, row, column, color, []⟩)
    let L := (strs.map CString.text).flatten.foldl ScrollBack.put ScrollBack.empty
    (∀ y x, y < 25 → x < 80 →
      s.vgaBuffer (y * 80 + x) = cell color ((L.rows.rtake 25).getD y []) x) ∧
    s.terminalRow.toNat = min L.rows.length 25 - 1 ∧
    s.terminalColumn.toNat = L.last.length ∧
    ∀ i ∈ s.stores, i < 2000 := by
  intro s L
  have hbounds : InBounds ⟨vgaBuffer, row, column, color, []⟩ := by
    intro i hi
    exact absurd hi List.not_mem_nil
  obtain ⟨hshows, hcolor⟩ := (shows_clearTerminal hbounds).foldl (strs.map CString.text).flatten
  rw [← foldl_writeString, (clearTerminal_spec hbounds).color] at hcolor
  rw [← foldl_writeString] at hshows
  refine ⟨?_, hshows.screen.row, hshows.column, hshows.screen.bounds⟩
  intro y x hy hx
  have hcell := hshows.screen.cells y x hy hx
  rw [hcolor] at hcell
  exact hcell

end Shogun.Terminal
