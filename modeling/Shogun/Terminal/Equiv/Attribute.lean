import Shogun.Terminal.Equiv.Vga

/-!
# Attributes of the cells on the screen

`put_char` converts a signed `char` to sixteen bits, which sets all bits of the attribute byte for a
character from `0x80` on.  `keepsAttribute_iff`: the screen keeps the attribute `0x0F` as long as no
such character is shown.
-/

namespace Shogun.Terminal

/-- The attribute byte of a cell. -/
def attributeByte (entry : UInt16) : UInt8 := (entry >>> 8).toUInt8

/-- The character byte of a cell. -/
def characterByte (entry : UInt16) : UInt8 := entry.toUInt8

/-! ### What `put_char` computes -/

theorem vgaEntry_bytes (c : UInt8) :
    attributeByte (vgaEntry c 0x0F) = (if c < 0x80 then 0x0F else 0xFF) ∧
      characterByte (vgaEntry c 0x0F) = c := by
  have htable : ∀ n < 256,
      attributeByte (vgaEntry (UInt8.ofNat n) 0x0F)
          = (if UInt8.ofNat n < 0x80 then 0x0F else 0xFF) ∧
        characterByte (vgaEntry (UInt8.ofNat n) 0x0F) = UInt8.ofNat n := by
    decide +kernel
  have hc := htable c.toNat c.toNat_lt
  rwa [UInt8.ofNat_toNat] at hc

/-! ### The rows of a text -/

/-- Rows are no longer than the screen is wide. -/
theorem ScrollBack.length_le_put {L : ScrollBack} (h : ∀ row ∈ L.rows, row.length ≤ 80)
    (hopen : L.last.length < 80) (c : UInt8) : ∀ row ∈ (L.put c).rows, row.length ≤ 80 := by
  have hnew : ∀ M : ScrollBack, (∀ row ∈ M.rows, row.length ≤ 80) →
      ∀ row ∈ M.newRow.rows, row.length ≤ 80 := by
    intro M hM row hrow
    rcases List.mem_append.mp hrow with hrow | hrow
    · exact hM row hrow
    · rw [List.mem_singleton.mp hrow]
      exact Nat.zero_le 80
  have hput : ∀ row ∈ (ScrollBack.mk L.done (L.last ++ [c])).rows, row.length ≤ 80 := by
    intro row hrow
    rcases List.mem_append.mp hrow with hrow | hrow
    · exact h row (List.mem_append_left _ hrow)
    · rw [List.mem_singleton.mp hrow, List.length_append, List.length_singleton]
      exact hopen
  unfold ScrollBack.put
  by_cases hnewline : c = 10
  · rw [if_pos hnewline]
    exact hnew L h
  · rw [if_neg hnewline]
    dsimp only
    split_ifs
    · exact hnew _ hput
    · exact hput

/-- The rows of a text on a screen that shows it. -/
theorem Shows.length_le_foldl {s : VgaState} {L : ScrollBack} (hs : Shows s L)
    (h : ∀ row ∈ L.rows, row.length ≤ 80) (text : List UInt8) :
    ∀ row ∈ (text.foldl ScrollBack.put L).rows, row.length ≤ 80 := by
  induction text generalizing s L with
  | nil => exact h
  | cons c text ih =>
    exact ih (hs.terminalPutChar c).1 (ScrollBack.length_le_put h hs.open_row c)

/-! ### The screen -/

/-- The text `str` on a cleared terminal with color `0x0F`. -/
def writeCleared (vgaBuffer : ℕ → UInt16) (row column : UInt8) (str : CString) : VgaState :=
  writeString (clearTerminal ⟨vgaBuffer, row, column, 0x0F, []⟩) str

/-- The rows of a text that are on the screen after it has been written: the last 25. -/
def shownRows (str : CString) : List (List UInt8) :=
  (str.text.foldl ScrollBack.put ScrollBack.empty).rows.rtake 25

/-- Every cell of the screen has the attribute `0x0F`, and the cell of a character its byte. -/
def KeepsAttribute (s : VgaState) (rows : List (List UInt8)) : Prop :=
  (∀ i, i < 2000 → attributeByte (s.vgaBuffer i) = 0x0F) ∧
    ∀ y x row c, rows[y]? = some row → row[x]? = some c →
      characterByte (s.vgaBuffer (y * 80 + x)) = c

/-- The cells after a text has been written, and the sizes of what is shown. -/
theorem writeCleared_cells (vgaBuffer : ℕ → UInt16) (row column : UInt8) (str : CString) :
    (∀ y x, y < 25 → x < 80 →
      (writeCleared vgaBuffer row column str).vgaBuffer (y * 80 + x)
        = cell 0x0F ((shownRows str).getD y []) x) ∧
    (shownRows str).length ≤ 25 ∧ ∀ r ∈ shownRows str, r.length ≤ 80 := by
  have hbounds : InBounds ⟨vgaBuffer, row, column, 0x0F, []⟩ := by
    intro i hi
    exact absurd hi List.not_mem_nil
  have hclear := shows_clearTerminal hbounds
  obtain ⟨hshows, hcolor⟩ := hclear.foldl str.text
  rw [(clearTerminal_spec hbounds).color] at hcolor
  refine ⟨?_, ?_, ?_⟩
  · intro y x hy hx
    have hcell := hshows.screen.cells y x hy hx
    rw [hcolor] at hcell
    exact hcell
  · unfold shownRows List.rtake
    rw [List.length_drop]
    omega
  · intro r hr
    have hempty : ∀ r ∈ ScrollBack.empty.rows, r.length ≤ 80 := by decide
    exact hclear.length_le_foldl hempty str.text r (List.drop_suffix _ _ |>.subset hr)

/-- The cell of a character that is shown. -/
theorem writeCleared_character (vgaBuffer : ℕ → UInt16) (row column : UInt8) {str : CString}
    {y x : ℕ} {r : List UInt8} {c : UInt8} (hr : (shownRows str)[y]? = some r)
    (hc : r[x]? = some c) :
    y * 80 + x < 2000 ∧
      (writeCleared vgaBuffer row column str).vgaBuffer (y * 80 + x) = vgaEntry c 0x0F := by
  obtain ⟨hcells, hlen, hwidth⟩ := writeCleared_cells vgaBuffer row column str
  obtain ⟨hy, -⟩ := List.getElem?_eq_some_iff.mp hr
  obtain ⟨hx, -⟩ := List.getElem?_eq_some_iff.mp hc
  have hwide := hwidth r (List.mem_of_getElem? hr)
  refine ⟨by omega, ?_⟩
  rw [hcells y x (by omega) (by omega), List.getD_eq_getElem?_getD, hr]
  show cell 0x0F r x = _
  unfold cell
  rw [hc]

/-- A character from `0x80` on changes the attribute of its cell. -/
theorem not_keepsAttribute (vgaBuffer : ℕ → UInt16) (row column : UInt8) {str : CString}
    {r : List UInt8} {c : UInt8} (hr : r ∈ shownRows str) (hc : c ∈ r) (hhigh : ¬ c < 0x80) :
    ¬ KeepsAttribute (writeCleared vgaBuffer row column str) (shownRows str) := by
  rintro ⟨hattribute, -⟩
  obtain ⟨y, hy⟩ := List.mem_iff_getElem?.mp hr
  obtain ⟨x, hx⟩ := List.mem_iff_getElem?.mp hc
  obtain ⟨hlt, hcell⟩ := writeCleared_character vgaBuffer row column hy hx
  have hbyte := hattribute _ hlt
  rw [hcell, (vgaEntry_bytes c).1, if_neg hhigh] at hbyte
  exact absurd hbyte (by decide)

/-- **Text keeps the attribute exactly when no character from `0x80` on is shown.** -/
theorem keepsAttribute_iff (vgaBuffer : ℕ → UInt16) (row column : UInt8) (str : CString) :
    KeepsAttribute (writeCleared vgaBuffer row column str) (shownRows str) ↔
      ∀ r ∈ shownRows str, ∀ c ∈ r, c < 0x80 := by
  constructor
  · intro hkeeps r hr c hc
    by_contra hhigh
    exact not_keepsAttribute vgaBuffer row column hr hc hhigh hkeeps
  · intro hlow
    refine ⟨?_, ?_⟩
    · intro i hi
      obtain ⟨hcells, -, -⟩ := writeCleared_cells vgaBuffer row column str
      have hcell := hcells (i / 80) (i % 80) (by omega) (by omega)
      rw [show i / 80 * 80 + i % 80 = i by omega] at hcell
      rw [hcell]
      unfold cell
      split
      · next c hc =>
        -- a character of the text: the row it stands in is one that is shown
        have hmem : (shownRows str).getD (i / 80) [] ∈ shownRows str := by
          rw [List.getD_eq_getElem?_getD] at hc ⊢
          cases hrow : (shownRows str)[i / 80]? with
          | none =>
            rw [hrow] at hc
            exact absurd hc (by simp)
          | some r => exact List.mem_of_getElem? hrow
        rw [(vgaEntry_bytes c).1, if_pos (hlow _ hmem c (List.mem_of_getElem? hc))]
      · decide
    · intro y x r c hr hc
      rw [(writeCleared_character vgaBuffer row column hr hc).2]
      exact (vgaEntry_bytes c).2

/-- The byte `0xE9` gives its cell the attribute `0xFF`. -/
theorem byte_e9_not_keepsAttribute :
    ¬ KeepsAttribute (writeCleared (fun _ => 0) 0 0 ⟨[0xE9], by decide⟩)
      (shownRows ⟨[0xE9], by decide⟩) :=
  not_keepsAttribute _ 0 0 (r := [0xE9]) (c := 0xE9) (by decide) (by decide) (by decide)

end Shogun.Terminal
