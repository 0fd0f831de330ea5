import MyOs.Lib.Runs
import MyOs.Console.Scrollback

/-!
# The console as a terminal

What the console is for: a terminal with an unbounded list of lines, a cursor in one of them, and a view
of 25 lines that can be moved back.  The ring of `src/console.c` keeps the last `TOTAL_LINES` of these
lines, and the VGA card shows the lines of the view (`console_refines_terminal`).

The counters of the console wrap.  As long as the lines can be counted in a `size_t` nobody notices; when
the last line that has a number is started, the loop of `ensure_line_available` does not end any more
(`console_counters_wrap`).
-/

namespace MyOs

open Lib List Function

/-- A terminal: all its lines, the cursor, the colour and how far the view is moved back. -/
structure Terminal where
  lines : List Line
  row : ℕ
  col : ℕ
  color : UInt8
  view : ℕ

namespace Terminal

/-- The cursor moves to the start of the next line, which is added if need be. -/
def newLine (t : Terminal) : Terminal :=
  { t with
    row := t.row + 1
    col := 0
    lines := if t.row + 1 < t.lines.length then t.lines else t.lines ++ [blankLine t.color] }

/-- The cursor moves to a column, or to the next line. -/
def moveTo (t : Terminal) (col : ℕ) : Terminal :=
  if col < vgaWidth then { t with col := col } else t.newLine

/-- Write a character; newline, carriage return and tab only move the cursor. -/
def putc (t : Terminal) (ch : UInt8) : Terminal :=
  if ch = 10 then t.newLine
  else if ch = 13 then { t with col := 0 }
  else if ch = 9 then t.moveTo ((t.col / 4 + 1) * 4)
  else moveTo { t with lines := t.lines.modify t.row (setCell · t.col (makeVgaEntry ch t.color)) }
    (t.col + 1)

/-- The first line of the newest screen. -/
def newest (t : Terminal) : ℕ := t.row + 1 - vgaHeight

/-- The oldest line that is kept. -/
def oldest (t : Terminal) : ℕ := t.lines.length - totalLines

/-- The furthest the view can be moved back. -/
def maxView (t : Terminal) : ℕ := t.newest - t.oldest

/-- Move the view by a number of lines, back if it is positive, within the lines that are kept. -/
def scroll (t : Terminal) (n : ℤ) : Terminal := { t with view := min (t.view + n).toNat t.maxView }

/-- One call. -/
def step (t : Terminal) : ConsoleOp → Terminal
  | .putcVga ch => t.putc ch
  | .setColor fg bg => { t with color := bg <<< 4 ||| fg &&& 0x0F }
  | .scrollView lines => t.scroll lines.toInt

/-- An empty screen. -/
def blank (color : UInt8) : Terminal := ⟨List.replicate vgaHeight (blankLine color), 0, 0, color, 0⟩

/-- The terminal after `console_init`. -/
def boot (color : UInt8) : Terminal := run step (blank color) (bootMessage.map .putcVga)

/-- What every terminal keeps. -/
structure Ok (t : Terminal) : Prop where
  col_lt : t.col < vgaWidth
  length_eq : t.lines.length = max vgaHeight (t.row + 1)
  view_le : t.view ≤ t.maxView

variable {t : Terminal}

lemma newest_eq (t : Terminal) : t.newest = t.row + 1 - 25 := rfl

lemma oldest_eq (t : Terminal) : t.oldest = t.lines.length - 537 := rfl

lemma maxView_eq (t : Terminal) : t.maxView = t.newest - t.oldest := rfl

lemma Ok.length (ht : t.Ok) : t.lines.length = max 25 (t.row + 1) := ht.length_eq

lemma Ok.row_lt (ht : t.Ok) : t.row < t.lines.length := by
  have := ht.length
  omega

lemma Ok.oldest_le (ht : t.Ok) : t.oldest ≤ t.newest := by
  have := ht.length
  rw [newest_eq, oldest_eq]
  omega

lemma Ok.shown_lt (ht : t.Ok) {y : ℕ} (hy : y < 25) : t.newest - t.view + y < t.lines.length := by
  have := ht.length
  have := t.newest_eq
  omega

lemma length_newLine (ht : t.Ok) : t.newLine.lines.length = max t.lines.length (t.row + 2) := by
  have := ht.row_lt
  simp only [newLine]
  split_ifs with hrow
  · omega
  · rw [length_append, length_singleton]
    omega

lemma Ok.newLine (ht : t.Ok) : t.newLine.Ok := by
  have hlen := length_newLine ht
  have heq := ht.length
  have hrow : t.newLine.row = t.row + 1 := rfl
  have hview : t.newLine.view ≤ t.maxView := ht.view_le
  have hnewest := t.newLine.newest_eq
  have holdest := t.newLine.oldest_eq
  refine ⟨Nat.zero_lt_succ _, ?_, ?_⟩
  · change t.newLine.lines.length = max 25 (t.row + 1 + 1)
    omega
  · rw [maxView_eq, newest_eq, oldest_eq] at hview
    rw [maxView_eq]
    omega

lemma Ok.moveTo (ht : t.Ok) (col : ℕ) : (t.moveTo col).Ok := by
  rw [Terminal.moveTo]
  split_ifs with hcol
  · exact ⟨hcol, ht.length_eq, ht.view_le⟩
  · exact ht.newLine

lemma Ok.modify (ht : t.Ok) (i : ℕ) (f : Line → Line) : Ok { t with lines := t.lines.modify i f } := by
  have hlen : (t.lines.modify i f).length = t.lines.length := length_modify f _ _
  refine ⟨ht.col_lt, hlen.trans ht.length_eq, ?_⟩
  have hview := ht.view_le
  rw [maxView_eq, oldest_eq] at hview ⊢
  simp only [hlen]
  exact hview

lemma Ok.putc (ht : t.Ok) (ch : UInt8) : (t.putc ch).Ok := by
  rw [Terminal.putc]
  split_ifs
  · exact ht.newLine
  · exact ⟨Nat.zero_lt_succ _, ht.length_eq, ht.view_le⟩
  · exact ht.moveTo _
  · exact (ht.modify _ _).moveTo _

lemma Ok.step (ht : t.Ok) (op : ConsoleOp) : (t.step op).Ok := by
  cases op with
  | putcVga ch => exact ht.putc ch
  | setColor fg bg => exact ⟨ht.col_lt, ht.length_eq, ht.view_le⟩
  | scrollView lines => exact ⟨ht.col_lt, ht.length_eq, min_le_right _ _⟩

lemma ok_blank (color : UInt8) : (blank color).Ok :=
  ⟨Nat.zero_lt_succ _, length_replicate, Nat.zero_le _⟩

/-! Lines are only ever added. -/

lemma length_le_newLine (t : Terminal) : t.lines.length ≤ t.newLine.lines.length := by
  simp only [newLine]
  split_ifs
  · exact le_refl _
  · rw [length_append]
    exact Nat.le_add_right _ _

lemma length_le_moveTo (t : Terminal) (col : ℕ) : t.lines.length ≤ (t.moveTo col).lines.length := by
  rw [moveTo]
  split_ifs
  · exact le_refl _
  · exact t.length_le_newLine

lemma length_le_step (t : Terminal) (op : ConsoleOp) : t.lines.length ≤ (t.step op).lines.length := by
  cases op with
  | putcVga ch =>
    simp only [step, putc]
    split_ifs
    · exact t.length_le_newLine
    · exact le_refl _
    · exact t.length_le_moveTo _
    · refine le_trans ?_ (length_le_moveTo _ _)
      rw [length_modify]
  | setColor fg bg => exact le_refl _
  | scrollView lines => exact le_refl _

lemma length_le_run (ops : List ConsoleOp) (t : Terminal) :
    t.lines.length ≤ (run step t ops).lines.length :=
  run_preserves (I := fun u : Terminal => t.lines.length ≤ u.lines.length)
    (fun u op h => h.trans (u.length_le_step op)) (le_refl _)

lemma row_run_newlines (n : ℕ) (t : Terminal) :
    (run step t (replicate n (.putcVga 10))).row = t.row + n := by
  induction n generalizing t with
  | zero => rfl
  | succ n ih =>
    rw [replicate_succ, run_cons, ih]
    change t.row + 1 + n = t.row + (n + 1)
    omega

end Terminal

/-! ## The ring -/

/-- The console shows the terminal `t`: its ring holds the last lines. -/
structure Mirrors (c : Console) (t : Terminal) : Prop where
  col : c.cursorX = t.col
  row : c.cursorLineIndex = t.row
  color : c.vgaColor = t.color
  view : c.viewOffset = t.view
  first : c.firstLine = t.oldest
  count : c.lineCount = min t.lines.length 537
  slot : c.firstSlot = t.oldest % 537
  cells : ∀ i, t.oldest ≤ i → i < t.lines.length → t.lines[i]? = some (c.scrollbackBuf (i % 537))

/-- The rows of the VGA card are the lines of the view. -/
def Shown (c : Console) (t : Terminal) : Prop :=
  ∀ y, y < 25 → t.lines[t.newest - t.view + y]? = some (c.vga y)

variable {c c' : Console} {t : Terminal}

lemma lineSlot_eq {c : Console} {i : ℕ} (hslot : c.firstSlot = c.firstLine % 537)
    (hle : c.firstLine ≤ i) (hi : i < 2 ^ 64) : c.lineSlotForIndex i = i % 537 := by
  have hdelta : (i + 2 ^ 64 - c.firstLine) % 2 ^ 64 = i - c.firstLine := by omega
  change (c.firstSlot + (i + 2 ^ 64 - c.firstLine) % 2 ^ 64 % 537) % 537 = i % 537
  rw [hdelta, hslot]
  omega

namespace Mirrors

lemma lineSlot (h : Mirrors c t) (hlen : t.lines.length < 2 ^ 64) {i : ℕ} (hle : t.oldest ≤ i)
    (hi : i < t.lines.length) : c.lineSlotForIndex i = i % 537 := by
  refine lineSlot_eq ?_ (h.first ▸ hle) (hi.trans hlen)
  rw [h.slot, h.first]

lemma fin (h : Mirrors c t) : c.firstLine + c.lineCount = t.lines.length := by
  rw [h.first, h.count, t.oldest_eq]
  omega

section

variable (h : Mirrors c t) (ht : t.Ok) (hlen : t.lines.length < 2 ^ 64)
include h ht hlen

lemma newestStart : c.newestStart = t.newest := by
  have hrow := ht.row_lt
  have hle := ht.oldest_le
  have hmod : (t.row + 1) % 2 ^ 64 = t.row + 1 := Nat.mod_eq_of_lt (by omega)
  have hnewest : (if t.row + 1 > 25 then t.row + 1 - 25 else 0) = t.newest := by
    rw [t.newest_eq]
    split_ifs <;> omega
  change (if (if (c.cursorLineIndex + 1) % 2 ^ 64 > 25 then (c.cursorLineIndex + 1) % 2 ^ 64 - 25 else 0)
    < c.firstLine then c.firstLine else
    if (c.cursorLineIndex + 1) % 2 ^ 64 > 25 then (c.cursorLineIndex + 1) % 2 ^ 64 - 25 else 0) = _
  rw [h.row, hmod, hnewest, h.first, if_neg (by omega)]

lemma clampViewOffset : c.clampViewOffset = c := by
  have hview := ht.view_le
  rw [Console.clampViewOffset, h.newestStart ht hlen, h.first]
  refine if_neg ?_
  rw [h.view, not_lt]
  exact hview

lemma renderView : Mirrors c.renderView t ∧ Shown c.renderView t := by
  have hrender : c.renderView = { c with
      vga := c.renderView.vga
      cursorY := c.renderView.cursorY } := by
    rw [Console.renderView, h.clampViewOffset ht hlen]
  refine ⟨?_, fun y hy => ?_⟩
  · rw [hrender]
    exact ⟨h.col, h.row, h.color, h.view, h.first, h.count, h.slot, h.cells⟩
  · have hvga : c.renderView.vga y = c.scrollbackBuf (c.lineSlotForIndex (c.displayStartLine + y)) := by
      rw [Console.renderView, h.clampViewOffset ht hlen]
      exact if_pos hy
    have hstart : c.displayStartLine = t.newest - t.view := by
      rw [Console.displayStartLine, h.newestStart ht hlen, h.view]
    have hlt := ht.shown_lt hy
    have hge : t.oldest ≤ t.newest - t.view + y := by
      have hview := ht.view_le
      have hle := ht.oldest_le
      rw [t.maxView_eq] at hview
      omega
    rw [hvga, hstart, h.lineSlot hlen hge hlt]
    exact h.cells _ hge hlt

end

/-! ## Adding lines -/

lemma slot_inj {t : Terminal} {i j : ℕ} (hi : t.oldest ≤ i) (hi' : i < t.lines.length)
    (hj : t.oldest ≤ j) (hj' : j < t.lines.length) (heq : i % 537 = j % 537) : i = j := by
  have := t.oldest_eq
  omega

lemma addLine (h : Mirrors c t) (ht : Terminal.Ok { t with lines := t.lines ++ [blankLine t.color] })
    (hlen : t.lines.length + 1 < 2 ^ 64) :
    Mirrors c.addLine { t with lines := t.lines ++ [blankLine t.color] } := by
  set t' : Terminal := { t with lines := t.lines ++ [blankLine t.color] } with ht'
  have hlen' : t'.lines.length = t.lines.length + 1 := length_append
  have hold := t.oldest_eq
  have hold' := t'.oldest_eq
  have hcount := h.count
  have hslot : c.lineSlotForIndex ((c.firstLine + c.lineCount) % 2 ^ 64) = t.lines.length % 537 := by
    have hfirst := h.first
    rw [h.fin, Nat.mod_eq_of_lt (by omega)]
    exact lineSlot_eq (by rw [h.slot, h.first]) (by omega) (by omega)
  have hmod : (c.lineCount + 1) % 2 ^ 64 = c.lineCount + 1 := Nat.mod_eq_of_lt (by omega)
  -- the cleared slot is that of the new line, and of no line that is kept
  have hcells : ∀ i, t'.oldest ≤ i → i < t'.lines.length → t'.lines[i]? = some
      (Function.update c.scrollbackBuf (t.lines.length % 537) (blankLine c.vgaColor) (i % 537)) := by
    intro i hge hlt
    rw [h.color]
    by_cases hi : i = t.lines.length
    · rw [hi, update_self]
      exact getElem?_concat_length
    · have hne : i % 537 ≠ t.lines.length % 537 := by omega
      rw [update_of_ne hne, ← h.cells i (by omega) (by omega)]
      exact getElem?_append_left (by omega)
  rw [Console.addLine, hslot]
  simp only [Console.clearLineSlot, Console.dropOldestLineIfNeeded, hmod]
  split_ifs with hroom
  · have hroom : c.lineCount + 1 ≤ 537 := hroom
    exact ⟨h.col, h.row, h.color, h.view, by rw [h.first]; omega, by simp only; omega,
      by rw [h.slot]; omega, hcells⟩
  · have hroom : ¬ c.lineCount + 1 ≤ 537 := hroom
    have hdrop : Mirrors { c with
        scrollbackBuf := Function.update c.scrollbackBuf (t.lines.length % 537) (blankLine c.vgaColor)
        firstSlot := (c.firstSlot + 1) % 537
        firstLine := (c.firstLine + 1) % 2 ^ 64
        lineCount := c.lineCount } t' := by
      refine ⟨h.col, h.row, h.color, h.view, ?_, by simp only; omega, ?_, hcells⟩
      · simp only [h.first]
        omega
      · simp only [h.slot]
        omega
    have hclamp := hdrop.clampViewOffset ht (by omega)
    exact (congrArg (fun d => Mirrors d t') hclamp).mpr hdrop

lemma ensure_of_lt (h : Mirrors c t) (hlen : t.lines.length < 2 ^ 64) {i : ℕ}
    (hi : i < t.lines.length) (fuel : ℕ) : Console.ensureLineAvailable (fuel + 1) c i = some c := by
  rw [Console.ensureLineAvailable, h.fin, Nat.mod_eq_of_lt hlen]
  exact if_neg (not_le.mpr hi)

lemma startNewLine (h : Mirrors c t) (ht : t.Ok) (hlen : t.newLine.lines.length < 2 ^ 64)
    (fuel : ℕ) : ∃ c', Console.startNewLine (fuel + 2) c = some c' ∧ Mirrors c' t.newLine := by
  have hmax := Terminal.length_newLine ht
  have hrow := ht.row_lt
  have hroom : t.lines.length < 2 ^ 64 := by omega
  have hmod : (c.cursorLineIndex + 1) % 2 ^ 64 = t.row + 1 := by
    rw [h.row]
    exact Nat.mod_eq_of_lt (by omega)
  -- the cursor has moved, the lines are still the same
  have hmoved : Mirrors { c with cursorX := 0, cursorLineIndex := t.row + 1 }
      { t with row := t.row + 1, col := 0 } :=
    ⟨rfl, rfl, h.color, h.view, h.first, h.count, h.slot, h.cells⟩
  simp only [Console.startNewLine, hmod]
  by_cases hnext : t.row + 1 < t.lines.length
  · have hnew : t.newLine = { t with row := t.row + 1, col := 0 } := by
      rw [Terminal.newLine, if_pos hnext]
    rw [hnew]
    exact ⟨_, hmoved.ensure_of_lt hroom hnext _, hmoved⟩
  · have hnew : t.newLine = { t with
        row := t.row + 1, col := 0, lines := t.lines ++ [blankLine t.color] } := by
      rw [Terminal.newLine, if_neg hnext]
    have hok := ht.newLine
    have hroom' : t.lines.length + 1 < 2 ^ 64 := by omega
    rw [hnew] at hok ⊢
    have hadded := hmoved.addLine hok hroom'
    refine ⟨_, ?_, hadded⟩
    rw [Console.ensureLineAvailable, hmoved.fin, if_pos]
    · exact hadded.ensure_of_lt (by simp only [length_append, length_singleton]; omega)
        (by simp only [length_append, length_singleton]; omega) fuel
    · simp only
      rw [Nat.mod_eq_of_lt (by omega)]
      omega

/-! ## One call -/

lemma moveTo (h : Mirrors c t) (ht : t.Ok) {col : ℕ} (hlen : (t.moveTo col).lines.length < 2 ^ 64)
    (fuel : ℕ) : ∃ c', (if col ≥ vgaWidth then Console.startNewLine (fuel + 2) { c with cursorX := col }
      else some { c with cursorX := col }).map Console.renderView = some c' ∧
      Mirrors c' (t.moveTo col) ∧ Shown c' (t.moveTo col) := by
  have hok := ht.moveTo col
  by_cases hcol : col < vgaWidth
  · rw [if_neg (not_le.mpr hcol)]
    rw [Terminal.moveTo, if_pos hcol] at hlen hok ⊢
    have hmoved : Mirrors { c with cursorX := col } { t with col := col } :=
      ⟨rfl, h.row, h.color, h.view, h.first, h.count, h.slot, h.cells⟩
    exact ⟨_, rfl, hmoved.renderView hok hlen⟩
  · rw [if_pos (not_lt.mp hcol)]
    rw [Terminal.moveTo, if_neg hcol] at hlen hok ⊢
    obtain ⟨c', hc', hnew⟩ := h.startNewLine ht hlen fuel
    have hline : Console.startNewLine (fuel + 2) { c with cursorX := col } = some c' := hc'
    rw [hline]
    exact ⟨_, rfl, hnew.renderView hok hlen⟩

lemma writeChar (h : Mirrors c t) (ht : t.Ok) (hlen : t.lines.length < 2 ^ 64) (fuel : ℕ)
    (ch : UInt8) : ∃ c', Console.writeCharAtCursor (fuel + 1) c ch = some c' ∧ Mirrors c'
      { t with lines := t.lines.modify t.row (setCell · t.col (makeVgaEntry ch t.color)) } := by
  have hrow := ht.row_lt
  have hlow : t.oldest ≤ t.row := by
    have := ht.length
    have := t.oldest_eq
    omega
  have hlength : (t.lines.modify t.row (setCell · t.col (makeVgaEntry ch t.color))).length =
      t.lines.length := length_modify _ _ _
  have hold : Terminal.oldest
      { t with lines := t.lines.modify t.row (setCell · t.col (makeVgaEntry ch t.color)) } =
      t.oldest := by
    rw [Terminal.oldest_eq, hlength, t.oldest_eq]
  have hensure : Console.ensureLineAvailable (fuel + 1) c c.cursorLineIndex = some c :=
    h.ensure_of_lt hlen (h.row ▸ hrow) fuel
  have hslot : c.lineSlotForIndex c.cursorLineIndex = t.row % 537 := by
    rw [h.row]
    exact h.lineSlot hlen hlow hrow
  refine ⟨_, by rw [Console.writeCharAtCursor, hensure, Option.map_some], ?_⟩
  simp only [hslot, h.col, h.color]
  refine ⟨rfl, h.row, rfl, h.view, h.first.trans hold.symm, ?_, ?_, fun i hge hlt => ?_⟩
  · rw [hlength]
    exact h.count
  · rw [hold]
    exact h.slot
  · rw [hold] at hge
    rw [hlength] at hlt
    have hcell := h.cells i hge hlt
    by_cases hi : i = t.row
    · subst hi
      simp only [update_self, getElem?_modify_eq, hcell, Option.map_eq_map, Option.map_some]
    · have hne : i % 537 ≠ t.row % 537 := fun heq => hi (slot_inj hge hlt hlow hrow heq)
      simp only [update_of_ne hne, getElem?_modify_ne _ _ (Ne.symm hi), hcell]

lemma tab_stop {col : ℕ} (hcol : col < vgaWidth) :
    ((col + 4) &&& (2 ^ 32 - 1 - 3)) % 2 ^ 8 = (col / 4 + 1) * 4 := by
  have htable : ∀ x : Fin 80, ((x.val + 4) &&& (2 ^ 32 - 1 - 3)) % 2 ^ 8 = (x.val / 4 + 1) * 4 := by
    decide
  exact htable ⟨col, hcol⟩

lemma putcVga (h : Mirrors c t) (ht : t.Ok) {ch : UInt8} (hlen : (t.putc ch).lines.length < 2 ^ 64)
    (fuel : ℕ) : ∃ c', c.putcVga (fuel + 2) ch = some c' ∧ Mirrors c' (t.putc ch) ∧
      Shown c' (t.putc ch) := by
  have hok := ht.putc ch
  rw [Console.putcVga]
  rw [Terminal.putc] at hlen hok ⊢
  split_ifs at hlen hok ⊢ with hnewline hreturn htab
  · obtain ⟨c', hc', hnew⟩ := h.startNewLine ht hlen fuel
    rw [hc']
    exact ⟨_, rfl, hnew.renderView hok hlen⟩
  · have hmoved : Mirrors { c with cursorX := 0 } { t with col := 0 } :=
      ⟨rfl, h.row, h.color, h.view, h.first, h.count, h.slot, h.cells⟩
    exact ⟨_, rfl, hmoved.renderView hok hlen⟩
  · have hstop := tab_stop ht.col_lt
    simp only [h.col, hstop]
    exact h.moveTo ht hlen fuel
  · have hroom : t.lines.length < 2 ^ 64 := by
      refine lt_of_le_of_lt ?_ hlen
      refine le_trans (le_of_eq ?_) (Terminal.length_le_moveTo _ _)
      exact (length_modify _ _ _).symm
    obtain ⟨c', hc', hwritten⟩ := h.writeChar ht hroom (fuel + 1) ch
    have hcol : (c'.cursorX + 1) % 2 ^ 8 = t.col + 1 := by
      have hlt : t.col < 80 := ht.col_lt
      have heq : c'.cursorX = t.col := hwritten.col
      omega
    rw [hc', Option.bind_some]
    simp only [hcol]
    exact hwritten.moveTo (ht.modify _ _) hlen fuel

/-- `console_scroll_view` moves the offset by the number of lines it is given, within the bounds. -/
lemma scrollView_eq (h : Mirrors c t) (ht : t.Ok) (hlen : t.lines.length < 2 ^ 64) {lines : Int32}
    (hne : lines ≠ 0) :
    c.scrollView lines = Console.renderView { c with viewOffset := (t.scroll lines.toInt).view } := by
  have hview := ht.view_le
  have hmax : t.maxView ≤ 512 := by
    have := ht.length
    rw [t.maxView_eq, t.newest_eq, t.oldest_eq]
    omega
  have hlt := lines.toInt_lt
  have hge := lines.le_toInt
  have hscroll : (t.scroll lines.toInt).view = min (t.view + lines.toInt).toNat t.maxView := rfl
  have hbound : c.newestStart - c.firstLine = t.maxView := by
    rw [h.newestStart ht hlen, h.first, t.maxView_eq]
  rw [Console.scrollView, if_neg hne, hbound, h.view]
  refine congrArg Console.renderView ?_
  by_cases hpos : lines > 0
  · have hpos' : 0 < lines.toInt := Int32.lt_iff_toInt_lt.mp hpos
    have hmod : (t.view + lines.toInt.toNat) % 2 ^ 64 = t.view + lines.toInt.toNat :=
      Nat.mod_eq_of_lt (by omega)
    simp only [if_pos hpos, hmod]
    split_ifs with hover
    · rw [hscroll, min_eq_right (by omega)]
    · rw [hscroll, min_eq_left (by omega)]
      congr 1
      omega
  · have hneg : lines.toInt < 0 := by
      have hnot : ¬ 0 < lines.toInt := fun hlt => hpos (Int32.lt_iff_toInt_lt.mpr hlt)
      have hzero : lines.toInt ≠ 0 := fun heq => hne (Int32.toInt_inj.mp heq)
      omega
    have hdelta : t.view < ((-lines).toInt % 2 ^ 64).toNat ∧ t.view < -lines.toInt ∨
        (((-lines).toInt % 2 ^ 64).toNat : ℤ) = -lines.toInt := by
      rw [Int32.toInt_neg]
      by_cases hmin : lines.toInt = -2 ^ 31
      · refine Or.inl ?_
        have hwrap : ((-(-2 ^ 31 : ℤ)).bmod (2 ^ 32) % 2 ^ 64).toNat = 2 ^ 64 - 2 ^ 31 := by decide
        rw [hmin, hwrap]
        omega
      · refine Or.inr ?_
        rw [Int.bmod_eq_of_le (by omega) (by omega)]
        omega
    simp only [if_neg hpos]
    split_ifs with hover
    all_goals
      rw [hscroll, min_eq_left (by omega)]
      congr 1
      omega

lemma scrollView (h : Mirrors c t) (hshown : Shown c t) (ht : t.Ok)
    (hlen : t.lines.length < 2 ^ 64) (lines : Int32) :
    Mirrors (c.scrollView lines) (t.scroll lines.toInt) ∧
      Shown (c.scrollView lines) (t.scroll lines.toInt) := by
  by_cases hzero : lines = 0
  · have hview : min (t.view + lines.toInt).toNat t.maxView = t.view := by
      have hle := ht.view_le
      rw [hzero, show (0 : Int32).toInt = 0 from rfl]
      omega
    rw [Console.scrollView, if_pos hzero, Terminal.scroll, hview]
    exact ⟨h, hshown⟩
  · rw [h.scrollView_eq ht hlen hzero]
    have hmoved : Mirrors { c with viewOffset := (t.scroll lines.toInt).view }
        (t.scroll lines.toInt) :=
      ⟨h.col, h.row, h.color, rfl, h.first, h.count, h.slot, h.cells⟩
    exact hmoved.renderView (ht.step (.scrollView lines)) hlen

/-! ## Runs -/

lemma step (h : Mirrors c t) (hshown : Shown c t) (ht : t.Ok) {op : ConsoleOp}
    (hlen : (t.step op).lines.length < 2 ^ 64) (fuel : ℕ) :
    ∃ c', c.step (fuel + 2) op = some c' ∧ Mirrors c' (t.step op) ∧ Shown c' (t.step op) := by
  cases op with
  | putcVga ch => exact h.putcVga ht hlen fuel
  | setColor fg bg =>
    exact ⟨_, rfl, ⟨h.col, h.row, rfl, h.view, h.first, h.count, h.slot, h.cells⟩, hshown⟩
  | scrollView lines => exact ⟨_, rfl, h.scrollView hshown ht hlen lines⟩

lemma run {ops : List ConsoleOp} (h : Mirrors c t) (hshown : Shown c t) (ht : t.Ok)
    (hlen : (run Terminal.step t ops).lines.length < 2 ^ 64) (fuel : ℕ) :
    ∃ c', c.run (fuel + 2) ops = some c' ∧ Mirrors c' (run Terminal.step t ops) ∧
      Shown c' (run Terminal.step t ops) ∧ (Lib.run Terminal.step t ops).Ok := by
  induction ops generalizing c t with
  | nil => exact ⟨c, rfl, h, hshown, ht⟩
  | cons op ops ih =>
    have hroom : (t.step op).lines.length < 2 ^ 64 :=
      lt_of_le_of_lt (Terminal.length_le_run ops (t.step op)) hlen
    obtain ⟨c1, hc1, href1, hshown1⟩ := h.step hshown ht hroom fuel
    obtain ⟨c2, hc2, hrest⟩ := ih href1 hshown1 (ht.step op) hlen
    refine ⟨c2, ?_, hrest⟩
    rw [Console.run, foldlM_cons, hc1]
    exact hc2

lemma reset (c : Console) :
    Mirrors c.reset (Terminal.blank c.vgaColor) ∧ Shown c.reset (Terminal.blank c.vgaColor) := by
  have hlength : (Terminal.blank c.vgaColor).lines.length = 25 := length_replicate
  have hold : (Terminal.blank c.vgaColor).oldest = 0 := by rw [Terminal.oldest_eq, hlength]
  refine renderView ⟨rfl, rfl, rfl, rfl, hold.symm, ?_, ?_, fun i _ hi => ?_⟩
    (Terminal.ok_blank _) (by rw [hlength]; norm_num)
  · rw [hlength]
    rfl
  · rw [hold]
  · have hslot : i % 537 < totalLines := Nat.mod_lt _ (by norm_num)
    rw [hlength] at hi
    simp only [if_pos hslot, Terminal.blank]
    exact getElem?_replicate_of_lt hi

lemma run_init (c0 : Console) (ops : List ConsoleOp) (fuel : ℕ) :
    (Console.init fuel c0).bind (Console.run fuel · ops) =
      c0.reset.run fuel (bootMessage.map .putcVga ++ ops) := by
  rw [Console.init, Console.run, Console.run, foldlM_append]
  rfl

lemma boot {ops : List ConsoleOp} (c0 : Console)
    (hlen : (Lib.run Terminal.step (Terminal.boot c0.vgaColor) ops).lines.length < 2 ^ 64)
    (fuel : ℕ) : ∃ c, (Console.init (fuel + 2) c0).bind (Console.run (fuel + 2) · ops) = some c ∧
      Mirrors c (Lib.run Terminal.step (Terminal.boot c0.vgaColor) ops) ∧
      Shown c (Lib.run Terminal.step (Terminal.boot c0.vgaColor) ops) ∧
      (Lib.run Terminal.step (Terminal.boot c0.vgaColor) ops).Ok := by
  obtain ⟨hreset, hshown⟩ := reset c0
  rw [run_init]
  rw [Terminal.boot, ← run_append] at hlen ⊢
  exact hreset.run hshown (Terminal.ok_blank _) hlen fuel

end Mirrors

/-! ## The result -/

/-- What the console promises about the terminal it stands for. -/
structure Console.Shows (c : Console) (t : Terminal) : Prop where
  col_lt : c.cursorX < vgaWidth
  cursor_ge : c.firstLine ≤ c.cursorLineIndex
  cursor_lt : c.cursorLineIndex < c.firstLine + c.lineCount
  count_le : c.lineCount ≤ totalLines
  /-- Retained lines have slots of their own. -/
  slot_inj : ∀ i j, c.firstLine ≤ i → i < c.firstLine + c.lineCount → c.firstLine ≤ j →
    j < c.firstLine + c.lineCount → c.lineSlotForIndex i = c.lineSlotForIndex j → i = j
  /-- The retained lines are the last ones, as many as there is room for. -/
  newest_kept : c.firstLine + c.lineCount = t.lines.length
  count_eq : c.lineCount = min t.lines.length totalLines
  cells : ∀ i, c.firstLine ≤ i → i < c.firstLine + c.lineCount →
    t.lines[i]? = some (c.scrollbackBuf (c.lineSlotForIndex i))
  cursor : c.cursorX = t.col ∧ c.cursorLineIndex = t.row
  view : c.viewOffset = t.view ∧ t.view ≤ t.maxView
  rows : ∀ y, y < vgaHeight → t.lines[t.newest - t.view + y]? = some (c.vga y)

lemma Mirrors.shows (h : Mirrors c t) (hshown : Shown c t) (ht : t.Ok)
    (hlen : t.lines.length < 2 ^ 64) : c.Shows t := by
  have hfin := h.fin
  have hslot : ∀ i, c.firstLine ≤ i → i < c.firstLine + c.lineCount →
      c.lineSlotForIndex i = i % 537 := fun i hge hlt =>
    h.lineSlot hlen (h.first ▸ hge) (hfin ▸ hlt)
  refine ⟨h.col ▸ ht.col_lt, ?_, ?_, ?_, fun i j hi hi' hj hj' heq => ?_, hfin, h.count,
    fun i hge hlt => ?_, ⟨h.col, h.row⟩, ⟨h.view, ht.view_le⟩, hshown⟩
  · have := ht.length
    rw [h.first, h.row, t.oldest_eq]
    omega
  · rw [hfin, h.row]
    exact ht.row_lt
  · rw [h.count]
    exact min_le_right _ _
  · rw [hslot i hi hi', hslot j hj hj'] at heq
    exact Mirrors.slot_inj (h.first ▸ hi) (hfin ▸ hi') (h.first ▸ hj) (hfin ▸ hj') heq
  · rw [hslot i hge hlt]
    exact h.cells i (h.first ▸ hge) (hfin ▸ hlt)

/-- **The console refines a terminal.**  After `console_init` and any calls that do not run out of line
numbers, the ring holds the last lines of the terminal, and the screen shows the view. -/
theorem console_refines_terminal (c₀ : Console) (ops : List ConsoleOp) (fuel : ℕ)
    (hlen : (run Terminal.step (Terminal.boot c₀.vgaColor) ops).lines.length < 2 ^ 64) :
    ∃ c, (Console.init (fuel + 2) c₀).bind (Console.run (fuel + 2) · ops) = some c ∧
      c.Shows (run Terminal.step (Terminal.boot c₀.vgaColor) ops) := by
  obtain ⟨c, hrun, href, hshown, hok⟩ := Mirrors.boot c₀ hlen fuel
  exact ⟨c, hrun, href.shows hshown hok hlen⟩

/-- The memory of the console before `console_init`, with its initial values. -/
def Console.zero : Console := ⟨0, 0, 0x0F, fun _ _ => 0, 0, 0, vgaHeight, 0, 0, fun _ _ => 0⟩

/-- Text, an empty line, another colour, and a look back. -/
theorem console_refines_terminal_look_back :
    ∃ c, (Console.init 2 Console.zero).bind (Console.run 2 ·
        [.putcVga 65, .putcVga 9, .putcVga 10, .setColor 4 1, .putcVga 66, .scrollView 3]) = some c ∧
      c.Shows (run Terminal.step (Terminal.boot 0x0F)
        [.putcVga 65, .putcVga 9, .putcVga 10, .setColor 4 1, .putcVga 66, .scrollView 3]) := by
  refine console_refines_terminal Console.zero _ 0 ?_
  decide +kernel

/-! ## The end of the numbers -/

/-- The last number of a line is never reached by the counters, so the loop goes on. -/
lemma ensureLineAvailable_last (fuel : ℕ) (c : Console) :
    Console.ensureLineAvailable fuel c (2 ^ 64 - 1) = none := by
  induction fuel generalizing c with
  | zero => rfl
  | succ fuel ih =>
    rw [Console.ensureLineAvailable, if_pos, ih]
    exact Nat.le_sub_one_of_lt (Nat.mod_lt _ (by norm_num))

lemma run_newlines_eq_none {n : ℕ} (hn : n + 3 = 2 ^ 64) (fuel : ℕ) :
    (Console.init (fuel + 2) Console.zero).bind
      (Console.run (fuel + 2) · (replicate (n + 1) (.putcVga 10))) = none := by
  set t := run Terminal.step (Terminal.boot Console.zero.vgaColor)
    (replicate n (.putcVga 10)) with ht
  have hboot : (Terminal.boot Console.zero.vgaColor).row = 1 := by decide +kernel
  have hrow : t.row = n + 1 := by
    rw [ht, Terminal.row_run_newlines, hboot, Nat.add_comm]
  have hok : t.Ok :=
    run_preserves (I := Terminal.Ok) (fun _ op h => h.step op)
      (run_preserves (I := Terminal.Ok) (fun _ op h => h.step op) (Terminal.ok_blank _))
  have hlen : t.lines.length < 2 ^ 64 := by
    have := hok.length
    omega
  obtain ⟨c, hrun, href, -, -⟩ := Mirrors.boot Console.zero hlen fuel
  have hlast : (c.cursorLineIndex + 1) % 2 ^ 64 = 2 ^ 64 - 1 := by
    have : c.cursorLineIndex = n + 1 := href.row.trans hrow
    omega
  have hstep : c.step (fuel + 2) (.putcVga 10) = none := by
    simp only [Console.step, Console.putcVga, if_pos, Console.startNewLine, hlast,
      ensureLineAvailable_last, Option.map_none]
  rw [Mirrors.run_init] at hrun ⊢
  rw [replicate_succ', ← append_assoc, Console.run, foldlM_append]
  rw [Console.run] at hrun
  rw [hrun]
  change (c.step (fuel + 2) (.putcVga 10)).bind some = none
  rw [hstep, Option.bind_none]

/-- **The counters of the console wrap.**  The newline that starts the line of the number `2 ^ 64 - 1`
does not return. -/
theorem console_counters_wrap : ¬ ∃ fuel c, (Console.init (fuel + 2) Console.zero).bind
    (Console.run (fuel + 2) · (List.replicate (2 ^ 64 - 2) (.putcVga 10))) = some c := by
  rintro ⟨fuel, c, hrun⟩
  have hcount : 2 ^ 64 - 2 = 2 ^ 64 - 3 + 1 := by norm_num
  have hnone := run_newlines_eq_none (n := 2 ^ 64 - 3) (by norm_num) fuel
  rw [hcount, hnone] at hrun
  cases hrun

end MyOs
