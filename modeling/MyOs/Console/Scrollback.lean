import MyOs.Base

/-!
# The console

`src/console.c` keeps the last lines of its output in a ring of `TOTAL_LINES` lines and copies 25 of them
to the memory of the VGA card, the newest ones or, after `console_scroll_view`, older ones.  Lines have
numbers that count from `console_init` on: the line `scrollback_first_line` is the oldest in the ring and
lies in the slot `scrollback_first_slot`.

The counters are `size_t`, so they wrap at `2 ^ 64`.  The loop of `ensure_line_available` compares such
counters, and whether it ends depends on them: it carries a fuel argument, and `none` means that it did
not end.  Output to the serial port is left out.
-/

namespace MyOs

abbrev vgaWidth : ℕ := 80

abbrev vgaHeight : ℕ := 25

/-- `TOTAL_LINES`: the lines of the scrollback and of the screen. -/
abbrev totalLines : ℕ := 512 + vgaHeight

/-- The cells of a line. -/
abbrev Line := Fin vgaWidth → UInt16

/-- The static variables of `console.c`, and the memory of the VGA card by rows. -/
structure Console where
  cursorX : ℕ
  cursorY : ℕ
  vgaColor : UInt8
  scrollbackBuf : ℕ → Line
  firstLine : ℕ
  firstSlot : ℕ
  lineCount : ℕ
  cursorLineIndex : ℕ
  viewOffset : ℕ
  vga : ℕ → Line

/-- `(uint16_t)c` of a `char`, which is signed. -/
def charToU16 (c : UInt8) : UInt16 := if c < 128 then c.toUInt16 else c.toUInt16 ||| 0xFF00

def makeVgaEntry (c color : UInt8) : UInt16 := charToU16 c ||| color.toUInt16 <<< 8

/-- A line of spaces. -/
def blankLine (color : UInt8) : Line := fun _ => makeVgaEntry 32 color

/-- The assignment `line[x] = v`. -/
def setCell (line : Line) (x : ℕ) (v : UInt16) : Line := fun i => if i.val = x then v else line i

namespace Console

def lineSlotForIndex (c : Console) (lineIndex : ℕ) : ℕ :=
  let delta := (lineIndex + 2 ^ 64 - c.firstLine) % 2 ^ 64 % totalLines
  (c.firstSlot + delta) % totalLines

def clearLineSlot (c : Console) (slot : ℕ) : Console :=
  { c with scrollbackBuf := Function.update c.scrollbackBuf slot (blankLine c.vgaColor) }

/-- `newest_start`: the first line of the newest screen. -/
def newestStart (c : Console) : ℕ :=
  let newest := if (c.cursorLineIndex + 1) % 2 ^ 64 > vgaHeight then
    (c.cursorLineIndex + 1) % 2 ^ 64 - vgaHeight else 0
  if newest < c.firstLine then c.firstLine else newest

def clampViewOffset (c : Console) : Console :=
  let maxOffset := c.newestStart - c.firstLine
  if c.viewOffset > maxOffset then { c with viewOffset := maxOffset } else c

/-- `display_start_line`, after it has clamped the offset. -/
def displayStartLine (c : Console) : ℕ := c.newestStart - c.viewOffset

def renderView (c : Console) : Console :=
  let c := c.clampViewOffset
  let startLine := c.displayStartLine
  { c with
    vga := fun y => if y < vgaHeight then c.scrollbackBuf (c.lineSlotForIndex (startLine + y)) else c.vga y
    cursorY :=
      if c.cursorLineIndex ≥ startLine then
        let rel := c.cursorLineIndex - startLine
        if rel < vgaHeight then rel else vgaHeight - 1
      else 0 }

def dropOldestLineIfNeeded (c : Console) : Console :=
  if c.lineCount ≤ totalLines then c
  else
    clampViewOffset { c with
      firstSlot := (c.firstSlot + 1) % totalLines
      firstLine := (c.firstLine + 1) % 2 ^ 64
      lineCount := c.lineCount - 1 }

/-- The body of the loop of `ensure_line_available`. -/
def addLine (c : Console) : Console :=
  let newSlot := c.lineSlotForIndex ((c.firstLine + c.lineCount) % 2 ^ 64)
  let c := c.clearLineSlot newSlot
  dropOldestLineIfNeeded { c with lineCount := (c.lineCount + 1) % 2 ^ 64 }

def ensureLineAvailable : (fuel : ℕ) → Console → (lineIndex : ℕ) → Option Console
  | 0, _, _ => none
  | fuel + 1, c, lineIndex =>
    if lineIndex ≥ (c.firstLine + c.lineCount) % 2 ^ 64 then
      ensureLineAvailable fuel c.addLine lineIndex
    else some c

def startNewLine (fuel : ℕ) (c : Console) : Option Console :=
  let c := { c with cursorX := 0, cursorLineIndex := (c.cursorLineIndex + 1) % 2 ^ 64 }
  ensureLineAvailable fuel c c.cursorLineIndex

def writeCharAtCursor (fuel : ℕ) (c : Console) (ch : UInt8) : Option Console :=
  (ensureLineAvailable fuel c c.cursorLineIndex).map fun c =>
    let slot := c.lineSlotForIndex c.cursorLineIndex
    { c with
      scrollbackBuf := Function.update c.scrollbackBuf slot
        (setCell (c.scrollbackBuf slot) c.cursorX (makeVgaEntry ch c.vgaColor)) }

/-- `console_putc_vga`. -/
def putcVga (fuel : ℕ) (c : Console) (ch : UInt8) : Option Console :=
  if ch = 10 then (startNewLine fuel c).map renderView
  else if ch = 13 then some (renderView { c with cursorX := 0 })
  else if ch = 9 then
    let c := { c with cursorX := ((c.cursorX + 4) &&& (2 ^ 32 - 1 - 3)) % 2 ^ 8 }
    (if c.cursorX ≥ vgaWidth then startNewLine fuel c else some c).map renderView
  else
    (writeCharAtCursor fuel c ch).bind fun c =>
      let c := { c with cursorX := (c.cursorX + 1) % 2 ^ 8 }
      (if c.cursorX ≥ vgaWidth then startNewLine fuel c else some c).map renderView

/-- `console_set_color`. -/
def setColor (c : Console) (fg bg : UInt8) : Console :=
  { c with vgaColor := bg <<< 4 ||| fg &&& 0x0F }

/-- `console_scroll_view`. -/
def scrollView (c : Console) (lines : Int32) : Console :=
  if lines = 0 then c
  else
    let maxOffset := c.newestStart - c.firstLine
    renderView <|
      if lines > 0 then
        let delta := lines.toInt.toNat
        if (c.viewOffset + delta) % 2 ^ 64 > maxOffset then { c with viewOffset := maxOffset }
        else { c with viewOffset := c.viewOffset + delta }
      else
        -- as a `size_t`, also for the one number that has no negative
        let delta := ((-lines).toInt % 2 ^ 64).toNat
        if delta > c.viewOffset then { c with viewOffset := 0 }
        else { c with viewOffset := c.viewOffset - delta }

end Console

/-- A call of the console. -/
inductive ConsoleOp
  | putcVga (ch : UInt8)
  | setColor (fg bg : UInt8)
  | scrollView (lines : Int32)

/-- One call. -/
def Console.step (fuel : ℕ) (c : Console) : ConsoleOp → Option Console
  | .putcVga ch => c.putcVga fuel ch
  | .setColor fg bg => some (c.setColor fg bg)
  | .scrollView lines => some (c.scrollView lines)

/-- Calls one after the other. -/
def Console.run (fuel : ℕ) (c : Console) (ops : List ConsoleOp) : Option Console :=
  ops.foldlM (Console.step fuel) c

/-- The text `console_init` writes. -/
def bootMessage : List UInt8 := ascii "TinyOS64 booting...\n"

/-- The variables as `console_init` sets them, before it writes. -/
def Console.reset (c : Console) : Console :=
  renderView { c with
    scrollbackBuf := fun slot => if slot < totalLines then blankLine c.vgaColor else c.scrollbackBuf slot
    firstLine := 0
    firstSlot := 0
    lineCount := vgaHeight
    cursorLineIndex := 0
    viewOffset := 0
    cursorX := 0
    cursorY := 0 }

/-- `console_init`. -/
def Console.init (fuel : ℕ) (c : Console) : Option Console :=
  Console.run fuel c.reset (bootMessage.map .putcVga)

end MyOs
