import ArchaOS.Construction.Demo
import ArchaOS.Proof.Graphics.Line
import ArchaOS.Proof.MemoryCopy.Builds
import ArchaOS.Proof.Output.Display
import ArchaOS.Proof.Stdio.Numbers

namespace ArchaOS.Demo

open Library Graphics MemoryCopy
open Terminal (Font)

/-- The pixels of one edge, if both of its vertices are visible. -/
def edgePoints (vertices : Vertices) (edge : Nat × Nat) : List (Int × Int) :=
  match vertices edge.1, vertices edge.2 with
  | some first, some second =>
      linePoints first.1.toInt first.2.toInt second.1.toInt second.2.toInt
  | _, _ => []

/-- A point of the plane as a pixel of a buffer. -/
def pixelOf (point : Int × Int) : Nat × Nat :=
  ((BitVec.ofInt 32 point.1).toNat, (BitVec.ofInt 32 point.2).toNat)

/-- The pixel lies on an edge. -/
def OnEdge (vertices : Vertices) (x y : Nat) : Prop :=
  ∃ edge ∈ edges, ∃ point ∈ edgePoints vertices edge, pixelOf point = (x, y)

instance decidableOnEdge (vertices : Vertices) (x y : Nat) : Decidable (OnEdge vertices x y) :=
  inferInstanceAs (Decidable (∃ edge ∈ edges, ∃ point ∈ edgePoints vertices edge, _))

/-- The coordinates of the visible vertices are small enough for the lines between them. -/
def Bounded (vertices : Vertices) : Prop :=
  ∀ vertex place, vertices vertex = some place → InRange place.1.toInt ∧ InRange place.2.toInt

section Drawing

variable {buffers : Buffers} {fuel : Nat} {vertices : Vertices} (bounded : Bounded vertices)
  (enough : 2 ^ 29 < fuel)
include bounded enough

/-- An edge is drawn by storing the pixels of its points. -/
theorem drawEdge_eq (memory : Memory) (edge : Nat × Nat) :
    drawEdge buffers fuel vertices memory edge = .ok ((edgePoints vertices edge).foldl
      (fun memory point => storePixel buffers.backbuffer (BitVec.ofInt 32 point.1)
        (BitVec.ofInt 32 point.2) 0x00DDDDDD memory) memory) := by
  unfold drawEdge edgePoints
  cases first : vertices edge.1 with
  | none => rfl
  | some start =>
      cases second : vertices edge.2 with
      | none => rfl
      | some stop =>
          obtain ⟨startX, startY⟩ := bounded _ _ first
          obtain ⟨stopX, stopY⟩ := bounded _ _ second
          have turns : max (stop.1.toInt - start.1.toInt).natAbs (stop.2.toInt - start.2.toInt).natAbs <
              fuel := by
            unfold InRange at startX startY stopX stopY
            omega
          dsimp only
          rw [drawLineQ, traceLine_eq _ startX startY stopX stopY turns]
          rfl

/-- The edges are drawn one after the other. -/
theorem drawEdges_eq (memory : Memory) :
    edges.foldlM (drawEdge buffers fuel vertices) memory = .ok (edges.foldl (fun memory edge =>
      (edgePoints vertices edge).foldl (fun memory point => storePixel buffers.backbuffer
        (BitVec.ofInt 32 point.1) (BitVec.ofInt 32 point.2) 0x00DDDDDD memory) memory) memory) := by
  have draws : drawEdge buffers fuel vertices = fun memory edge => pure ((edgePoints vertices edge).foldl
      (fun memory point => storePixel buffers.backbuffer (BitVec.ofInt 32 point.1)
        (BitVec.ofInt 32 point.2) 0x00DDDDDD memory) memory) := by
    funext memory edge
    exact drawEdge_eq bounded enough memory edge
  rw [draws, List.foldlM_pure]
  rfl

/-- The loop over the edges paints exactly their pixels. -/
theorem drawEdges_paints (proper : buffers.framebuffer.Proper) (memory : Memory) :
    ∃ drawn, edges.foldlM (drawEdge buffers fuel vertices) memory = .ok drawn ∧
      Paints buffers.backbuffer (OnEdge vertices) 0x00DDDDDD memory drawn := by
  have same : buffers.backbuffer.Proper := proper
  refine ⟨_, drawEdges_eq bounded enough memory, ?_⟩
  refine paints_of_sets same (fun bytes => edges.foldl (fun bytes edge =>
    (edgePoints vertices edge).foldl (fun bytes point => (storePixel buffers.backbuffer
      (BitVec.ofInt 32 point.1) (BitVec.ofInt 32 point.2) 0x00DDDDDD ⟨bytes⟩).byte) bytes) bytes) ?_ ?_
  · rw [foldl_byte (fun (edge : Nat × Nat) memory => (edgePoints vertices edge).foldl
      (fun memory point => storePixel buffers.backbuffer (BitVec.ofInt 32 point.1)
        (BitVec.ofInt 32 point.2) 0x00DDDDDD memory) memory)]
    simp only [foldl_byte]
  · intro byte
    refine SetsWhen.congr (SetsWhen.loop fun edge _ => SetsWhen.loop fun point _ =>
      storePixel_sets same (BitVec.ofInt 32 point.1) (BitVec.ofInt 32 point.2) 0x00DDDDDD byte) ?_
    constructor
    · rintro ⟨x, y, ⟨edge, listed, point, member, here⟩, visible⟩
      obtain ⟨rfl, rfl⟩ := Prod.mk.inj here
      exact ⟨edge, listed, point, member, visible⟩
    · rintro ⟨edge, listed, point, member, visible⟩
      exact ⟨_, _, ⟨edge, listed, point, member, rfl⟩, visible⟩

end Drawing

/-- The three ranges of bytes have none in common, and the pixels of a row do not overlap the next. -/
structure Apart (buffers : Buffers) : Prop where
  proper : buffers.framebuffer.Proper
  screen : buffers.framebuffer.address + buffers.fbSize ≤ buffers.backbufferAddr ∧
    buffers.framebuffer.address + buffers.fbSize ≤ buffers.backgroundAddr
  blocks : buffers.backbufferAddr + buffers.fbSize ≤ buffers.backgroundAddr ∨
    buffers.backgroundAddr + buffers.fbSize ≤ buffers.backbufferAddr

/-- The byte lies in the range of `fb_size` bytes from the address on. -/
def Buffers.Holds (buffers : Buffers) (address byte : Nat) : Prop :=
  address ≤ byte ∧ byte < address + buffers.fbSize

/-- The background is that of the screen before the show, and nothing outside of the buffers has
changed. -/
structure Kept (buffers : Buffers) (before memory : Memory) : Prop where
  background : ∀ i < buffers.fbSize,
    memory.byte (buffers.backgroundAddr + i) = before.byte (buffers.framebuffer.address + i)
  other : ∀ byte, ¬ buffers.Holds buffers.framebuffer.address byte →
    ¬ buffers.Holds buffers.backbufferAddr byte → ¬ buffers.Holds buffers.backgroundAddr byte →
    memory.byte byte = before.byte byte

/-- The screen holds one frame: its edges in front of the background, and no pixel of another frame. -/
structure Presented (buffers : Buffers) (before : Memory) (vertices : Vertices) (memory : Memory) :
    Prop extends Kept buffers before memory where
  pixels : ∀ x < buffers.framebuffer.width, ∀ y < buffers.framebuffer.height,
    buffers.framebuffer.pixel memory x y =
      if OnEdge vertices x y then 0x00DDDDDD else buffers.framebuffer.pixel before x y
  rest : ∀ byte, buffers.Holds buffers.framebuffer.address byte →
    (∀ x < buffers.framebuffer.width, ∀ y < buffers.framebuffer.height, OnEdge vertices x y →
      ¬ Within buffers.framebuffer x y byte) →
    memory.byte byte = before.byte byte

/-- The copy of a frame is a move. -/
theorem memcpy_moves {dest src n : Nat} (qemuTest : Nat) (ranges : Ranges dest src n)
    (memory : Memory) : (memcpy qemuTest dest src n memory).2 = memory.move dest src n := by
  by_cases string : qemuTest = 0
  · rw [string, ranges.memcpy_string memory]
  · rw [ranges.memcpy_blocks string]

section Copies

variable {buffers : Buffers} (apart : Apart buffers)
include apart

/-- The background and the back buffer do not overlap. -/
theorem Apart.restores : Ranges buffers.backbufferAddr buffers.backgroundAddr buffers.fbSize where
  pointer := by
    have fits := buffers.backbufferFits
    omega
  destFits := Nat.le_of_lt buffers.backbufferFits
  srcFits := Nat.le_of_lt buffers.backgroundFits
  apart := apart.blocks

/-- The back buffer and the framebuffer do not overlap. -/
theorem Apart.presents : Ranges buffers.framebuffer.address buffers.backbufferAddr buffers.fbSize where
  pointer := buffers.framebuffer.addressFits
  destFits := buffers.framebufferFits
  srcFits := Nat.le_of_lt buffers.backbufferFits
  apart := Or.inl apart.screen.1

/-- The framebuffer and the background do not overlap. -/
theorem Apart.saves : Ranges buffers.backgroundAddr buffers.framebuffer.address buffers.fbSize where
  pointer := by
    have fits := buffers.backgroundFits
    omega
  destFits := Nat.le_of_lt buffers.backgroundFits
  srcFits := buffers.framebufferFits
  apart := Or.inr apart.screen.2

/-- A visible pixel lies in the range of the buffer. -/
theorem Apart.within (address : Nat) {x y byte : Nat} (column : x < buffers.framebuffer.width)
    (row : y < buffers.framebuffer.height)
    (lower : address + 4 * (y * buffers.framebuffer.pitch + x) ≤ byte)
    (upper : byte < address + 4 * (y * buffers.framebuffer.pitch + x) + 4) :
    buffers.Holds address byte := by
  have narrow : buffers.framebuffer.width ≤ buffers.framebuffer.pitch := apart.proper
  have covers := buffers.covers
  have last : (y + 1) * buffers.framebuffer.pitch ≤
      buffers.framebuffer.height * buffers.framebuffer.pitch := Nat.mul_le_mul_right _ row
  rw [Nat.add_mul, Nat.one_mul, Nat.mul_comm buffers.framebuffer.height] at last
  exact ⟨by omega, by omega⟩

/-- The background is saved once. -/
theorem Apart.saved (before : Memory) :
    Kept buffers before ((before.move buffers.backgroundAddr buffers.framebuffer.address
      buffers.fbSize).move buffers.backbufferAddr buffers.backgroundAddr buffers.fbSize) where
  background := by
    intro i inside
    have blocks := apart.blocks
    rw [Memory.move_outside (by omega), Memory.move_inside inside]
  other := by
    intro byte _ backbuffer background
    unfold Buffers.Holds at backbuffer background
    rw [Memory.move_outside (by omega), Memory.move_outside (by omega)]

/-- The three steps of one frame: the background is restored, the edges are drawn, and the result is
copied to the screen. -/
theorem Apart.presented {before memory drawn : Memory} {vertices : Vertices}
    (kept : Kept buffers before memory)
    (paints : Paints buffers.backbuffer (OnEdge vertices) 0x00DDDDDD
      (memory.move buffers.backbufferAddr buffers.backgroundAddr buffers.fbSize) drawn) :
    Presented buffers before vertices
      (drawn.move buffers.framebuffer.address buffers.backbufferAddr buffers.fbSize) := by
  have screen := apart.screen
  have blocks := apart.blocks
  -- Drawing stays within the backbuffer.
  have still : ∀ byte, ¬ buffers.Holds buffers.backbufferAddr byte → drawn.byte byte =
      (memory.move buffers.backbufferAddr buffers.backgroundAddr buffers.fbSize).byte byte := by
    intro byte outside
    refine paints.other byte ?_
    intro x column y row _
    by_contra touched
    have within : Within buffers.backbuffer x y byte := by
      unfold Within
      omega
    exact outside (apart.within _ column row within.1 within.2)
  have restored : ∀ i < buffers.fbSize, (memory.move buffers.backbufferAddr buffers.backgroundAddr
      buffers.fbSize).byte (buffers.backbufferAddr + i) =
        before.byte (buffers.framebuffer.address + i) := by
    intro i inside
    rw [Memory.move_inside inside, kept.background i inside]
  constructor
  · constructor
    · intro i inside
      rw [Memory.move_outside (by omega), still _ (by unfold Buffers.Holds; omega),
        Memory.move_outside (by omega), kept.background i inside]
    · intro byte outside backbuffer background
      rw [Memory.move_outside (by unfold Buffers.Holds at outside; omega), still byte backbuffer,
        Memory.move_outside (by unfold Buffers.Holds at backbuffer; omega),
        kept.other byte outside backbuffer background]
  · intro x column y row
    have last : 4 * (y * buffers.framebuffer.pitch + x) + 4 ≤ buffers.fbSize := by
      obtain ⟨_, upper⟩ := apart.within 0 column row (Nat.le_add_right _ 3) (by omega)
      omega
    have source : (memory.move buffers.backbufferAddr buffers.backgroundAddr buffers.fbSize).read
        (buffers.backbufferAddr + 4 * (y * buffers.framebuffer.pitch + x)) 4 =
          buffers.framebuffer.pixel before x y := by
      have saved : memory.read (buffers.backgroundAddr + 4 * (y * buffers.framebuffer.pitch + x)) 4 =
          (before.move buffers.backgroundAddr buffers.framebuffer.address buffers.fbSize).read
            (buffers.backgroundAddr + 4 * (y * buffers.framebuffer.pitch + x)) 4 := by
        apply Memory.read_congr
        intro byte lower upper
        obtain ⟨i, rfl⟩ := Nat.exists_eq_add_of_le (Nat.le_trans (Nat.le_add_right _ _) lower)
        rw [kept.background i (by omega), Memory.move_inside (by omega)]
      rw [Memory.read_move _ last, saved, Memory.read_move _ last]
      rfl
    refine (Memory.read_move drawn last).trans ((paints.pixels x column y row).trans ?_)
    rw [← source]
    rfl
  · intro byte inside away
    obtain ⟨i, rfl⟩ := Nat.exists_eq_add_of_le inside.1
    have small : i < buffers.fbSize := by
      have upper := inside.2
      omega
    rw [Memory.move_inside small, ← restored i small]
    refine paints.other _ ?_
    intro x column y row edge
    have missed := away x column y row edge
    change buffers.backbufferAddr + i < buffers.backbufferAddr + 4 * (y * buffers.framebuffer.pitch + x) ∨
      buffers.backbufferAddr + 4 * (y * buffers.framebuffer.pitch + x) + 4 ≤ buffers.backbufferAddr + i
    unfold Within at missed
    omega

end Copies

/-- The characters of a report. -/
def reportText (elapsed : Nat) : List UInt8 :=
  [70, 84, 58, 32] ++ Stdio.printUint (elapsed % 2 ^ 32) ++ [13]

/-- The format of the report expands to its text. -/
theorem printLoop_report (elapsed : Nat) :
    Stdio.printLoop reportFormat [.word (BitVec.ofNat 32 elapsed)] = .ok (reportText elapsed) := by
  rfl

/-- The report prints its text. -/
theorem report_eq (buffers : Buffers) (font : Font) (elapsed : Nat) (console : Output.Console) :
    report buffers font elapsed console = .ok (Output.putchars (some buffers.framebuffer) font
      ((reportText elapsed).map Output.printed) console) := by
  rw [report, printLoop_report]
  rfl

/-- A number has neither tabs nor line feeds. -/
theorem printUint_visible (value : Nat) : ∀ c ∈ Stdio.printUint value, c ≠ 9 ∧ c ≠ 10 := by
  have digits : ∀ digit < 10, Stdio.digitChar digit ≠ 9 ∧ Stdio.digitChar digit ≠ 10 := by decide
  have last := digits (value % 10) (Nat.mod_lt _ (by decide))
  fun_induction Stdio.printUint value with
  | case1 value more ih =>
      intro c member
      rcases List.mem_append.mp member with first | final
      · exact ih (digits _ (Nat.mod_lt _ (by decide))) c first
      · rw [List.mem_singleton.mp final]
        exact last
  | case2 value few =>
      intro c member
      rw [List.mem_singleton.mp member]
      exact last

section Reports

variable {buffers : Buffers} (proper : buffers.framebuffer.Proper) (font : Font)
include proper

/-- Painting a cell leaves the row of the cursor. -/
theorem paintCell_row (color : Nat → Nat → BitVec 32) (console : Output.Console) :
    (Output.paintCell buffers.framebuffer font color console).cursorY = console.cursorY := by
  have displayed := (Output.displays_screen buffers.framebuffer console).paintCell proper font color
  have still := Terminal.paintCell_cursor (buffers.framebuffer.framebuffer proper) font
    (fun row col => (color row col).toNat)
    (buffers.framebuffer.screen console.memory console.cursorX console.cursorY)
  exact displayed.cursorY.trans still.2

omit proper in
/-- Scrolling leaves the row of the cursor. -/
theorem scroll_row {test : Prop} [Decidable test] (background : BitVec 32) (framebuffer : PixelBuffer)
    (console : Output.Console) :
    (if test then Output.scroll background font framebuffer console else console).cursorY =
      console.cursorY := by
  split <;> rfl

/-- Only a tab or a line feed moves the cursor to another row. -/
theorem putchar_row {c : UInt8} (visible : c ≠ 9 ∧ c ≠ 10) (foreground background : BitVec 32)
    (console : Output.Console) :
    (Output.putchar c foreground background font (some buffers.framebuffer) console).cursorY =
      console.cursorY := by
  unfold Output.putchar
  dsimp only
  rw [if_neg visible.2, if_neg visible.1]
  split
  · rfl
  split
  · exact paintCell_row proper font _ _
  split
  · rfl
  · rw [scroll_row font, scroll_row font]
    exact paintCell_row proper font _ _

/-- Visible characters leave the row of the cursor. -/
theorem putchars_row {chars : List UInt8} (visible : ∀ c ∈ chars, c ≠ 9 ∧ c ≠ 10)
    (console : Output.Console) :
    (Output.putchars (some buffers.framebuffer) font (chars.map Output.printed) console).cursorY =
      console.cursorY := by
  induction chars generalizing console with
  | nil => rfl
  | cons c rest ih =>
      rw [List.forall_mem_cons] at visible
      exact (ih visible.2 _).trans (putchar_row proper font visible.1 _ _ console)

/-- A report ends at the left edge of the row in which it began. -/
theorem report_cursor (elapsed : Nat) (console : Output.Console) :
    let after := Output.putchars (some buffers.framebuffer) font
      ((reportText elapsed).map Output.printed) console
    after.cursorX = 0 ∧ after.cursorY = console.cursorY := by
  have visible : ∀ c ∈ reportText elapsed, c ≠ 9 ∧ c ≠ 10 := by
    unfold reportText
    rw [List.forall_mem_append, List.forall_mem_append]
    exact ⟨⟨by simp, printUint_visible _⟩, by simp⟩
  refine ⟨?_, putchars_row proper font visible console⟩
  rw [reportText, List.map_append, Output.putchars, List.foldl_append]
  rfl

/-- A report changes the screen alone. -/
theorem report_outside (elapsed : Nat) (console : Output.Console) {byte : Nat}
    (outside : ¬ buffers.Holds buffers.framebuffer.address byte) :
    (Output.putchars (some buffers.framebuffer) font ((reportText elapsed).map Output.printed)
      console).memory.byte byte = console.memory.byte byte := by
  have covers := buffers.covers
  unfold Buffers.Holds at outside
  exact ((Output.displays_screen buffers.framebuffer console).putchars proper font _).outside byte
    (by omega)

end Reports

/-- What the loop has shown: the report of the last frame in front of the frame itself. -/
structure Shown (buffers : Buffers) (font : Font) (before : Memory) (since cursorX cursorY : Nat)
    (frame : Frame) (progress : Show) : Prop where
  reportStart : progress.reportStart = Sleep.getMilliseconds frame.ticks
  console : ∃ presented, Presented buffers before frame.vertices presented ∧
    progress.console = Output.putchars (some buffers.framebuffer) font
      ((reportText (sub64 (Sleep.getMilliseconds frame.ticks) (Sleep.getMilliseconds since))).map
        Output.printed) ⟨cursorX, cursorY, presented⟩

section Turns

variable {buffers : Buffers} (apart : Apart buffers) {qemuTest fuel : Nat} (enough : 2 ^ 29 < fuel)
  {font : Font} {before : Memory}
include apart

/-- A shown frame keeps every byte outside the buffers. -/
theorem Apart.shown_kept {since cursorX cursorY : Nat} {frame : Frame} {progress : Show}
    (shown : Shown buffers font before since cursorX cursorY frame progress) :
    Kept buffers before progress.console.memory ∧ progress.console.cursorX = 0 ∧
      progress.console.cursorY = cursorY := by
  obtain ⟨_, presented, frames, result⟩ := shown
  have screen := apart.screen
  rw [result]
  refine ⟨⟨?_, ?_⟩, report_cursor apart.proper font _ _⟩
  · intro i inside
    rw [report_outside apart.proper font _ _ (by unfold Buffers.Holds; omega)]
    exact frames.background i inside
  · intro byte outside backbuffer background
    rw [report_outside apart.proper font _ _ outside]
    exact frames.other byte outside backbuffer background

include enough

/-- A turn of the loop shows its frame, whatever the screen and the backbuffer hold. -/
theorem Apart.turn {progress : Show} {frame : Frame} {since : Nat}
    (started : progress.reportStart = Sleep.getMilliseconds since)
    (kept : Kept buffers before progress.console.memory) (bounded : Bounded frame.vertices) :
    ∃ after, turn buffers qemuTest fuel font progress frame = .ok after ∧
      Shown buffers font before since progress.console.cursorX progress.console.cursorY frame after := by
  obtain ⟨drawn, edgesDrawn, paints⟩ := drawEdges_paints bounded enough apart.proper
    (progress.console.memory.move buffers.backbufferAddr buffers.backgroundAddr buffers.fbSize)
  have presented := apart.presented kept paints
  refine ⟨⟨Sleep.getMilliseconds frame.ticks, Output.putchars (some buffers.framebuffer) font
    ((reportText (sub64 (Sleep.getMilliseconds frame.ticks) (Sleep.getMilliseconds since))).map
      Output.printed) ⟨progress.console.cursorX, progress.console.cursorY, _⟩⟩, ?_, rfl, _, presented, rfl⟩
  simp only [Demo.turn, memcpy_moves qemuTest apart.restores, memcpy_moves qemuTest apart.presents,
    edgesDrawn, report_eq, started]
  rfl

/-- The whole show. -/
theorem Apart.frames {progress : Show} {since : Nat} (frames : List Frame) (last : Frame)
    (bounded : ∀ frame ∈ frames ++ [last], Bounded frame.vertices)
    (started : progress.reportStart = Sleep.getMilliseconds since)
    (kept : Kept buffers before progress.console.memory) :
    ∃ after, (frames ++ [last]).foldlM (Demo.turn buffers qemuTest fuel font) progress = .ok after ∧
      Shown buffers font before ((frames.getLast?.map Frame.ticks).getD since)
        (if frames = [] then progress.console.cursorX else 0) progress.console.cursorY last after := by
  induction frames generalizing progress since with
  | nil =>
      obtain ⟨after, turned, shown⟩ := apart.turn enough started kept (bounded last (by simp))
      refine ⟨after, ?_, shown⟩
      rw [List.nil_append, List.foldlM_cons, turned]
      rfl
  | cons frame rest ih =>
      obtain ⟨next, turned, shown⟩ := apart.turn enough started kept (bounded frame (by simp))
      obtain ⟨kept, left, row⟩ := apart.shown_kept shown
      obtain ⟨after, run, result⟩ := ih (fun other member => bounded other (List.mem_cons_of_mem _ member))
        shown.reportStart kept
      refine ⟨after, ?_, ?_⟩
      · rw [List.cons_append, List.foldlM_cons, turned]
        exact run
      · rw [left, row, ite_self] at result
        rw [if_neg (List.cons_ne_nil _ _), List.getLast?_cons]
        generalize rest.getLast? = final at result ⊢
        cases final <;> exact result

variable (qemuTest font)

/-- The show saves the screen and goes through its frames. -/
theorem Apart.showFrames (console : Output.Console) (ticks : Nat) (frames : List Frame) (last : Frame)
    (bounded : ∀ frame ∈ frames ++ [last], Bounded frame.vertices) :
    ∃ after, showFrames buffers qemuTest fuel font ticks (frames ++ [last]) console = .ok after ∧
      Shown buffers font console.memory ((frames.getLast?.map Frame.ticks).getD ticks)
        (if frames = [] then console.cursorX else 0) console.cursorY last after := by
  have saved := apart.saved console.memory
  rw [Demo.showFrames]
  simp only [memcpy_moves qemuTest apart.saves, memcpy_moves qemuTest apart.restores]
  exact apart.frames enough frames last bounded rfl saved

end Turns

end ArchaOS.Demo
