import ArchaOS.Construction.PixelMemory

/-
This file models draw_line and draw_line_q of kernel/graphics/graphics.c, with abs of kernel/lib/math.h.
-/

namespace ArchaOS.Graphics

open Library

/-- A signed overflow, or a loop that is still running. -/
inductive Fault where
  | overflow
  | endless
  deriving DecidableEq, Repr

abbrev Outcome := Except Fault

/-- The result of an operation on `int` -/
def int (value : Int) : Outcome Int :=
  if -2 ^ 31 ≤ value ∧ value < 2 ^ 31 then .ok value else .error .overflow

def abs (x : Int) : Outcome Int := if x < 0 then int (-x) else .ok x

/-- The variables that the loop reads. -/
structure Line where
  x1 : Int
  y1 : Int
  deltaX : Int
  stepX : Int
  deltaY : Int
  stepY : Int

/-- The variables that the loop changes. -/
structure Position where
  x0 : Int
  y0 : Int
  error : Int

/-- The statements in front of the loop. -/
def setUp (sx sy dx dy : BitVec 32) : Outcome (Line × Position) := do
  let x0 := sx.toInt
  let y0 := sy.toInt
  let x1 := dx.toInt
  let y1 := dy.toInt
  let deltaX ← abs (← int (x1 - x0))
  let stepX := if x0 < x1 then 1 else -1
  let deltaY ← int (-(← abs (← int (y1 - y0))))
  let stepY := if y0 < y1 then 1 else -1
  let error ← int (deltaX + deltaY)
  return (⟨x1, y1, deltaX, stepX, deltaY, stepY⟩, ⟨x0, y0, error⟩)

/-- `if (error2 >= deltaY)` -/
def Line.stepAlongX (line : Line) (error2 : Int) (position : Position) : Outcome Position :=
  if error2 ≥ line.deltaY then do
    let error ← int (position.error + line.deltaY)
    let x0 ← int (position.x0 + line.stepX)
    return { position with error := error, x0 := x0 }
  else .ok position

/-- `if (error2 <= deltaX)` -/
def Line.stepAlongY (line : Line) (error2 : Int) (position : Position) : Outcome Position :=
  if error2 ≤ line.deltaX then do
    let error ← int (position.error + line.deltaX)
    let y0 ← int (position.y0 + line.stepY)
    return { position with error := error, y0 := y0 }
  else .ok position

/-- The statements of the loop behind its exit. -/
def Line.advance (line : Line) (position : Position) : Outcome Position := do
  let error2 ← int (2 * position.error)
  let position ← line.stepAlongX error2 position
  line.stepAlongY error2 position

/-- `while (1)`, for a bounded number of turns -/
def Line.trace {State : Type} (plot : BitVec 32 → BitVec 32 → State → State) (line : Line) :
    Nat → Position → State → Outcome State
  | 0, _, _ => .error .endless
  | fuel + 1, position, state =>
      let state := plot (BitVec.ofInt 32 position.x0) (BitVec.ofInt 32 position.y0) state
      if position.x0 = line.x1 ∧ position.y0 = line.y1 then .ok state
      else do
        let position ← line.advance position
        line.trace plot fuel position state

/-- The body that the two functions share. -/
def traceLine {State : Type} (plot : BitVec 32 → BitVec 32 → State → State)
    (sx sy dx dy : BitVec 32) (fuel : Nat) (state : State) : Outcome State := do
  let (line, position) ← setUp sx sy dx dy
  line.trace plot fuel position state

def drawLine (framebuffer : Option PixelBuffer) (sx sy dx dy color : BitVec 32) (fuel : Nat)
    (memory : Memory) : Outcome Memory :=
  traceLine (fun x y => putPixel framebuffer x y color) sx sy dx dy fuel memory

def drawLineQ (framebuffer buffer : Option PixelBuffer) (sx sy dx dy color : BitVec 32) (fuel : Nat)
    (memory : Memory) : Outcome Memory :=
  traceLine (fun x y => putPixelQ framebuffer buffer x y color) sx sy dx dy fuel memory

end ArchaOS.Graphics
