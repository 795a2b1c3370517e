import CantayaOS.Lib.Raster

/-!
# The double-buffered framebuffer

Drawing goes to the back buffer if one could be allocated, otherwise to the
hardware framebuffer, and extends the dirty rectangle; `present` copies the
rectangle to the hardware.  Both buffers are memories of pixels, counted from
their start addresses.  Coordinates are 32-bit words and wrap.  The alpha
channel of colours, which no pixel format stores, is left out.
-/

namespace CantayaOS.Graphics

open Lib

inductive PixelFormat where
  | bgr
  | rgb
  | unknown
  deriving DecidableEq, Repr

structure Color where
  r : UInt8
  g : UInt8
  b : UInt8
  deriving DecidableEq, Repr

namespace Color

def white : Color := ⟨255, 255, 255⟩

def teal : Color := ⟨0, 128, 128⟩

/-- Convert to the framebuffer's pixel format; an unknown one is taken for BGR. -/
def toPixel (color : Color) : PixelFormat → UInt32
  | .rgb => color.r.toUInt32 ||| (color.g.toUInt32 <<< 8) ||| (color.b.toUInt32 <<< 16)
  | _ => color.b.toUInt32 ||| (color.g.toUInt32 <<< 8) ||| (color.r.toUInt32 <<< 16)

end Color

/-- The pixels of a buffer by their offset from its start. -/
abbrev Pixels := Nat → UInt32

structure FramebufferMode where
  width : UInt32
  height : UInt32
  stride : UInt32
  pixelFormat : PixelFormat

/-- Framebuffer state with double-buffering support. -/
structure Framebuffer where
  hardware : Pixels
  backBuffer : Pixels
  width : UInt32
  height : UInt32
  stride : UInt32
  format : PixelFormat
  initialized : Bool
  doubleBuffered : Bool
  dirty : Bool
  dirtyX1 : UInt32
  dirtyY1 : UInt32
  dirtyX2 : UInt32
  dirtyY2 : UInt32

/-- The half-open range of a loop over 32-bit words. -/
def span (low high : UInt32) : List UInt32 :=
  (List.range' low.toNat (high.toNat - low.toNat)).map UInt32.ofNat

namespace Framebuffer

variable (fb : Framebuffer)

/-- Change the draw target: the back buffer if there is one, otherwise the hardware. -/
def draw (change : Pixels → Pixels) : Framebuffer :=
  if fb.doubleBuffered then
    { fb with backBuffer := change fb.backBuffer }
  else
    { fb with hardware := change fb.hardware }

def markDirtyRect (x y w h : UInt32) : Framebuffer :=
  if w = 0 ∨ h = 0 then
    fb
  else
    let x2 := min (x + w) fb.width
    let y2 := min (y + h) fb.height
    if x ≥ x2 ∨ y ≥ y2 then
      fb
    else
      { fb with
        dirtyX1 := min fb.dirtyX1 x
        dirtyY1 := min fb.dirtyY1 y
        dirtyX2 := max fb.dirtyX2 x2
        dirtyY2 := max fb.dirtyY2 y2
        dirty := true }

/-- Put a single pixel; the byte offset is computed in 32 bits. -/
def putPixel (x y : UInt32) (color : Color) : Framebuffer :=
  if fb.initialized = false ∨ x ≥ fb.width ∨ y ≥ fb.height then
    fb
  else
    let pixel := color.toPixel fb.format
    let offset := (y * fb.stride + x) * 4
    (fb.draw (Raster.paint (offset.toNat / 4) 1 fun _ => pixel)).markDirtyRect x y 1 1

def fillRect (x y width height : UInt32) (color : Color) : Framebuffer :=
  if fb.initialized = false then
    fb
  else
    let pixel := color.toPixel fb.format
    let xEnd := min (x + width) fb.width
    let yEnd := min (y + height) fb.height
    let cols := xEnd.toNat - x.toNat
    if cols = 0 ∨ y ≥ yEnd then
      fb
    else
      (fb.draw fun pixels => (span y yEnd).foldl (fun pixels row =>
        Raster.paint (row * fb.stride + x).toNat cols (fun _ => pixel) pixels) pixels).markDirtyRect
          x y width height

def clear (color : Color) : Framebuffer :=
  if fb.initialized = false then
    fb
  else
    let pixel := color.toPixel fb.format
    let totalPixels := fb.stride.toNat * fb.height.toNat
    (fb.draw (Raster.paint 0 totalPixels fun _ => pixel)).markDirtyRect 0 0 fb.width fb.height

/-- Copy only the dirty region of the back buffer to the hardware framebuffer. -/
def present : Framebuffer :=
  if fb.initialized = false ∨ fb.doubleBuffered = false ∨ fb.dirty = false then
    fb
  else
    let x1 := min fb.dirtyX1 fb.width
    let y1 := min fb.dirtyY1 fb.height
    let x2 := min fb.dirtyX2 fb.width
    let y2 := min fb.dirtyY2 fb.height
    if x1 ≥ x2 ∨ y1 ≥ y2 then
      { fb with dirty := false }
    else
      let copied :=
        if x1 = 0 ∧ x2 ≥ fb.width then
          let offset := (y1 * fb.stride).toNat
          Raster.paint offset ((y2 - y1) * fb.stride).toNat
            (fun i => fb.backBuffer (offset + i)) fb.hardware
        else
          (span y1 y2).foldl (fun pixels row =>
            let offset := (row * fb.stride + x1).toNat
            Raster.paint offset (x2 - x1).toNat (fun i => fb.backBuffer (offset + i)) pixels)
              fb.hardware
      { fb with
        hardware := copied
        dirty := false
        dirtyX1 := fb.width
        dirtyY1 := fb.height
        dirtyX2 := 0
        dirtyY2 := 0 }

/-- The columns of one restored row, up to the right edge; `none` is an index out of bounds. -/
def restoreRow (x w row py : UInt32) (buf : List UInt32) : List UInt32 → Pixels → Option Pixels
  | [], pixels => some pixels
  | col :: rest, pixels =>
    let px := x + col
    if px ≥ fb.width then
      some pixels
    else
      match buf[(row * w + col).toNat]? with
      | none => none
      | some pixel => restoreRow x w row py buf rest
          (Raster.paint (py * fb.stride + px).toNat 1 (fun _ => pixel) pixels)

def restoreRows (x y w : UInt32) (buf : List UInt32) : List UInt32 → Pixels → Option Pixels
  | [], pixels => some pixels
  | row :: rest, pixels =>
    let py := y + row
    if py ≥ fb.height then
      some pixels
    else
      (fb.restoreRow x w row py buf (span 0 w) pixels).bind fun pixels =>
        restoreRows x y w buf rest pixels

def restoreRegion (x y w h : UInt32) (buf : List UInt32) : Option Framebuffer :=
  if fb.initialized = false then
    some fb
  else
    let target := if fb.doubleBuffered then fb.backBuffer else fb.hardware
    (fb.restoreRows x y w buf (span 0 h) target).map fun pixels =>
      (fb.draw fun _ => pixels).markDirtyRect x y w h

/-- The copied rows of a pixel buffer, down to the bottom edge. -/
def blitRows (x y w : UInt32) (source : Pixels) : List UInt32 → Pixels → Pixels
  | [], pixels => pixels
  | row :: rest, pixels =>
    let py := y + row
    if py ≥ fb.height then
      pixels
    else
      let cols := min w.toNat (fb.width.toNat - x.toNat)
      if cols = 0 then
        blitRows x y w source rest pixels
      else
        let srcOff := (row * w).toNat
        blitRows x y w source rest
          (Raster.paint (py * fb.stride + x).toNat cols (fun i => source (srcOff + i)) pixels)

/-- Copy a pixel buffer into the draw target; `source` is the memory behind its pointer. -/
def blitBuffer (x y w h : UInt32) (source : Pixels) : Framebuffer :=
  if fb.initialized = false then
    fb
  else
    (fb.draw (fb.blitRows x y w source (span 0 h))).markDirtyRect x y w h

end Framebuffer

/-- Initialize the framebuffer: the memory of a back buffer is cleared if it was allocated. -/
def Framebuffer.init (mode : FramebufferMode) (hardware : Pixels) (allocated : Option Pixels) :
    Framebuffer :=
  let size := mode.stride.toNat * mode.height.toNat
  let fb : Framebuffer :=
    { hardware := hardware
      backBuffer := match allocated with
        | some memory => Raster.paint 0 size (fun _ => 0) memory
        | none => fun _ => 0
      width := mode.width
      height := mode.height
      stride := mode.stride
      format := mode.pixelFormat
      initialized := true
      doubleBuffered := allocated.isSome
      dirty := false
      dirtyX1 := 0xFFFFFFFF
      dirtyY1 := 0xFFFFFFFF
      dirtyX2 := 0
      dirtyY2 := 0 }
  let fb := fb.clear .teal
  if fb.doubleBuffered then fb.present else fb

end CantayaOS.Graphics
