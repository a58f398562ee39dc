import NeoDCT.Lib.Struct

/-!
# The framebuffer

`Framebuffer` of System/core/main.py: what the driver says of the screen, the memory that is mapped, and
`update`, which pastes a canvas into an image as wide as a line of the memory and writes the image's
bytes.  So a pixel's place is its place in the image,

    byte offset of (x, y) = y * line_length + x * (bpp / 8)            (update_stores)

whatever the widths of the screen and of the canvas are.
-/

namespace NeoDCT

/-! ## Images -/

structure Rgb where
  r : UInt8
  g : UInt8
  b : UInt8
deriving DecidableEq, Repr

def Rgb.black : Rgb := ⟨0, 0, 0⟩

/-- An RGB image. -/
structure Image where
  width : ℕ
  height : ℕ
  pixel : ℕ → ℕ → Rgb

/-- `Image.new("RGB", (width, height), color)`. -/
def Image.new (width height : ℕ) (color : Rgb) : Image := ⟨width, height, fun _ _ => color⟩

/-- `paste(im, (0, 0))`; what of `im` is outside the image is clipped. -/
def Image.paste (self im : Image) : Image :=
  { self with pixel := fun x y => if x < im.width ∧ y < im.height then im.pixel x y else self.pixel x y }

/-- `tobytes("raw", …)`: the rows without padding, each pixel packed. -/
def Image.tobytes (self : Image) (pack : Rgb → List UInt8) : List UInt8 :=
  (List.range self.height).flatMap fun y =>
    (List.range self.width).flatMap fun x => pack (self.pixel x y)

/-- The raw mode `BGRA` of an opaque pixel. -/
def bgra (p : Rgb) : List UInt8 := [p.b, p.g, p.r, 255]

/-! ## The device -/

/-- `struct.unpack_from("I", buffer, offset)`. -/
def u32At (buffer : List UInt8) (offset : ℕ) : Option ℕ :=
  if offset + 4 ≤ buffer.length then some (Struct.ofBytes ((buffer.drop offset).take 4)) else none

/-- What `Framebuffer` holds; the mapping is of the size it was asked for. -/
structure Framebuffer where
  xres : ℕ
  yres : ℕ
  bpp : ℕ
  lineLength : ℕ
  size : ℕ
  mm : List UInt8
  size_eq : size = lineLength * yres
  mapped : mm.length = size

/-- `line_length`, from what the driver reports. -/
def effectiveLine (xres bpp reported : ℕ) : ℕ := if reported = 0 then xres * (bpp / 8) else reported

/-- `__init__`, of what the two ioctls return and what is in the device's memory.  Nothing can be mapped
of no bytes, or of more than there are. -/
def Framebuffer.init (vinfo finfo device : List UInt8) : Option Framebuffer := do
  let xres ← u32At vinfo 0
  let yres ← u32At vinfo 4
  let bpp ← u32At vinfo 24
  let reported ← u32At finfo 48
  let lineLength := effectiveLine xres bpp reported
  let size := lineLength * yres
  if h : 0 < size ∧ size ≤ device.length then
    some ⟨xres, yres, bpp, lineLength, size, device.take size, rfl, List.length_take_of_le h.2⟩
  else none

/-- `mm.seek(0)` and `mm.write(data)`: `none` is the error of data that do not fit. -/
def mmWrite (mm data : List UInt8) : Option (List UInt8) :=
  if data.length ≤ mm.length then some (data ++ mm.drop data.length) else none

theorem length_mmWrite {mm data mm' : List UInt8} (h : mmWrite mm data = some mm') :
    mm'.length = mm.length := by
  unfold mmWrite at h
  split at h
  next hle =>
    obtain rfl := Option.some.inj h
    rw [List.length_append, List.length_drop]
    omega
  next => cases h

section
variable (bgr16 : Rgb → Vector UInt8 2)

/-- The bytes of a pixel. -/
def packed (bpp : ℕ) (p : Rgb) : List UInt8 := if bpp = 32 then bgra p else (bgr16 p).toList

namespace Framebuffer
variable (self : Framebuffer) (pilImage : Image)

/-- `native_img`, as wide as a line of the memory. -/
def nativeImg : Image :=
  (Image.new (self.lineLength / (self.bpp / 8)) self.yres .black).paste pilImage

/-- `data`: `none` is a division by zero, or `data` without a value. -/
def data : Option (List UInt8) :=
  if self.bpp / 8 = 0 then none
  else if self.bpp = 32 then some ((self.nativeImg pilImage).tobytes bgra)
  else if self.bpp = 16 then some ((self.nativeImg pilImage).tobytes fun p => (bgr16 p).toList)
  else none

/-- `update`. -/
def update : Option Framebuffer := do
  let data ← self.data bgr16 pilImage
  match h : mmWrite self.mm (data.take self.size) with
  | some mm => some { self with mm, mapped := (length_mmWrite h).trans self.mapped }
  | none => none

end Framebuffer

end

/-! ## Places -/

/-- Parts of one length. -/
theorem length_flatMap_range {f : ℕ → List UInt8} {k : ℕ} (hf : ∀ i, (f i).length = k) (n : ℕ) :
    ((List.range n).flatMap f).length = n * k := by
  rw [List.length_flatMap]
  simp [hf]

/-- The part in its place. -/
theorem slice_flatMap_range {f : ℕ → List UInt8} {k : ℕ} (hf : ∀ i, (f i).length = k) {n i : ℕ}
    (hi : i < n) : (((List.range n).flatMap f).drop (i * k)).take k = f i := by
  obtain ⟨m, rfl⟩ := Nat.exists_eq_add_of_lt hi
  rw [Nat.add_assoc, List.range_add, List.flatMap_append, List.drop_left' (length_flatMap_range hf i),
    List.range_succ_eq_map, List.map_cons, List.flatMap_cons]
  exact List.take_left' (hf (i + 0))

section
variable {pack : Rgb → List UInt8} {bytes : ℕ} (hpack : ∀ p, (pack p).length = bytes) (im : Image)
include hpack

theorem length_row (y : ℕ) :
    ((List.range im.width).flatMap fun x => pack (im.pixel x y)).length = im.width * bytes :=
  length_flatMap_range (fun _ => hpack _) _

theorem length_tobytes : (im.tobytes pack).length = im.width * bytes * im.height := by
  unfold Image.tobytes
  rw [length_flatMap_range (fun y => length_row hpack im y), Nat.mul_comm]

/-- **Where a pixel is in the bytes of an image.** -/
theorem slice_tobytes {x y : ℕ} (hx : x < im.width) (hy : y < im.height) :
    ((im.tobytes pack).drop (y * (im.width * bytes) + x * bytes)).take bytes = pack (im.pixel x y) := by
  have hrow := slice_flatMap_range (fun y => length_row hpack im y) hy
  have hpixel := slice_flatMap_range (f := fun x => pack (im.pixel x y)) (fun _ => hpack _) hx
  rw [← hrow, List.drop_take, List.take_take, List.drop_drop] at hpixel
  have hfits : x * bytes + bytes ≤ im.width * bytes := by
    rw [← Nat.succ_mul]
    exact Nat.mul_le_mul_right bytes hx
  rw [Nat.min_eq_left (by omega)] at hpixel
  exact hpixel

end

/-! ## What is stored -/

section
variable (bgr16 : Rgb → Vector UInt8 2) {fb : Framebuffer} (hbpp : fb.bpp = 16 ∨ fb.bpp = 32)
include hbpp

theorem length_packed (p : Rgb) : (packed bgr16 fb.bpp p).length = fb.bpp / 8 := by
  unfold packed
  rcases hbpp with hbpp | hbpp
  · rw [hbpp, if_neg (by omega), Vector.length_toList]
  · rw [hbpp, if_pos rfl]
    rfl

theorem data_eq (canvas : Image) :
    fb.data bgr16 canvas = some ((fb.nativeImg canvas).tobytes (packed bgr16 fb.bpp)) := by
  unfold Framebuffer.data packed
  rcases hbpp with hbpp | hbpp
  · simp [hbpp]
  · simp [hbpp]

variable (hline : fb.bpp / 8 ∣ fb.lineLength)
include hline

/-- The image is as long as the mapping. -/
theorem length_data (canvas : Image) :
    ((fb.nativeImg canvas).tobytes (packed bgr16 fb.bpp)).length = fb.size := by
  rw [length_tobytes (length_packed bgr16 hbpp), fb.size_eq]
  exact congrArg (· * fb.yres) (Nat.div_mul_cancel hline)

/-- `update` fills the mapping. -/
theorem update_eq (canvas : Image) : ∃ fb', fb.update bgr16 canvas = some fb' ∧
    fb'.mm = (fb.nativeImg canvas).tobytes (packed bgr16 fb.bpp) := by
  have hlen := length_data bgr16 hbpp hline canvas
  have hwrite : mmWrite fb.mm (((fb.nativeImg canvas).tobytes (packed bgr16 fb.bpp)).take fb.size) =
      some ((fb.nativeImg canvas).tobytes (packed bgr16 fb.bpp)) := by
    unfold mmWrite
    rw [List.take_of_length_le hlen.le, if_pos (by rw [hlen, fb.mapped]), hlen, ← fb.mapped,
      List.drop_length, List.append_nil]
  unfold Framebuffer.update
  rw [data_eq bgr16 hbpp]
  simp only [Option.bind_eq_bind, Option.bind_some]
  split
  next mm hmm =>
    rw [hwrite] at hmm
    exact ⟨_, rfl, (Option.some.inj hmm).symm⟩
  next hmm =>
    rw [hwrite] at hmm
    cases hmm

end

theorem nativeImg_pixel (fb : Framebuffer) (canvas : Image) (x y : ℕ) :
    (fb.nativeImg canvas).pixel x y =
      if x < canvas.width ∧ y < canvas.height then canvas.pixel x y else .black := rfl

/-- What `__init__` has read. -/
theorem init_spec {vinfo finfo device : List UInt8} {fb : Framebuffer}
    (h : Framebuffer.init vinfo finfo device = some fb) :
    u32At vinfo 0 = some fb.xres ∧ u32At vinfo 4 = some fb.yres ∧ u32At vinfo 24 = some fb.bpp ∧
      ∃ reported, u32At finfo 48 = some reported ∧
        fb.lineLength = effectiveLine fb.xres fb.bpp reported := by
  unfold Framebuffer.init at h
  simp only [Option.bind_eq_bind, Option.bind_eq_some_iff] at h
  obtain ⟨xres, hxres, yres, hyres, bpp, hbpp, reported, hreported, h⟩ := h
  split at h
  next =>
    obtain rfl := Option.some.inj h
    exact ⟨hxres, hyres, hbpp, reported, hreported, rfl⟩
  next => cases h

/-- **What `update` stores**: every pixel of the canvas that the memory has a place for is in its place,
the places that the canvas has no pixel for are black, and the bytes are as many as are mapped. -/
theorem update_stores (bgr16 : Rgb → Vector UInt8 2) (vinfo finfo device : List UInt8)
    (fb : Framebuffer) (hinit : Framebuffer.init vinfo finfo device = some fb)
    (hbpp : fb.bpp = 16 ∨ fb.bpp = 32) (reported : ℕ) (hreported : u32At finfo 48 = some reported)
    (hline : reported = 0 ∨ fb.bpp / 8 ∣ reported ∧ fb.xres * (fb.bpp / 8) ≤ reported)
    (canvas : Image) :
    fb.lineLength = effectiveLine fb.xres fb.bpp reported ∧
    ∃ data fb', fb.data bgr16 canvas = some data ∧ (data.take fb.size).length = fb.size ∧
      fb.size = fb.mm.length ∧ fb.update bgr16 canvas = some fb' ∧ fb'.mm.length = fb.mm.length ∧
      ∀ x y, x * (fb.bpp / 8) < fb.lineLength → y < fb.yres →
        (fb'.mm.drop (y * fb.lineLength + x * (fb.bpp / 8))).take (fb.bpp / 8) =
          packed bgr16 fb.bpp
            (if x < canvas.width ∧ y < canvas.height then canvas.pixel x y else .black) := by
  obtain ⟨-, -, -, reported', hreported', hlength⟩ := init_spec hinit
  obtain rfl : reported = reported' := Option.some.inj (hreported.symm.trans hreported')
  have hdvd : fb.bpp / 8 ∣ fb.lineLength := by
    rw [hlength]
    unfold effectiveLine
    rcases hline with rfl | ⟨hdvd, -⟩
    · rw [if_pos rfl]
      exact Nat.dvd_mul_left _ _
    · split
      next => exact Nat.dvd_mul_left _ _
      next => exact hdvd
  obtain ⟨fb', hupdate, hmm⟩ := update_eq bgr16 hbpp hdvd canvas
  have hdata := length_data bgr16 hbpp hdvd canvas
  refine ⟨hlength, _, fb', data_eq bgr16 hbpp canvas, ?_, fb.mapped.symm, hupdate, ?_, ?_⟩
  · rw [List.length_take, hdata, Nat.min_self]
  · rw [hmm, hdata, fb.mapped]
  · intro x y hx hy
    have hwidth : (fb.nativeImg canvas).width * (fb.bpp / 8) = fb.lineLength :=
      Nat.div_mul_cancel hdvd
    have hxw : x < (fb.nativeImg canvas).width :=
      Nat.lt_of_mul_lt_mul_right (hx.trans_eq hwidth.symm)
    have hslice := slice_tobytes (length_packed bgr16 hbpp) (fb.nativeImg canvas) hxw hy
    rw [hwidth] at hslice
    rw [hmm, hslice, nativeImg_pixel]

-- The ioctls' buffers are evaluated.
set_option maxRecDepth 4000 in
/-- Two rows of three pixels on lines of four, and a canvas of three rows of two pixels: a pixel of it in
the second row, the screen right of it and the padding after the screen. -/
theorem update_stores_rows : ∃ fb fb', Framebuffer.init
      ([3, 0, 0, 0, 2, 0, 0, 0] ++ List.replicate 16 0 ++ [32, 0, 0, 0] ++ List.replicate 132 0)
      (List.replicate 48 0 ++ [16, 0, 0, 0] ++ List.replicate 12 0) (List.replicate 40 7) = some fb ∧
    fb.update (fun _ => #v[0, 0]) ⟨2, 3, fun x y => ⟨x.toUInt8, y.toUInt8, 9⟩⟩ = some fb' ∧
    fb'.mm.length = 32 ∧
    (fb'.mm.drop 20).take 4 = [9, 1, 1, 255] ∧
    (fb'.mm.drop 24).take 4 = [0, 0, 0, 255] ∧ (fb'.mm.drop 28).take 4 = [0, 0, 0, 255] := by
  obtain ⟨fb, hinit⟩ := Option.isSome_iff_exists.mp (show (Framebuffer.init
      ([3, 0, 0, 0, 2, 0, 0, 0] ++ List.replicate 16 0 ++ [32, 0, 0, 0] ++ List.replicate 132 0)
      (List.replicate 48 0 ++ [16, 0, 0, 0] ++ List.replicate 12 0) (List.replicate 40 7)).isSome = true
      by decide)
  obtain ⟨hxres, hyres, hbpp, -⟩ := init_spec hinit
  have hxres : fb.xres = 3 := Option.some.inj hxres.symm
  have hyres : fb.yres = 2 := Option.some.inj hyres.symm
  have hbpp : fb.bpp = 32 := Option.some.inj hbpp.symm
  obtain ⟨hlength, -, fb', -, -, hsize, hupdate, hmm, hplace⟩ := update_stores (fun _ => #v[0, 0]) _ _ _ fb
    hinit (Or.inr hbpp) 16 (by decide) (Or.inr (by rw [hbpp, hxres]; decide))
    ⟨2, 3, fun x y => ⟨x.toUInt8, y.toUInt8, 9⟩⟩
  have hline : fb.lineLength = 16 := by rw [hlength, hxres, hbpp]; rfl
  have hbytes : fb.mm.length = 32 := by rw [← hsize, fb.size_eq, hline, hyres]
  have hcanvas := hplace 1 1 (by omega) (by omega)
  have hright := hplace 2 1 (by omega) (by omega)
  have hpadding := hplace 3 1 (by omega) (by omega)
  rw [hbpp, hline] at hcanvas hright hpadding
  exact ⟨fb, fb', hinit, hupdate, hmm.trans hbytes, by simpa [packed, bgra] using hcanvas,
    by simpa [packed, bgra, Rgb.black] using hright, by simpa [packed, bgra, Rgb.black] using hpadding⟩

end NeoDCT
