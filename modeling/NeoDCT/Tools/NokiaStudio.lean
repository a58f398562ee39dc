import NeoDCT.Framebuffer
import NeoDCT.Lib.CArray
import NeoDCT.Lib.LastWrite
import NeoDCT.Lib.PyNumbers

/-!
# Nokia Studio

`NokiaStudio` (buildroot/uidraw.py): the picture that is painted, the zoomed canvas with its grid, and the header
that it is exported to.  What Pillow makes of a text is a parameter.

    the table of an exported header = the colours of the canvas when it was exported       (exported_shown)
    drawings with one header  ↔  drawings that look the same                                (header_iff_shown)

With the grid at the size of the pen a drawing is a mosaic: a square of the grid has the colour of the last stroke
that the mouse made in it, wherever in the square (`drawn_mosaic`).
-/

namespace NeoDCT

open PyText CArray LastWrite

namespace NokiaStudio

/-! ## Pictures -/

/-- `WIDTH` and `HEIGHT`. -/
def width : ℕ := 240

def height : ℕ := 240

/-- `SCALE`. -/
def scale : ℕ := 3

/-- `PALETTE`. -/
def palette : Fin 10 → Rgb :=
  ![⟨0x00, 0x00, 0x00⟩, ⟨0xFF, 0xFF, 0xFF⟩, ⟨0xC7, 0xF6, 0xD8⟩, ⟨0x43, 0x52, 0x3D⟩, ⟨0xFF, 0x00, 0x00⟩,
    ⟨0x00, 0xFF, 0x00⟩, ⟨0x00, 0x00, 0xFF⟩, ⟨0xFF, 0xFF, 0x00⟩, ⟨0x80, 0x80, 0x80⟩, ⟨0xFF, 0xA5, 0x00⟩]

/-- `draw.rectangle`, filled: the corners belong to it, and what is outside of the picture is clipped. -/
def rectangle (im : Image) (x0 y0 x1 y1 : ℤ) (fill : Rgb) : Image :=
  { im with pixel := fun x y => if x0 ≤ x ∧ x ≤ x1 ∧ y0 ≤ y ∧ y ≤ y1 then fill else im.pixel x y }

/-- `draw.line` along an axis, which is one pixel wide. -/
def line (im : Image) (x0 y0 x1 y1 : ℤ) (fill : Rgb) : Image := rectangle im x0 y0 x1 y1 fill

/-- `resize` by a whole factor, `NEAREST`. -/
def zoom (im : Image) (factor : ℕ) : Image :=
  ⟨im.width * factor, im.height * factor, fun x y => im.pixel (x / factor) (y / factor)⟩

/-- `range(0, stop, step)`. -/
def rangeStep (stop step : ℕ) : List ℕ := List.range' 0 ((stop + step - 1) / step) step

/-- `"#222222"`. -/
def gridColor : Rgb := ⟨0x22, 0x22, 0x22⟩

/-! ## The studio -/

/-- A value of the scale of the pen. -/
structure PenSize where
  val : ℕ
  pos : 0 < val
  le : val ≤ 20
deriving DecidableEq

structure Studio where
  image : Image
  currentColorIdx : Fin 10
  penSize : PenSize
  gridVar : Bool
  adaptVar : Bool
  textMode : Bool
  textEntry : Text
  fontScale : ℕ
  nameEntry : Text
  /-- What the canvas shows. -/
  shown : Image
  files : Text → Option Text

/-- Where a text is placed. -/
inductive Align where
  | manual
  | top
  | center
  | bottom

/-- What Pillow makes of a text in a font of some size. -/
structure Env where
  textSize : Text → ℕ → ℤ × ℤ
  drawText : (ℕ → ℕ → Rgb) → ℤ → ℤ → Text → Rgb → ℕ → ℕ → ℕ → Rgb

namespace Studio

/-- `step`, in pixels. -/
def step (self : Studio) : ℕ := if self.adaptVar then self.penSize.val else 1

/-- `display`. -/
def view (self : Studio) : Image :=
  let display := zoom self.image scale
  if self.gridVar then
    let stepView := self.step * scale
    let display := (rangeStep (width * scale) stepView).foldl
      (fun d (x : ℕ) => line d x 0 x (height * scale) gridColor) display
    (rangeStep (height * scale) stepView).foldl (fun d (y : ℕ) => line d 0 y (width * scale) y gridColor) display
  else display

/-- `update_canvas_view`. -/
def updateCanvasView (self : Studio) : Studio := { self with shown := self.view }

/-- `__init__`, on the files there are. -/
def init (files : Text → Option Text) : Studio :=
  updateCanvasView
    { image := .new width height .black
      currentColorIdx := 1
      penSize := ⟨1, by decide, by decide⟩
      gridVar := true
      adaptVar := true
      textMode := false
      textEntry := "Menu".toList
      fontScale := 16
      nameEntry := "bg_home".toList
      shown := .new width height .black
      files := files }

/-- `set_size`. -/
def setSize (self : Studio) (val : PenSize) : Studio := updateCanvasView { self with penSize := val }

/-- `int(m / SCALE)`. -/
def unzoom (m : ℤ) : ℤ := toInt ((m : ℚ) / scale)

/-- `paint`. -/
def paint (self : Studio) (mx my : ℤ) : Studio :=
  if self.textMode then self
  else
    let nx := unzoom mx
    let ny := unzoom my
    let step : ℤ := self.step
    let snaps := self.adaptVar ∧ 1 < step
    let nx := if snaps then nx / step * step else nx
    let ny := if snaps then ny / step * step else ny
    let color := palette self.currentColorIdx
    let x2 := nx + self.penSize.val
    let y2 := ny + self.penSize.val
    updateCanvasView { self with image := rectangle self.image nx ny (x2 - 1) (y2 - 1) color }

/-- `draw_text_internal`. -/
def drawTextInternal (env : Env) (self : Studio) (x y : ℤ) (text : Text) (align : Align) : Studio :=
  let color := palette self.currentColorIdx
  let (textW, textH) := env.textSize text self.fontScale
  let (drawX, drawY) : ℤ × ℤ :=
    match align with
    | .bottom => ((width - textW) / 2, height - textH - 10)
    | .top => ((width - textW) / 2, 5)
    | .center => ((width - textW) / 2, (height - textH) / 2)
    | .manual => (x, y)
  { self with image.pixel := env.drawText self.image.pixel drawX drawY text color self.fontScale }

/-- `click_handler`. -/
def clickHandler (env : Env) (self : Studio) (x y : ℤ) : Studio :=
  if self.textMode then
    let self := self.drawTextInternal env (unzoom x) (unzoom y) self.textEntry .manual
    updateCanvasView { self with textMode := false }
  else self.paint x y

/-- `add_text_auto`. -/
def addTextAuto (env : Env) (self : Studio) (align : Align) : Studio :=
  updateCanvasView (self.drawTextInternal env 0 0 self.textEntry align)

/-- `clear_canvas`. -/
def clearCanvas (self : Studio) : Studio :=
  updateCanvasView { self with image := rectangle self.image 0 0 width height .black }

/-! ### The header -/

/-- `rgb565`. -/
def rgb565 (p : Rgb) : ℕ :=
  ((p.r.toNat &&& 0xF8) <<< 8) ||| ((p.g.toNat &&& 0xFC) <<< 3) ||| (p.b.toNat >>> 3)

/-- The colours of a picture, row by row. -/
def colours (im : Image) : List (List ℕ) :=
  (List.range height).map fun y => (List.range width).map fun x => rgb565 (im.pixel x y)

/-- What `export_cpp` writes. -/
def header (self : Studio) : Text :=
  "// Generated by Nokia Studio v6.0\n#include <stdint.h>\n\nconst uint16_t ".toList ++
    (self.nameEntry ++ ("[240][240] =".toList ++
      (" \x7b\n".toList ++ (tableText "    ".toList (colours self.image) ++ "\x7d;\n".toList))))

/-- `export_cpp`, where `filename` is what the dialog returned. -/
def exportCpp (self : Studio) (filename : Text) : Studio :=
  if filename = [] then self else { self with files := Function.update self.files filename (some self.header) }

end Studio

/-! ### Sessions -/

inductive Event where
  | setColor (idx : Fin 10)
  | setSize (val : PenSize)
  | motion (x y : ℤ)
  | click (x y : ℤ)
  | gridVar
  | adaptVar
  | enableTextMode
  | addTextAuto (align : Align)
  | typed (text : Text)
  | fontScale (size : ℕ)
  | named (name : Text)
  | clearCanvas
  | exportCpp (filename : Text)

def Studio.handle (env : Env) (self : Studio) : Event → Studio
  | .setColor idx => { self with currentColorIdx := idx }
  | .setSize val => self.setSize val
  | .motion x y => self.paint x y
  | .click x y => self.clickHandler env x y
  | .gridVar => Studio.updateCanvasView { self with gridVar := !self.gridVar }
  | .adaptVar => Studio.updateCanvasView { self with adaptVar := !self.adaptVar }
  | .enableTextMode => { self with textMode := true }
  | .addTextAuto align => self.addTextAuto env align
  | .typed text => { self with textEntry := text }
  | .fontScale size => { self with fontScale := size }
  | .named name => { self with nameEntry := name }
  | .clearCanvas => self.clearCanvas
  | .exportCpp filename => self.exportCpp filename

/-- A session, on a disk without headers. -/
def session (env : Env) (events : List Event) : Studio := events.foldl (Studio.handle env) (.init fun _ => none)

/-! ## The canvas -/

variable {env : Env}

theorem Studio.step_pos (self : Studio) : 0 < self.step := by
  unfold Studio.step
  split
  · exact self.penSize.pos
  · exact Nat.one_pos

theorem mem_rangeStep {stop step i : ℕ} (hstep : 0 < step) (hi : i < stop) : i ∈ rangeStep stop step ↔ i % step = 0 := by
  unfold rangeStep
  rw [List.mem_range']
  constructor
  · rintro ⟨k, -, rfl⟩
    rw [Nat.zero_add, Nat.mul_mod_right]
  · intro h
    refine ⟨i / step, ?_, ?_⟩
    · have hnext : (i + step) / step ≤ (stop + step - 1) / step := Nat.div_le_div_right (by omega)
      rw [Nat.add_div_right i hstep] at hnext
      omega
    · rw [Nat.zero_add, Nat.mul_div_cancel' (Nat.dvd_of_mod_eq_zero h)]

/-- Lines that are drawn one after the other, where a pixel is on the line of its coordinate `c`. -/
theorem foldl_pixel {draw : Image → ℕ → Image} {X Y c : ℕ}
    (hdraw : ∀ im i, (draw im i).pixel X Y = if c = i then gridColor else im.pixel X Y) (is : List ℕ) (im : Image) :
    (is.foldl draw im).pixel X Y = if c ∈ is then gridColor else im.pixel X Y := by
  induction is generalizing im with
  | nil => exact (if_neg List.not_mem_nil).symm
  | cons i is ih =>
    rw [List.foldl_cons, ih, hdraw]
    by_cases his : c ∈ is
    · rw [if_pos his, if_pos (List.mem_cons_of_mem i his)]
    · rw [if_neg his]
      by_cases hi : c = i
      · rw [if_pos hi, if_pos (List.mem_cons.mpr (Or.inl hi))]
      · rw [if_neg hi, if_neg fun h => (List.mem_cons.mp h).elim hi his]

theorem column_pixel {X Y : ℕ} (hY : Y < height * scale) (im : Image) (x : ℕ) :
    (line im x 0 x (height * scale) gridColor).pixel X Y = if X = x then gridColor else im.pixel X Y := by
  refine if_congr ?_ rfl rfl
  have hbottom : (Y : ℤ) < (height * scale : ℕ) := by exact_mod_cast hY
  push_cast at hbottom
  omega

theorem row_pixel {X Y : ℕ} (hX : X < width * scale) (im : Image) (y : ℕ) :
    (line im 0 y (width * scale) y gridColor).pixel X Y = if Y = y then gridColor else im.pixel X Y := by
  refine if_congr ?_ rfl rfl
  have hright : (X : ℤ) < (width * scale : ℕ) := by exact_mod_cast hX
  push_cast at hright
  omega

/-- On a line of the grid. -/
def Studio.OnGrid (self : Studio) (X Y : ℕ) : Prop :=
  self.gridVar = true ∧ (X % (self.step * scale) = 0 ∨ Y % (self.step * scale) = 0)

instance (self : Studio) (X Y : ℕ) : Decidable (self.OnGrid X Y) := inferInstanceAs (Decidable (_ ∧ _))

theorem view_pixel (self : Studio) {X Y : ℕ} (hX : X < width * scale) (hY : Y < height * scale) :
    self.view.pixel X Y = if self.OnGrid X Y then gridColor else self.image.pixel (X / scale) (Y / scale) := by
  have hstep : 0 < self.step * scale := Nat.mul_pos self.step_pos (by decide)
  by_cases hgrid : self.gridVar = true
  · have hview : self.view = (rangeStep (height * scale) (self.step * scale)).foldl
        (fun d (y : ℕ) => line d 0 y (width * scale) y gridColor)
        ((rangeStep (width * scale) (self.step * scale)).foldl
          (fun d (x : ℕ) => line d x 0 x (height * scale) gridColor) (zoom self.image scale)) := if_pos hgrid
    have hcolumn := mem_rangeStep hstep hX
    have hrow := mem_rangeStep hstep hY
    rw [hview, foldl_pixel (row_pixel hX), foldl_pixel (column_pixel hY)]
    by_cases hy : Y % (self.step * scale) = 0
    · rw [if_pos (hrow.mpr hy), if_pos ⟨hgrid, Or.inr hy⟩]
    · rw [if_neg (mt hrow.mp hy)]
      by_cases hx : X % (self.step * scale) = 0
      · rw [if_pos (hcolumn.mpr hx), if_pos ⟨hgrid, Or.inl hx⟩]
      · rw [if_neg (mt hcolumn.mp hx), if_neg fun h => h.2.elim hx hy]
        rfl
  · have hview : self.view = zoom self.image scale := if_neg hgrid
    rw [hview, if_neg fun h => hgrid h.1]
    rfl

theorem updateCanvasView_shown (s : Studio) : s.updateCanvasView.shown = s.updateCanvasView.view := rfl

/-- The canvas is always that of the picture. -/
theorem handle_shown {s : Studio} (h : s.shown = s.view) (event : Event) :
    (s.handle env event).shown = (s.handle env event).view := by
  have hpaint : ∀ x y, (s.paint x y).shown = (s.paint x y).view := by
    intro x y
    unfold Studio.paint
    split
    · exact h
    · rfl
  cases event with
  | setColor idx => exact h
  | setSize val => rfl
  | motion x y => exact hpaint x y
  | click x y =>
    show (s.clickHandler env x y).shown = (s.clickHandler env x y).view
    unfold Studio.clickHandler
    split
    · rfl
    · exact hpaint x y
  | gridVar => rfl
  | adaptVar => rfl
  | enableTextMode => exact h
  | addTextAuto align => rfl
  | typed text => exact h
  | fontScale size => exact h
  | named name => exact h
  | clearCanvas => rfl
  | exportCpp filename =>
    show (s.exportCpp filename).shown = (s.exportCpp filename).view
    unfold Studio.exportCpp
    split
    · exact h
    · exact h

theorem session_concat (events : List Event) (event : Event) :
    session env (events ++ [event]) = (session env events).handle env event := by
  unfold session
  rw [List.foldl_concat]

theorem session_shown (events : List Event) : (session env events).shown = (session env events).view := by
  induction events using List.reverseRecOn with
  | nil => exact updateCanvasView_shown _
  | append_singleton events event ih =>
    rw [session_concat]
    exact handle_shown ih event

/-! ## The exported table -/

/-- What an event writes. -/
def written (self : Studio) : Event → Option (Text × Text)
  | .exportCpp filename => if filename = [] then none else some (filename, self.header)
  | _ => none

theorem paint_files (s : Studio) (x y : ℤ) : (s.paint x y).files = s.files := by
  unfold Studio.paint
  split <;> rfl

theorem handle_writes : Writes (Studio.handle env) Studio.files written := by
  intro s event
  cases event with
  | motion x y => exact paint_files s x y
  | click x y =>
    refine Eq.trans ?_ (rfl : s.files = _)
    show (s.clickHandler env x y).files = s.files
    unfold Studio.clickHandler
    split
    · rfl
    · exact paint_files s x y
  | exportCpp filename =>
    by_cases hname : filename = []
    · simp [written, Studio.handle, Studio.exportCpp, hname]
    · simp [written, Studio.handle, Studio.exportCpp, hname]
  | _ => rfl

theorem written_eq_some {s : Studio} {event : Event} {f text : Text} :
    written s event = some (f, text) ↔ event = .exportCpp f ∧ f ≠ [] ∧ text = s.header := by
  constructor
  · intro h
    cases event with
    | exportCpp filename =>
      by_cases hne : filename = []
      · have hnone : written s (.exportCpp filename) = none := if_pos hne
        rw [hnone] at h
        cases h
      · have hsome : written s (.exportCpp filename) = some (filename, s.header) := if_neg hne
        rw [hsome] at h
        cases h
        exact ⟨rfl, hne, rfl⟩
    | _ => cases h
  · rintro ⟨rfl, hne, rfl⟩
    exact if_neg hne

theorem exported_at {events : List Event} {f text : Text} (h : (session env events).files f = some text) :
    ∃ pre post, events = pre ++ .exportCpp f :: post ∧ .exportCpp f ∉ post ∧ text = (session env pre).header := by
  obtain ⟨pre, event, post, hevents, hwrite, hlast⟩ := last_write handle_writes rfl h
  obtain ⟨rfl, hne, htext⟩ := written_eq_some.mp hwrite
  refine ⟨pre, post, hevents, fun hmem => ?_, htext⟩
  obtain ⟨mid, post', hpost⟩ := List.append_of_mem hmem
  exact hlast mid _ post' hpost _ (written_eq_some.mpr ⟨rfl, hne, rfl⟩)

theorem rgb565_lt (p : Rgb) : Studio.rgb565 p < 65536 := by
  have hr : (p.r.toNat &&& 0xF8) <<< 8 < 2 ^ 16 := by
    have hle : p.r.toNat &&& 0xF8 ≤ 0xF8 := Nat.and_le_right
    rw [Nat.shiftLeft_eq]
    omega
  have hg : (p.g.toNat &&& 0xFC) <<< 3 < 2 ^ 16 := by
    have hle : p.g.toNat &&& 0xFC ≤ 0xFC := Nat.and_le_right
    rw [Nat.shiftLeft_eq]
    omega
  have hb : p.b.toNat >>> 3 < 2 ^ 16 := by
    have hlt := p.b.toNat_lt
    rw [Nat.shiftRight_eq_div_pow]
    omega
  exact Nat.or_lt_two_pow (Nat.or_lt_two_pow hr hg) hb

theorem colours_lt (im : Image) : ∀ row ∈ Studio.colours im, ∀ n ∈ row, n < 65536 := by
  intro row hrow n hn
  obtain ⟨y, -, rfl⟩ := List.mem_map.mp hrow
  obtain ⟨x, -, rfl⟩ := List.mem_map.mp hn
  exact rgb565_lt (im.pixel x y)

theorem indent_spaces : ∀ c ∈ "    ".toList, PyJson.isWs c = true := by
  have hindent : "    ".toList = List.replicate 4 ' ' := rfl
  rw [hindent]
  intro c hc
  rw [List.eq_of_mem_replicate hc]
  rfl

/-- The declaration of a header, before its `=`. -/
def declaration (name : Text) : Text :=
  "// Generated by Nokia Studio v6.0\n#include <stdint.h>\n\nconst uint16_t ".toList ++
    (name ++ "[240][240] ".toList)

theorem declaration_no_sign {name : Text} (h : '=' ∉ name) : '=' ∉ declaration name := by
  unfold declaration
  rw [List.mem_append, List.mem_append, not_or, not_or]
  exact ⟨by decide +kernel, h, by decide +kernel⟩

theorem header_eq (s : Studio) : s.header = declaration s.nameEntry ++ '=' ::
    (" \x7b\n".toList ++ (tableText "    ".toList (Studio.colours s.image) ++ "\x7d;\n".toList)) := by
  have hsign : "[240][240] =".toList = "[240][240] ".toList ++ ['='] := rfl
  unfold Studio.header declaration
  rw [hsign]
  simp only [List.append_assoc, List.singleton_append]

theorem readArray_header {s : Studio} (h : '=' ∉ s.nameEntry) : readArray s.header = some (Studio.colours s.image) := by
  have htable := readTable_table indent_spaces (colours_lt s.image)
  rw [← readArray_declaration (declaration_no_sign h), ← header_eq] at htable
  exact htable

/-- The last pixel of a square of the zoomed picture is on no line. -/
theorem not_onGrid_last (s : Studio) (x y : ℕ) : ¬ s.OnGrid (scale * x + 2) (scale * y + 2) := by
  have hlast : ∀ i : ℕ, (scale * i + 2) % (s.step * scale) ≠ 0 := by
    intro i h
    have hdvd : scale ∣ scale * i + 2 := (Dvd.intro_left s.step rfl).trans (Nat.dvd_of_mod_eq_zero h)
    have htwo : scale ∣ 2 := (Nat.dvd_add_right (Dvd.intro i rfl)).mp hdvd
    exact absurd htwo (by decide)
  exact fun h => h.2.elim (hlast x) (hlast y)

theorem shown_last (events : List Event) {x y : ℕ} (hx : x < width) (hy : y < height) :
    (session env events).shown.pixel (scale * x + 2) (scale * y + 2) = (session env events).image.pixel x y := by
  have hcell : ∀ i : ℕ, (scale * i + 2) / scale = i := by
    intro i
    show (3 * i + 2) / 3 = i
    omega
  have hbound : ∀ i n : ℕ, i < n → scale * i + 2 < n * scale := by
    intro i n h
    show 3 * i + 2 < n * 3
    omega
  rw [session_shown, view_pixel _ (hbound x width hx) (hbound y height hy), if_neg (not_onGrid_last _ x y), hcell,
    hcell]

/-- **An exported header holds what the canvas showed** when it was last exported there: the sixteen-bit colours
of the squares of the canvas, under their grid, row by row. -/
theorem exported_shown (env : Env) (events : List Event) (f text : Text)
    (h : (session env events).files f = some text) :
    ∃ pre post, events = pre ++ .exportCpp f :: post ∧ .exportCpp f ∉ post ∧
      ('=' ∉ (session env pre).nameEntry → readArray text = some ((List.range height).map fun y =>
        (List.range width).map fun x =>
          Studio.rgb565 ((session env pre).shown.pixel (scale * x + 2) (scale * y + 2)))) := by
  obtain ⟨pre, post, hevents, hpost, rfl⟩ := exported_at h
  refine ⟨pre, post, hevents, hpost, fun hname => ?_⟩
  rw [readArray_header hname]
  unfold Studio.colours
  congr 1
  refine List.map_congr_left fun y hy => List.map_congr_left fun x hx => ?_
  rw [shown_last pre (List.mem_range.mp hx) (List.mem_range.mp hy)]

/-- Pillow without fonts. -/
def noFonts : Env := ⟨fun _ _ => (0, 0), fun pixel _ _ _ _ _ => pixel⟩

/-- A white pixel, exported, and a red one behind it. -/
def redrawn : List Event := [.click 30 30, .exportCpp ['a'], .setColor 4, .click 61 60]

/-- The second export holds both pixels. -/
theorem exported_shown_redrawn : ∃ text,
    (session noFonts (redrawn ++ [.exportCpp ['a']])).files ['a'] = some text ∧
    readArray text = some ((List.range height).map fun y => (List.range width).map fun x =>
      Studio.rgb565 ((session noFonts redrawn).shown.pixel (scale * x + 2) (scale * y + 2))) ∧
    Studio.rgb565 ((session noFonts redrawn).shown.pixel (scale * 10 + 2) (scale * 10 + 2)) = 0xFFFF ∧
    Studio.rgb565 ((session noFonts redrawn).shown.pixel (scale * 20 + 2) (scale * 20 + 2)) = 0xF800 := by
  obtain ⟨text, htext⟩ : ∃ text, (session noFonts (redrawn ++ [.exportCpp ['a']])).files ['a'] = some text :=
    ⟨_, rfl⟩
  have hname : '=' ∉ "bg_home".toList := by decide
  obtain ⟨pre, post, hevents, hpost, hread⟩ :=
    exported_shown noFonts (redrawn ++ [.exportCpp ['a']]) ['a'] text htext
  -- the export that counts is the last one
  obtain rfl : post = [] := by
    rcases List.eq_nil_or_concat' post with rfl | ⟨post, event, rfl⟩
    · rfl
    · rw [← List.cons_append, ← List.append_assoc] at hevents
      obtain ⟨-, hlast⟩ := List.append_inj' hevents rfl
      rw [← List.singleton_inj.mp hlast] at hpost
      exact absurd (List.mem_append_right _ (List.mem_singleton_self _)) hpost
  obtain ⟨rfl, -⟩ := List.append_inj' hevents rfl
  refine ⟨text, htext, hread hname, ?_, ?_⟩
  · rw [shown_last redrawn (by decide) (by decide)]
    decide +kernel
  · rw [shown_last redrawn (by decide) (by decide)]
    decide +kernel

/-! ## Drawings -/

/-- No text is placed. -/
def Event.Textless : Event → Prop
  | .enableTextMode | .addTextAuto _ => False
  | _ => True

/-- The two look the same on the canvas. -/
def LookSame (im im' : Image) : Prop :=
  ∀ X < width * scale, ∀ Y < height * scale, im.pixel X Y = im'.pixel X Y

/-- A picture in the colours of the palette, and no text to come. -/
structure Studio.Drawing (s : Studio) : Prop where
  noText : s.textMode = false
  colour : ∀ x < width, ∀ y < height, ∃ idx, s.image.pixel x y = palette idx

theorem Studio.Drawing.rectangle {s : Studio} (h : s.Drawing) {x0 y0 x1 y1 : ℤ} {fill : Rgb} {idx : Fin 10}
    (hfill : fill = palette idx) {x y : ℕ} (hx : x < width) (hy : y < height) :
    ∃ idx, (NokiaStudio.rectangle s.image x0 y0 x1 y1 fill).pixel x y = palette idx := by
  show ∃ idx, (if x0 ≤ x ∧ x ≤ x1 ∧ y0 ≤ y ∧ y ≤ y1 then fill else s.image.pixel x y) = palette idx
  split
  · exact ⟨idx, hfill⟩
  · exact h.colour x hx y hy

theorem Studio.Drawing.paint {s : Studio} (h : s.Drawing) (mx my : ℤ) : (s.paint mx my).Drawing := by
  unfold Studio.paint
  rw [if_neg (by rw [h.noText]; exact Bool.false_ne_true)]
  exact ⟨h.noText, fun x hx y hy => h.rectangle rfl hx hy⟩

theorem Studio.Drawing.handle {s : Studio} (h : s.Drawing) {event : Event} (hevent : event.Textless) :
    (s.handle env event).Drawing := by
  cases event with
  | motion x y => exact h.paint x y
  | click x y =>
    show (s.clickHandler env x y).Drawing
    unfold Studio.clickHandler
    rw [if_neg (by rw [h.noText]; exact Bool.false_ne_true)]
    exact h.paint x y
  | clearCanvas =>
    have hblack : Rgb.black = palette 0 := rfl
    exact ⟨h.noText, fun x hx y hy => h.rectangle hblack hx hy⟩
  | exportCpp filename =>
    show (s.exportCpp filename).Drawing
    unfold Studio.exportCpp
    split
    · exact h
    · exact ⟨h.noText, h.colour⟩
  | enableTextMode => exact hevent.elim
  | addTextAuto align => exact hevent.elim
  | _ => exact ⟨h.noText, h.colour⟩

theorem session_drawing {events : List Event} (h : ∀ event ∈ events, event.Textless) :
    (session env events).Drawing := by
  induction events using List.reverseRecOn with
  | nil => exact ⟨rfl, fun x _ y _ => ⟨0, rfl⟩⟩
  | append_singleton events event ih =>
    rw [List.forall_mem_append, List.forall_mem_singleton] at h
    rw [session_concat]
    exact (ih h.1).handle h.2

theorem rgb565_palette : ∀ i j, Studio.rgb565 (palette i) = Studio.rgb565 (palette j) → palette i = palette j := by
  decide

/-- One look, one picture: each square of the grid leaves a pixel of its own. -/
theorem image_of_lookSame {events events' : List Event}
    (h : LookSame (session env events).shown (session env events').shown) {x y : ℕ} (hx : x < width) (hy : y < height) :
    (session env events).image.pixel x y = (session env events').image.pixel x y := by
  rw [← shown_last events hx hy, ← shown_last events' hx hy]
  refine h _ ?_ _ ?_
  · show 3 * x + 2 < width * 3
    omega
  · show 3 * y + 2 < height * 3
    omega

theorem lookSame_of_image {events events' : List Event}
    (hgrid : (session env events).gridVar = (session env events').gridVar)
    (hstep : (session env events).step = (session env events').step)
    (h : ∀ x < width, ∀ y < height, (session env events).image.pixel x y = (session env events').image.pixel x y) :
    LookSame (session env events).shown (session env events').shown := by
  intro X hX Y hY
  have hon : (session env events).OnGrid X Y ↔ (session env events').OnGrid X Y := by
    unfold Studio.OnGrid
    rw [hgrid, hstep]
  have hx : X / scale < width := Nat.div_lt_of_lt_mul (by rwa [mul_comm])
  have hy : Y / scale < height := Nat.div_lt_of_lt_mul (by rwa [mul_comm])
  rw [session_shown, session_shown, view_pixel _ hX hY, view_pixel _ hX hY, h _ hx _ hy]
  exact if_congr hon rfl rfl

theorem colours_eq_iff {im im' : Image} : Studio.colours im = Studio.colours im' ↔
    ∀ x < width, ∀ y < height, Studio.rgb565 (im.pixel x y) = Studio.rgb565 (im'.pixel x y) := by
  unfold Studio.colours
  simp only [List.map_inj_left, List.mem_range]
  exact ⟨fun h x hx y hy => h y hy x hx, fun h y hy x hx => h x hx y hy⟩

theorem header_eq_iff {s s' : Studio} (hname : s.nameEntry = s'.nameEntry) :
    s.header = s'.header ↔ Studio.colours s.image = Studio.colours s'.image := by
  rw [header_eq, header_eq, hname]
  constructor
  · intro h
    have htable := congrArg readTable (List.cons.inj (List.append_cancel_left h)).2
    rw [readTable_table indent_spaces (colours_lt s.image), readTable_table indent_spaces (colours_lt s'.image)] at htable
    exact Option.some.inj htable
  · intro h
    rw [h]

/-- **What looks the same is exported the same**, in any two sessions; and **drawings that are exported the same
look the same**, under one grid. -/
theorem header_iff_shown (env : Env) (events events' : List Event)
    (hname : (session env events).nameEntry = (session env events').nameEntry) :
    (LookSame (session env events).shown (session env events').shown →
      (session env events).header = (session env events').header) ∧
    ((∀ event ∈ events ++ events', event.Textless) →
      (session env events).gridVar = (session env events').gridVar →
      (session env events).step = (session env events').step →
      (session env events).header = (session env events').header →
      LookSame (session env events).shown (session env events').shown) := by
  rw [header_eq_iff hname, colours_eq_iff]
  refine ⟨fun h x hx y hy => by rw [image_of_lookSame h hx hy], fun htextless hgrid hstep h => ?_⟩
  rw [List.forall_mem_append] at htextless
  refine lookSame_of_image hgrid hstep fun x hx y hy => ?_
  have hdrawing : (session env events).Drawing := session_drawing htextless.1
  have hdrawing' : (session env events').Drawing := session_drawing htextless.2
  obtain ⟨i, hi⟩ := hdrawing.colour x hx y hy
  obtain ⟨j, hj⟩ := hdrawing'.colour x hx y hy
  have hcolour := h x hx y hy
  rw [hi, hj] at hcolour ⊢
  exact rgb565_palette i j hcolour

/-- A click and a drag that begin in one pixel. -/
theorem header_iff_shown_pixel :
    (session noFonts [.click 0 0]).header = (session noFonts [.motion 2 1]).header ∧
      LookSame (session noFonts [.click 0 0]).shown (session noFonts [.motion 2 1]).shown := by
  have hx : Studio.unzoom 2 = Studio.unzoom 0 := by decide +kernel
  have hy : Studio.unzoom 1 = Studio.unzoom 0 := by decide +kernel
  have hpaint : (Studio.init fun _ => none).paint 2 1 = (Studio.init fun _ => none).paint 0 0 := by
    unfold Studio.paint
    rw [hx, hy]
  have hsame : session noFonts [.motion 2 1] = session noFonts [.click 0 0] := hpaint
  have hlook : LookSame (session noFonts [.click 0 0]).shown (session noFonts [.motion 2 1]).shown := by
    rw [hsame]
    exact fun _ _ _ _ => rfl
  have hname : (session noFonts [.click 0 0]).nameEntry = (session noFonts [.motion 2 1]).nameEntry := by
    rw [hsame]
  exact ⟨(header_iff_shown noFonts [.click 0 0] [.motion 2 1] hname).1 hlook, hlook⟩

/-! ## Mosaics -/

/-- A canvas of squares, and the colour of the pen. -/
structure Mosaic where
  squares : ℤ × ℤ → Rgb
  idx : Fin 10

/-- The column, or row, of squares that a coordinate of the mouse is in.  The canvas begins at 0, but `int`
truncates: the two pixels before it are in the first column. -/
def lane (p : PenSize) (m : ℤ) : ℤ := if -2 ≤ m then max 0 m / (p.val * scale) else -1

/-- The square that the mouse is in. -/
def square (p : PenSize) (mx my : ℤ) : ℤ × ℤ := (lane p mx, lane p my)

/-- A stroke colours the square that the mouse was in. -/
def Mosaic.next (p : PenSize) (m : Mosaic) : Event → Mosaic
  | .setColor idx => { m with idx := idx }
  | .motion mx my => { m with squares := Function.update m.squares (square p mx my) (palette m.idx) }
  | .click mx my => { m with squares := Function.update m.squares (square p mx my) (palette m.idx) }
  | .clearCanvas => { m with squares := fun _ => .black }
  | _ => m

/-- Drawing with one pen, on its grid. -/
def Event.OnePen : Event → Prop
  | .setSize _ | .adaptVar | .enableTextMode | .addTextAuto _ => False
  | _ => True

/-- The picture is a mosaic of squares of the size of the pen. -/
structure Studio.Shows (s : Studio) (p : PenSize) (m : Mosaic) : Prop where
  pen : s.penSize = p
  adapts : s.adaptVar = true
  noText : s.textMode = false
  colour : s.currentColorIdx = m.idx
  pixel : ∀ x < width, ∀ y < height, s.image.pixel x y = m.squares ((x : ℤ) / p.val, (y : ℤ) / p.val)

/-- In a square, or anywhere along it. -/
theorem div_eq_iff {p c x : ℤ} (hp : 0 < p) : x / p = c ↔ c * p ≤ x ∧ x ≤ c * p + p - 1 := by
  have hle : c ≤ x / p ↔ c * p ≤ x := Int.le_ediv_iff_mul_le hp
  have hlt : x / p < c + 1 ↔ x < (c + 1) * p := Int.ediv_lt_iff_lt_mul hp
  rw [add_mul, one_mul] at hlt
  omega

theorem snapped_eq (p : PenSize) (n : ℤ) :
    (if (1 : ℤ) < p.val then n / p.val * p.val else n) = n / p.val * p.val := by
  by_cases h : (1 : ℤ) < p.val
  · rw [if_pos h]
  · have hone : (p.val : ℤ) = 1 := by
      have hpos := p.pos
      omega
    rw [if_neg h, hone, Int.ediv_one, mul_one]

/-- The column that a stroke of the code is in. -/
theorem unzoom_lane (p : PenSize) (m : ℤ) (x : ℕ) :
    (x : ℤ) / p.val = Studio.unzoom m / p.val ↔ (x : ℤ) / p.val = lane p m := by
  have hp : (0 : ℤ) < p.val := by exact_mod_cast p.pos
  have hx : 0 ≤ (x : ℤ) / p.val := Int.ediv_nonneg (Int.natCast_nonneg x) hp.le
  unfold lane
  by_cases hm : -2 ≤ m
  · have hunzoom : Studio.unzoom m = max 0 m / (scale : ℤ) := by
      unfold Studio.unzoom
      rcases le_or_gt 0 m with hnonneg | hneg
      · rw [toInt_of_nonneg (by positivity), max_eq_right hnonneg]
        exact Rat.floor_intCast_div_natCast m scale
      · have hleft : -1 < (m : ℚ) / scale := by
          have hm' : (-2 : ℚ) ≤ m := by exact_mod_cast hm
          rw [lt_div_iff₀ (by decide)]
          norm_num [scale]
          linarith
        have hneg' : (m : ℚ) < 0 := by exact_mod_cast hneg
        rw [toInt_of_neg hleft (div_neg_of_neg_of_pos hneg' (by decide)), max_eq_left hneg.le, Int.zero_ediv]
    rw [if_pos hm, hunzoom, mul_comm, Int.ediv_ediv_of_nonneg (Int.natCast_nonneg _)]
  · have hleft : ¬ -1 < (m : ℚ) / scale := by
      have hm' : (m : ℚ) ≤ -3 := by exact_mod_cast (show m ≤ -3 by omega)
      rw [not_lt, div_le_iff₀ (by decide)]
      norm_num [scale]
      linarith
    have hneg : Studio.unzoom m < 0 := not_le.mp (mt toInt_nonneg_iff.mp hleft)
    have hlane := Int.ediv_neg_of_neg_of_pos hneg hp
    rw [if_neg hm]
    omega

theorem Studio.Shows.paint {s : Studio} {p : PenSize} {m : Mosaic} (h : s.Shows p m) (mx my : ℤ) :
    (s.paint mx my).Shows p
      { m with squares := Function.update m.squares (square p mx my) (palette m.idx) } := by
  have hp : (0 : ℤ) < p.val := by exact_mod_cast p.pos
  have hstep : s.step = p.val := by
    unfold Studio.step
    rw [h.adapts, if_pos rfl, h.pen]
  unfold Studio.paint
  rw [if_neg (by rw [h.noText]; exact Bool.false_ne_true)]
  refine ⟨h.pen, h.adapts, h.noText, h.colour, fun x hx y hy => ?_⟩
  simp only [Studio.updateCanvasView, rectangle, hstep, h.adapts, h.pen, true_and, snapped_eq, h.colour]
  by_cases hsquare : ((x : ℤ) / p.val, (y : ℤ) / p.val) = square p mx my
  · have hxy := Prod.mk.inj hsquare
    have hcolumn := (div_eq_iff hp).mp ((unzoom_lane p mx x).mpr hxy.1)
    have hrow := (div_eq_iff hp).mp ((unzoom_lane p my y).mpr hxy.2)
    rw [if_pos ⟨hcolumn.1, hcolumn.2, hrow.1, hrow.2⟩, hsquare, Function.update_self]
  · rw [if_neg, Function.update_of_ne hsquare, h.pixel x hx y hy]
    rintro ⟨hx0, hx1, hy0, hy1⟩
    have hcolumn := (unzoom_lane p mx x).mp ((div_eq_iff hp).mpr ⟨hx0, hx1⟩)
    have hrow := (unzoom_lane p my y).mp ((div_eq_iff hp).mpr ⟨hy0, hy1⟩)
    exact hsquare (Prod.ext hcolumn hrow)

theorem clearCanvas_pixel (s : Studio) {x y : ℕ} (hx : x < width) (hy : y < height) :
    s.clearCanvas.image.pixel x y = .black := by
  refine if_pos ?_
  have hright : (x : ℤ) < width := by exact_mod_cast hx
  have hbottom : (y : ℤ) < height := by exact_mod_cast hy
  omega

theorem Studio.Shows.handle {s : Studio} {p : PenSize} {m : Mosaic} (h : s.Shows p m) {event : Event}
    (hevent : event.OnePen) : (s.handle env event).Shows p (m.next p event) := by
  cases event with
  | setColor idx => exact ⟨h.pen, h.adapts, h.noText, rfl, h.pixel⟩
  | motion mx my => exact h.paint mx my
  | click mx my =>
    show (s.clickHandler env mx my).Shows p _
    unfold Studio.clickHandler
    rw [if_neg (by rw [h.noText]; exact Bool.false_ne_true)]
    exact h.paint mx my
  | clearCanvas => exact ⟨h.pen, h.adapts, h.noText, h.colour, fun x hx y hy => clearCanvas_pixel s hx hy⟩
  | exportCpp filename =>
    show (s.exportCpp filename).Shows p m
    unfold Studio.exportCpp
    split
    · exact h
    · exact ⟨h.pen, h.adapts, h.noText, h.colour, h.pixel⟩
  | setSize val => exact hevent.elim
  | adaptVar => exact hevent.elim
  | enableTextMode => exact hevent.elim
  | addTextAuto align => exact hevent.elim
  | gridVar => exact ⟨h.pen, h.adapts, h.noText, h.colour, h.pixel⟩
  | typed text => exact ⟨h.pen, h.adapts, h.noText, h.colour, h.pixel⟩
  | fontScale size => exact ⟨h.pen, h.adapts, h.noText, h.colour, h.pixel⟩
  | named name => exact ⟨h.pen, h.adapts, h.noText, h.colour, h.pixel⟩

theorem Studio.Shows.feed {s : Studio} {p : PenSize} {m : Mosaic} (h : s.Shows p m) {events : List Event}
    (hevents : ∀ event ∈ events, event.OnePen) :
    (events.foldl (Studio.handle env) s).Shows p (events.foldl (Mosaic.next p) m) := by
  induction events generalizing s m with
  | nil => exact h
  | cons event events ih =>
    rw [List.forall_mem_cons] at hevents
    exact ih (h.handle hevents.1) hevents.2

/-- **A drawing on the grid of its pen is a mosaic**: once the canvas was cleared, what is seen between the lines
of the grid is, in each square, the colour of the last stroke that the mouse made there, or black. -/
theorem drawn_mosaic (env : Env) (pre events : List Event) (hadapt : (session env pre).adaptVar = true)
    (hnoText : (session env pre).textMode = false) (hevents : ∀ event ∈ events, event.OnePen) :
    let s := session env (pre ++ .clearCanvas :: events)
    let p := (session env pre).penSize
    let m := events.foldl (Mosaic.next p) ⟨fun _ => .black, (session env pre).currentColorIdx⟩
    ∀ X < width * scale, ∀ Y < height * scale, s.shown.pixel X Y =
      if s.gridVar = true ∧ (X % (p.val * scale) = 0 ∨ Y % (p.val * scale) = 0) then gridColor
      else m.squares ((X / (p.val * scale) : ℕ), (Y / (p.val * scale) : ℕ)) := by
  intro s p m X hX Y hY
  have hcleared : (session env (pre ++ [.clearCanvas])).Shows p
      ⟨fun _ => .black, (session env pre).currentColorIdx⟩ := by
    rw [session_concat]
    exact ⟨rfl, hadapt, hnoText, rfl, fun x hx y hy => clearCanvas_pixel _ hx hy⟩
  have hs : s = events.foldl (Studio.handle env) (session env (pre ++ [.clearCanvas])) := by
    show session env (pre ++ .clearCanvas :: events) = _
    unfold session
    rw [← List.foldl_append, List.append_assoc]
    rfl
  have hshows : s.Shows p m := by
    rw [hs]
    exact hcleared.feed hevents
  have hstep : s.step = p.val := by
    unfold Studio.step
    rw [hshows.adapts, if_pos rfl, hshows.pen]
  have hx : X / scale < width := Nat.div_lt_of_lt_mul (by rwa [mul_comm])
  have hy : Y / scale < height := Nat.div_lt_of_lt_mul (by rwa [mul_comm])
  have hdiv : ∀ i : ℕ, ((i / scale : ℕ) : ℤ) / (p.val : ℤ) = ((i / (p.val * scale) : ℕ) : ℤ) := by
    intro i
    rw [← Int.natCast_ediv, Nat.div_div_eq_div_mul, mul_comm]
  have hshown : s.shown = s.view := session_shown _
  rw [hshown, view_pixel s hX hY, hshows.pixel _ hx _ hy, hdiv, hdiv]
  refine if_congr ?_ rfl rfl
  unfold Studio.OnGrid
  rw [hstep]

/-- A pen of four pixels, and a click into the first square. -/
theorem drawn_mosaic_click :
    (session noFonts ([.setSize ⟨4, by decide, by decide⟩] ++ .clearCanvas :: [.click 5 7])).shown.pixel 11 1 =
      ⟨0xFF, 0xFF, 0xFF⟩ :=
  (drawn_mosaic noFonts [.setSize ⟨4, by decide, by decide⟩] [.click 5 7] rfl rfl (by simp [Event.OnePen]) 11
    (by decide) 1 (by decide)).trans (by decide +kernel)

end NokiaStudio

end NeoDCT
