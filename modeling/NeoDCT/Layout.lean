import NeoDCT.Screen

/-!
# The home layout

`render_element`, `render_home` and `render_home_dialing` (core/main.py).  The layout is whatever
`json.load` read from `ui_home.json`, so every subscript, comparison and arithmetic step of the
source can raise.
-/

namespace NeoDCT

open PyText

namespace Json

/-- `key in d` and `d[key]` for a dictionary. -/
def lookup (kvs : List (Text × Json)) (key : String) : Option Json :=
  (kvs.find? fun kv => kv.1 = key.toList).map Prod.snd

/-- `j[key]`. -/
def item (j : Json) (key : String) : Except PyError Json :=
  match j with
  | .obj kvs =>
    match lookup kvs key with
    | some v => .ok v
    | none => .error .keyError
  | _ => .error .typeError

/-- `j.get(key, default)`. -/
def get (j : Json) (key : String) (default : Json) : Except PyError Json :=
  match j with
  | .obj kvs => .ok ((lookup kvs key).getD default)
  | _ => .error .attributeError

/-- `bool(j)`. -/
def truthy : Json → Bool
  | .null => false
  | .bool b => b
  | .int i => i ≠ 0
  | .float q => q ≠ 0
  | .str s => s ≠ []
  | .arr xs => !xs.isEmpty
  | .obj kvs => !kvs.isEmpty

/-- `j == s` for a string `s`. -/
def isStr (j : Json) (s : String) : Bool :=
  match j with
  | .str t => t = s.toList
  | _ => false

/-- A number in arithmetic and comparisons. -/
def number : Json → Except PyError ℚ
  | .bool b => .ok (if b then 1 else 0)
  | .int i => .ok i
  | .float q => .ok q
  | _ => .error .typeError

/-- A number where Python wants an integer. -/
def integer : Json → Except PyError ℤ
  | .bool b => .ok (if b then 1 else 0)
  | .int i => .ok i
  | _ => .error .typeError

/-- `s in j`. -/
def contains (j : Json) (s : String) : Except PyError Bool :=
  match j with
  | .str t => .ok (decide (s.toList <:+: t))
  | .arr xs => .ok (xs.any fun x => x.isStr s)
  | .obj kvs => .ok (lookup kvs s).isSome
  | _ => .error .typeError

/-- `for el in j`; the keys of a dictionary, the characters of a string. -/
def elements : Json → Except PyError (List Json)
  | .arr xs => .ok xs
  | .obj kvs => .ok (kvs.map fun kv => .str kv.1)
  | .str s => .ok (s.map fun c => .str [c])
  | _ => .error .typeError

end Json

/-! ## Elements -/

/-- The first branch of `render_element`; `clock` is the time it is drawn at. -/
def renderTextElement (ui : Ui) (clock : ℚ) (el : Json) : Except PyError (List DrawOp) := do
  let raw ← el.item "text"
  let text := if raw.isStr "12:00" then .str (ui.strftime "%H:%M" ⌊clock⌋) else raw
  let size ← (← el.item "font_size").number
  let font : Font := if 20 ≤ size then .xl else if 16 ≤ size then .n else .s
  match text with
  | .str s =>
    let w := (ui.getTextSize s font).1
    let x ← el.item "x"
    let y ← el.item "y"
    let anchor ← el.item "anchor"
    let x ← if ← anchor.contains "center_h" then pure ((← x.number) - (w / 2 : ℤ))
      else if ← anchor.contains "right" then pure ((← x.number) - w)
      else x.number
    let y ← y.number
    let color ← el.item "color"
    if ui.validInk color then pure [.text x y s (some font) (.layout color)]
    else throw .typeError
  | _ => throw .typeError

/-- `get_image` of a layout value: only a string has `startswith`. -/
def getLayoutImage (ui : Ui) (path : Json) : Except PyError (Option (Text × ℤ × ℤ)) :=
  match path with
  | .str p => .ok ((ui.getImage p).map fun size => (p, size))
  | _ => .error .attributeError

/-- The second branch of `render_element`: `val` is 3. -/
def renderIconSet (ui : Ui) (el : Json) : Except PyError (List DrawOp) := do
  let images ← el.get "custom_images" (.obj [])
  let customPath ← images.get "3" .null
  if customPath.truthy then
    match ← getLayoutImage ui customPath with
    | some (path, _) => do
      let x ← (← el.item "x").integer
      let y ← (← el.item "y").integer
      pure [.paste path x y]
    | none => pure []
  else
    let count ← (← el.item "count").integer
    (List.range count.toNat).mapM fun i => do
      let h : ℚ := (i + 1) * 3
      let bx := (← (← el.item "x").number) + i * 5
      let y ← (← el.item "y").number
      pure (fillBox bx (y + 15 - h) (bx + 3) (y + 15) (if i ≤ 3 then "white" else "#333333"))

/-- `render_element`. -/
def renderElement (ui : Ui) (clock : ℚ) (el : Json) : Except PyError (List DrawOp) := do
  if (← el.item "type").isStr "text" then renderTextElement ui clock el
  else if (← el.item "type").isStr "icon_set" then renderIconSet ui el
  else pure []

/-! ## Home screens -/

/-- The background of `render_home`. -/
def renderBackground (ui : Ui) : Except PyError (List DrawOp) :=
  if ui.wallpaper then .ok [.paste "wallpaper".toList 0 0]
  else
    match ui.homeLayout with
    | some layout =>
      if layout.truthy then do
        let bgPath ← layout.get "background" .null
        if bgPath.truthy then
          match ← getLayoutImage ui bgPath with
          | some (path, _) => pure [.paste path 0 0]
          | none => pure []
        else pure [fillBox 0 0 240 240 "black"]
      else .ok [fillBox 0 0 240 240 "black"]
    | none => .ok [fillBox 0 0 240 240 "black"]

/-- `render_home`. -/
def renderHome (ui : Ui) (clock : ℚ) : Except PyError (List DrawOp) := do
  let background ← renderBackground ui
  match ui.homeLayout with
  | some layout =>
    if layout.truthy then
      let els ← (← layout.item "elements").elements
      let drawn ← els.mapM (renderElement ui clock)
      pure (background ++ drawn.flatten)
    else pure (background ++ [.text 10 10 "No Layout Found".toList none (.named "red")])
  | none => pure (background ++ [.text 10 10 "No Layout Found".toList none (.named "red")])

/-- `render_home_dialing`. -/
def renderHomeDialing (ui : Ui) (dialBuffer : Text) : List DrawOp :=
  let background :=
    if ui.wallpaper then DrawOp.paste "wallpaper".toList 0 0 else fillBox 0 0 240 240 "black"
  let centered (s : Text) (y : ℚ) (font : Font) :=
    drawText ((240 - (ui.getTextSize s font).1) / 2 : ℤ) y s font "white"
  background :: (if dialBuffer ≠ [] then [centered dialBuffer 80 .xl] else []) ++
    [centered "Call".toList 210 .n]

end NeoDCT
