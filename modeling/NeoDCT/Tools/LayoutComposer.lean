import NeoDCT.Layout
import NeoDCT.Lib.LastWrite
import NeoDCT.Lib.PyJson
import NeoDCT.Lib.PyNumbers
import NeoDCT.Lib.Works

/-!
# The layout composer

`NeoDCTComposer` (buildroot/composer.py): the elements, the properties panel, dragging, the asset manager and
the JSON files, but for what its preview draws.  An `Element` is what one of its dictionaries stands for.

Whatever is done in the composer, an exported layout is one that `render_home` draws
(`exported_drawn`); it is imported as it was exported (`exported_imported`).  Selecting an element is harmless,
unless it is an image (`click_harmless_iff`).
-/

namespace NeoDCT

open PyText Interactive PyJson LastWrite

namespace LayoutComposer

/-! ## Dictionaries -/

/-- An entry of `self.elements`. -/
abbrev Widget := List (Text × Value)

/-- `el.get(key)`. -/
def get? (el : Widget) (key : String) : Option Value := (el.find? fun kv => kv.1 = key.toList).map Prod.snd

/-- `el[key] = value`. -/
def setItem (el : Widget) (key : String) (value : Value) : Widget := insertKey el key.toList value

/-- `el["type"] == type`. -/
def isType (el : Widget) (type : String) : Bool :=
  match get? el "type" with
  | some (.str t) => t = type.toList
  | _ => false

/-- `el` has a type to be asked for. -/
def hasType (el : Widget) : Bool := (get? el "type").isSome

/-- `bool(value)`. -/
def truthy : Value → Bool
  | .null => false
  | .bool b => b
  | .int i => i ≠ 0
  | .float x => x ≠ .finite 0
  | .str s => s ≠ []
  | .surrogates _ => true
  | .arr xs => !xs.isEmpty
  | .obj kvs => !kvs.isEmpty

/-- `hash(value)` does not raise. -/
def hashable : Value → Bool
  | .arr _ | .obj _ => false
  | _ => true

/-- `self.elements[i]`, where that is a dictionary: with anything else the composer raises before it changes
anything. -/
def itemAt (elements : Value) (i : ℕ) : Option Widget :=
  match elements with
  | .arr xs =>
    match xs[i]? with
    | some (.obj el) => some el
    | _ => none
  | _ => none

/-- The dictionary at a place, changed to `el`. -/
def setAt (elements : Value) (i : ℕ) (el : Widget) : Value :=
  match elements with
  | .arr xs => .arr (xs.set i (.obj el))
  | elements => elements

/-! ## What an element stands for -/

inductive Element where
  | text (s : Text) (fontSize : ℤ) (anchor : Text) (x y : ℤ)
  | iconSet (name : Text) (x y simVal : ℤ) (customImages : List (Text × Text))
  | container (x y : ℤ)
  | image (path : Text) (x y : ℤ)

/-- The dictionary, with its keys in the order of `WIDGET_DEFS`. -/
def Element.widget : Element → Widget
  | .text s fontSize anchor x y =>
    [("type".toList, .str "text".toList), ("text".toList, .str s), ("font_size".toList, .int fontSize),
      ("anchor".toList, .str anchor), ("x".toList, .int x), ("y".toList, .int y),
      ("color".toList, .str "white".toList)]
  | .iconSet name x y simVal customImages =>
    [("type".toList, .str "icon_set".toList), ("count".toList, .int 5), ("prefix".toList, .str name),
      ("x".toList, .int x), ("y".toList, .int y), ("sim_val".toList, .int simVal),
      ("custom_images".toList, .obj (customImages.map fun kv => (kv.1, .str kv.2)))]
  | .container x y =>
    [("type".toList, .str "container".toList), ("w".toList, .int 220), ("h".toList, .int 160),
      ("x".toList, .int x), ("y".toList, .int y), ("color".toList, .str "gray".toList)]
  | .image path x y =>
    [("type".toList, .str "image".toList), ("path".toList, .str path), ("w".toList, .int 50),
      ("h".toList, .int 50), ("x".toList, .int x), ("y".toList, .int y)]

inductive WidgetType where
  | CLOCK | CARRIER | SIGNAL | BATTERY | CENTER_KEY | MENU_LIST | MENU_ICON
deriving DecidableEq, Repr

/-- `WIDGET_DEFS`. -/
def widgetDefs : WidgetType → Element
  | .CLOCK => .text "12:00".toList 24 "center_h".toList 120 90
  | .CARRIER => .text "US MOBILE".toList 10 "center_h".toList 120 20
  | .SIGNAL => .iconSet "sig".toList 5 5 2 []
  | .BATTERY => .iconSet "bat".toList 232 5 3 []
  | .CENTER_KEY => .text "Menu".toList 12 "center_h".toList 120 215
  | .MENU_LIST => .container 10 40
  | .MENU_ICON => .image [] 95 80

/-! ## The composer -/

/-- `prop_vars`, as Tcl keeps them. -/
structure PropVars where
  x : Text
  y : Text
  text : Text
  fontSize : Text
  anchor : Text
  path : Text

/-- `drag_data`. -/
structure DragData where
  x : ℤ
  y : ℤ
  itemStartX : Value
  itemStartY : Value

/-- What is imported may be any values. -/
structure Composer where
  elements : Value
  selectedIndex : Option ℕ
  bgImagePath : Value
  dragData : DragData
  propVars : PropVars
  /-- The layouts on the disk. -/
  files : Text → Option Text

/-- `__init__`. -/
def Composer.init (files : Text → Option Text) : Composer where
  elements := .arr []
  selectedIndex := none
  bgImagePath := .null
  dragData := ⟨0, 0, .int 0, .int 0⟩
  propVars := ⟨['0'], ['0'], [], ['0'], [], []⟩
  files := files

/-- What lies outside: Tcl's variables, the files of images, the texts of floats. -/
structure Env where
  /-- `IntVar.get` of what the variable holds; it raises `TclError` where this is `none`. -/
  getInt : Text → Option ℤ
  /-- What `var.set(value)` leaves in the variable. -/
  ofValue : Value → Text
  /-- `os.path.exists`. -/
  pathExists : Text → Bool
  /-- The same of what is no text, such as a file descriptor; `none` is a `TypeError`. -/
  valueExists : Value → Option Bool
  /-- Whether `Image.open` opens the file. -/
  imageOpens : Text → Bool
  /-- The same of what is no text. -/
  valueOpens : Value → Bool
  floatRepr : PyFloat → Text
  floatOf : Text → PyFloat

/-- What `IntVar` and `StringVar` do: a variable has the value that it was given. -/
structure Env.Tcl (env : Env) : Prop where
  int : ∀ i, env.getInt (env.ofValue (.int i)) = some i
  str : ∀ s, env.ofValue (.str s) = s

section
variable (env : Env)

/-! ### Properties -/

/-- `update_from_properties`, on the selected element.  A `TclError` is no `ValueError`, and ends it. -/
def updateElement (vars : PropVars) (el : Widget) : Widget :=
  match env.getInt vars.x with
  | none => el
  | some x =>
    let el := setItem el "x" (.int x)
    match env.getInt vars.y with
    | none => el
    | some y =>
      let el := setItem el "y" (.int y)
      let el :=
        if isType el "text" then
          let el := setItem el "text" (.str vars.text)
          let el := match env.getInt vars.fontSize with
            | some n => setItem el "font_size" (.int n)
            | none => el
          setItem el "anchor" (.str vars.anchor)
        else el
      if isType el "image" then setItem el "path" (.str vars.path) else el

/-- `update_from_properties`. -/
def Composer.updateFromProperties (self : Composer) : Composer :=
  match self.selectedIndex with
  | none => self
  | some i =>
    match itemAt self.elements i with
    | none => self
    | some el => { self with elements := setAt self.elements i (updateElement env self.propVars el) }

/-- `var.set(el.get(key, ""))`. -/
def shown (el : Widget) (key : String) : Text := env.ofValue ((get? el key).getD (.str []))

/-- `populate_properties`.  The variables are set in the order of the rows of the panel; the type is asked for
after `text`, and setting `anchor` calls `update_from_properties`: `path` is not set until then. -/
def Composer.populateProperties (self : Composer) : Composer :=
  match self.selectedIndex with
  | none => self
  | some i =>
    match itemAt self.elements i with
    | none => self
    | some el =>
      if hasType el then
        let vars : PropVars := ⟨shown env el "x", shown env el "y", shown env el "text",
          shown env el "font_size", shown env el "anchor", self.propVars.path⟩
        let el := updateElement env vars el
        { self with
          elements := setAt self.elements i el
          propVars := { vars with path := shown env el "path" } }
      else
        { self with
          propVars := { self.propVars with
            x := shown env el "x", y := shown env el "y", text := shown env el "text" } }

/-! ### Elements -/

/-- `add_widget`. -/
def Composer.addWidget (self : Composer) (wType : WidgetType) : Composer :=
  match self.elements with
  | .arr xs =>
    Composer.populateProperties env
      { self with elements := .arr (xs ++ [.obj (widgetDefs wType).widget]), selectedIndex := some xs.length }
  | _ => self

/-- `delete_item`. -/
def Composer.deleteItem (self : Composer) : Composer :=
  match self.selectedIndex, self.elements with
  | some i, .arr xs =>
    if i < xs.length then { self with elements := .arr (xs.eraseIdx i), selectedIndex := none } else self
  | _, _ => self

/-- `on_canvas_click`, where `idx` is the element of the closest item. -/
def Composer.onCanvasClick (self : Composer) (idx : Option ℕ) (x y : ℤ) : Composer :=
  match idx with
  | none => self
  | some idx =>
    let self := Composer.populateProperties env { self with selectedIndex := some idx }
    match itemAt self.elements idx with
    | none => self
    | some el =>
      -- without a type `populate_properties` has raised
      if hasType el then
        match get? el "x", get? el "y" with
        | some startX, some startY => { self with dragData := ⟨x, y, startX, startY⟩ }
        | some startX, none => { self with dragData := { self.dragData with x := x, y := y, itemStartX := startX } }
        | none, _ => { self with dragData := { self.dragData with x := x, y := y } }
      else self

/-- `name in el.get("anchor", "")`; `none` is a `TypeError`. -/
def anchored (el : Widget) (name : String) : Option Bool :=
  match (get? el "anchor").getD (.str []) with
  | .str s => some (decide (name.toList <:+: s))
  | .surrogates points => some (decide (name.toList.map Char.toNat <:+: points))
  | .arr xs => some (xs.any fun x => match x with
    | .str s => s = name.toList
    | _ => false)
  | .obj kvs => some (kvs.any (·.1 = name.toList))
  | _ => none

/-- A value that can be added to an integer. -/
def isNumber : Value → Bool
  | .bool _ | .int _ | .float _ => true
  | _ => false

/-- `int(start + delta)`, or `int(start)` of what stays in its place; `none` is a float that is no integer. -/
def dragged (start : Value) (delta : ℤ) (stays : Bool) : Option ℤ :=
  let delta := if stays then 0 else delta
  match start with
  | .bool b => some ((if b then 1 else 0) + delta)
  | .int i => some (i + delta)
  | .float (.finite q) => some (toInt (toFloat (q + delta)))
  | _ => none

/-- `on_canvas_drag`. -/
def Composer.onCanvasDrag (self : Composer) (x y : ℤ) : Composer :=
  match self.selectedIndex with
  | none => self
  | some i =>
    match itemAt self.elements i with
    | none => self
    | some el =>
      if isNumber self.dragData.itemStartX && isNumber self.dragData.itemStartY then
        match anchored el "center_h", anchored el "center_v" with
        | some staysX, some staysY =>
          match dragged self.dragData.itemStartX (x - self.dragData.x) staysX,
            dragged self.dragData.itemStartY (y - self.dragData.y) staysY with
          | some newX, some newY =>
            let el := setItem (setItem el "x" (.int newX)) "y" (.int newY)
            Composer.populateProperties env { self with elements := setAt self.elements i el }
          | some newX, none => { self with elements := setAt self.elements i (setItem el "x" (.int newX)) }
          | none, _ => self
        | _, _ => self
      else self

/-- `on_right_click` on an image, where `filePath` is what the dialog returned. -/
def Composer.onRightClick (self : Composer) (idx : Option ℕ) (filePath : Text) : Composer :=
  match idx with
  | none => self
  | some idx =>
    match itemAt self.elements idx with
    | none => self
    | some el =>
      if isType el "image" ∧ filePath ≠ [] then
        Composer.populateProperties env
          { self with elements := setAt self.elements idx (setItem el "path" (.str filePath)) }
      else self

/-- `pick` in the asset manager of an element: `el["custom_images"][str(lvl)] = f`. -/
def Composer.pick (self : Composer) (idx : ℕ) (lvl : ℕ) (f : Text) : Composer :=
  match itemAt self.elements idx with
  | none => self
  | some el =>
    if isType el "icon_set" ∧ f ≠ [] then
      match get? el "custom_images" with
      | some (.obj images) =>
        let images := insertKey images (intText lvl) (.str f)
        { self with elements := setAt self.elements idx (setItem el "custom_images" (.obj images)) }
      | _ => self
    else self

/-! ### Files -/

/-- `load_bg_image`. -/
def Composer.loadBgImage (self : Composer) (f : Text) : Composer :=
  if f = [] then self else { self with bgImagePath := .str f }

/-- The layout that `export_json` writes. -/
def Composer.layout (self : Composer) : Value :=
  .obj [("background".toList, self.bgImagePath), ("elements".toList, self.elements)]

/-- `export_json`. -/
def Composer.exportJson (self : Composer) (f : Text) : Composer :=
  if f = [] then self
  else { self with files := Function.update self.files f (some (dumps env.floatRepr self.layout)) }

/-- `os.path.exists`. -/
def Env.exists (env : Env) : Value → Option Bool
  | .str path => some (env.pathExists path)
  | v => env.valueExists v

/-- Whether `Image.open` opens a background. -/
def Env.opens (env : Env) : Value → Bool
  | .str path => env.imageOpens path
  | v => env.valueOpens v

/-- What `import_json` does with the background of the file, and whether it can go on. -/
def Composer.importBackground (self : Composer) (data : Widget) : Composer × Bool :=
  let background := (get? data "background").getD .null
  if truthy background then
    match env.exists background with
    | some true => ({ self with bgImagePath := background }, env.opens background)
    | some false => (self, true)
    | none => (self, false)
  else (self, true)

/-- The loop of `import_json` gets past an element. -/
def importsElement : Value → Bool
  | .obj el =>
    hasType el &&
      (if isType el "icon_set" then
        match (get? el "custom_images").getD (.obj []) with
        | .obj images => images.all fun kv => hashable kv.2
        | _ => false
      else if isType el "image" then
        let path := (get? el "path").getD .null
        !truthy path || hashable path
      else true)
  | _ => false

/-- The loop of `import_json` gets to its end: the keys of a dictionary and the characters of a string are no
elements. -/
def importsElements : Value → Bool
  | .arr xs => xs.all importsElement
  | .obj kvs => kvs.isEmpty
  | .str s => s.isEmpty
  | _ => false

/-- `import_json`. -/
def Composer.importJson (self : Composer) (f : Text) : Composer :=
  match (self.files f).bind (loads env.floatOf) with
  | some (.obj data) =>
    let (self, goes) := self.importBackground env data
    if goes then
      let self := { self with elements := (get? data "elements").getD (.arr []) }
      if importsElements self.elements then { self with selectedIndex := none } else self
    else self
  | _ => self

/-! ### Sessions -/

inductive Event where
  | addWidget (wType : WidgetType)
  | deleteItem
  /-- Something is typed into the entries of the panel. -/
  | typed (vars : PropVars)
  /-- An anchor is chosen, which calls `update_from_properties`. -/
  | anchor (anchor : Text)
  /-- `Update`, or Return in an entry. -/
  | update
  | click (idx : Option ℕ) (x y : ℤ)
  | drag (x y : ℤ)
  | rightClick (idx : Option ℕ) (filePath : Text)
  | pick (idx lvl : ℕ) (f : Text)
  | loadBg (f : Text)
  | exportJson (f : Text)
  | importJson (f : Text)
  /-- The window is closed, and the composer started again. -/
  | restart

def Composer.handle (self : Composer) : Event → Composer
  | .addWidget wType => self.addWidget env wType
  | .deleteItem => self.deleteItem
  | .typed vars => { self with propVars := { vars with anchor := self.propVars.anchor } }
  | .anchor anchor => Composer.updateFromProperties env { self with propVars.anchor := anchor }
  | .update => self.updateFromProperties env
  | .click idx x y => self.onCanvasClick env idx x y
  | .drag x y => self.onCanvasDrag env x y
  | .rightClick idx filePath => self.onRightClick env idx filePath
  | .pick idx lvl f => self.pick idx lvl f
  | .loadBg f => self.loadBgImage f
  | .exportJson f => self.exportJson env f
  | .importJson f => self.importJson env f
  | .restart => .init self.files

/-- A session, on the layouts of a disk. -/
def session (disk : Text → Option Text) (events : List Event) : Composer :=
  events.foldl (Composer.handle env) (.init disk)

end

/-! ## Elements stay elements -/

namespace Element

def withX (x : ℤ) : Element → Element
  | .text s fontSize anchor _ y => .text s fontSize anchor x y
  | .iconSet name _ y simVal images => .iconSet name x y simVal images
  | .container _ y => .container x y
  | .image path _ y => .image path x y

def withY (y : ℤ) : Element → Element
  | .text s fontSize anchor x _ => .text s fontSize anchor x y
  | .iconSet name x _ simVal images => .iconSet name x y simVal images
  | .container x _ => .container x y
  | .image path x _ => .image path x y

/-- The texts of the panel. -/
def withTexts (env : Env) (vars : PropVars) : Element → Element
  | .text _ fontSize _ x y => .text vars.text ((env.getInt vars.fontSize).getD fontSize) vars.anchor x y
  | .image _ x y => .image vars.path x y
  | e => e

/-- What `update_from_properties` makes of an element. -/
def updated (env : Env) (vars : PropVars) (e : Element) : Element :=
  match env.getInt vars.x with
  | none => e
  | some x =>
    match env.getInt vars.y with
    | none => e.withX x
    | some y => ((e.withX x).withY y).withTexts env vars

/-- An icon set has one image for a level. -/
def Sound : Element → Prop
  | .iconSet _ _ _ _ images => (images.map Prod.fst).Nodup
  | _ => True

end Element

variable {env : Env}

theorem setItem_x (e : Element) (x : ℤ) : setItem e.widget "x" (.int x) = (e.withX x).widget := by
  cases e <;> rfl

theorem setItem_y (e : Element) (y : ℤ) : setItem e.widget "y" (.int y) = (e.withY y).widget := by
  cases e <;> rfl

theorem updateElement_widget (vars : PropVars) (e : Element) :
    updateElement env vars e.widget = (e.updated env vars).widget := by
  unfold updateElement Element.updated
  cases env.getInt vars.x with
  | none => rfl
  | some x =>
    simp only [setItem_x]
    cases env.getInt vars.y with
    | none => rfl
    | some y =>
      simp only [setItem_y]
      generalize (e.withX x).withY y = e'
      cases e' with
      | text s fontSize anchor x y => cases h : env.getInt vars.fontSize <;> simp [Element.withTexts, h] <;> rfl
      | iconSet name x y simVal images => rfl
      | container x y => rfl
      | image path x y => rfl

theorem Element.Sound.moved {e : Element} (h : e.Sound) (x y : ℤ) : ((e.withX x).withY y).Sound := by
  cases e <;> exact h

theorem Element.Sound.updated {e : Element} (h : e.Sound) (env : Env) (vars : PropVars) :
    (e.updated env vars).Sound := by
  unfold Element.updated
  cases env.getInt vars.x with
  | none => exact h
  | some x =>
    cases env.getInt vars.y with
    | none => cases e <;> exact h
    | some y => cases e <;> exact h

/-- The list of the dictionaries of elements. -/
def elementsValue (es : List Element) : Value := .arr (es.map fun e => .obj e.widget)

/-- The dictionaries are those of elements. -/
def Widgets (elements : Value) : Prop := ∃ es : List Element, (∀ e ∈ es, e.Sound) ∧ elements = elementsValue es

theorem itemAt_elementsValue (es : List Element) (i : ℕ) :
    itemAt (elementsValue es) i = es[i]?.map Element.widget := by
  unfold itemAt elementsValue
  simp only [List.getElem?_map]
  cases es[i]? <;> rfl

theorem setAt_elementsValue (es : List Element) (i : ℕ) (e : Element) :
    setAt (elementsValue es) i e.widget = elementsValue (es.set i e) := by
  unfold setAt elementsValue
  simp only [List.map_set]

theorem Widgets.get {elements : Value} (h : Widgets elements) {i : ℕ} {el : Widget}
    (hel : itemAt elements i = some el) : ∃ e : Element, e.Sound ∧ el = e.widget := by
  obtain ⟨es, hsound, rfl⟩ := h
  rw [itemAt_elementsValue, Option.map_eq_some_iff] at hel
  obtain ⟨e, he, rfl⟩ := hel
  exact ⟨e, hsound e (List.mem_of_getElem? he), rfl⟩

theorem Widgets.set {elements : Value} (h : Widgets elements) (i : ℕ) {e : Element} (he : e.Sound) :
    Widgets (setAt elements i e.widget) := by
  obtain ⟨es, hsound, rfl⟩ := h
  refine ⟨es.set i e, fun e' he' => ?_, setAt_elementsValue es i e⟩
  rcases List.mem_or_eq_of_mem_set he' with he' | rfl
  exacts [hsound e' he', he]

theorem Widgets.updateElement {elements : Value} (h : Widgets elements) {i : ℕ} {el : Widget}
    (hel : itemAt elements i = some el) (vars : PropVars) :
    Widgets (setAt elements i (updateElement env vars el)) := by
  obtain ⟨e, he, rfl⟩ := h.get hel
  rw [updateElement_widget]
  exact h.set i (he.updated env vars)

/-- What the panel is filled with does not matter to the elements. -/
theorem Widgets.populateProperties {c : Composer} (h : Widgets c.elements) :
    Widgets (c.populateProperties env).elements := by
  unfold Composer.populateProperties
  split
  · exact h
  · split
    · exact h
    · next el hel =>
      split
      · exact h.updateElement hel _
      · exact h

theorem insertKey_keys {kvs : List (Text × Value)} {key : Text} {v : Value} (h : (kvs.map Prod.fst).Nodup) :
    ((insertKey kvs key v).map Prod.fst).Nodup := by
  unfold insertKey
  split
  · have hkeys : ((kvs.map fun kv => if kv.1 = key then (key, v) else kv).map Prod.fst) = kvs.map Prod.fst := by
      rw [List.map_map]
      refine List.map_congr_left fun kv _ => ?_
      show (if kv.1 = key then (key, v) else kv).1 = kv.1
      split
      · next hk => exact hk.symm
      · rfl
    rwa [hkeys]
  · next hnew =>
    rw [List.map_append, List.nodup_append]
    refine ⟨h, List.nodup_singleton _, fun a ha b hb => ?_⟩
    obtain rfl : b = key := List.mem_singleton.mp hb
    rintro rfl
    obtain ⟨kv, hkv, hk⟩ := List.mem_map.mp ha
    refine hnew ?_
    rw [List.any_eq_true]
    exact ⟨kv, hkv, decide_eq_true hk⟩

/-- An image for a level, among images that are paths. -/
theorem insertKey_images (images : List (Text × Text)) (key f : Text) :
    ∃ images' : List (Text × Text), insertKey (images.map fun kv => (kv.1, .str kv.2)) key (.str f) =
      images'.map fun kv => (kv.1, .str kv.2) := by
  unfold insertKey
  split
  · refine ⟨images.map fun kv => if kv.1 = key then (key, f) else kv, ?_⟩
    rw [List.map_map, List.map_map]
    refine List.map_congr_left fun kv _ => ?_
    show (if kv.1 = key then (key, Value.str f) else (kv.1, .str kv.2)) =
      ((if kv.1 = key then (key, f) else kv).1, Value.str (if kv.1 = key then (key, f) else kv).2)
    split <;> rfl
  · exact ⟨images ++ [(key, f)], by simp⟩

/-- `None`, or a path. -/
def bgValue : Option Text → Value
  | none => .null
  | some path => .str path

/-- What `export_json` writes of elements and a background. -/
def layoutOf (bg : Option Text) (es : List Element) : Value :=
  .obj [("background".toList, bgValue bg), ("elements".toList, elementsValue es)]

/-- The text is JSON of a layout of elements, however it is laid out, or of no dictionary at all, so that
`import_json` raises before it changes anything. -/
def IsLayout (env : Env) (text : Text) : Prop :=
  (∃ bg es, (∀ e ∈ es, Element.Sound e) ∧ loads env.floatOf text = some (layoutOf bg es)) ∨
    ∀ data, loads env.floatOf text ≠ some (.obj data)

/-- What is on the disk are layouts of elements. -/
def Layouts (env : Env) (disk : Text → Option Text) : Prop := ∀ f text, disk f = some text → IsLayout env text

/-- The composer holds elements and, perhaps, the path of a background, and so do the layouts on the disk. -/
structure Composer.Inv (env : Env) (c : Composer) : Prop where
  widgets : Widgets c.elements
  background : ∃ bg, c.bgImagePath = bgValue bg
  files : Layouts env c.files

def Element.keys : Element → List Text
  | .text .. => ["type".toList, "text".toList, "font_size".toList, "anchor".toList, "x".toList, "y".toList,
    "color".toList]
  | .iconSet .. => ["type".toList, "count".toList, "prefix".toList, "x".toList, "y".toList,
    "sim_val".toList, "custom_images".toList]
  | .container .. => ["type".toList, "w".toList, "h".toList, "x".toList, "y".toList, "color".toList]
  | .image .. => ["type".toList, "path".toList, "w".toList, "h".toList, "x".toList, "y".toList]

theorem nodup_keys (e : Element) : (e.widget.map Prod.fst).Nodup := by
  have hkeys : e.widget.map Prod.fst = e.keys := by
    cases e <;> rfl
  rw [hkeys]
  cases e <;> simp only [Element.keys] <;> decide

theorem plain_widget {e : Element} (h : e.Sound) : Plain (.obj e.widget) := by
  refine .obj (nodup_keys e) ?_
  cases e with
  | text s fontSize anchor x y =>
    simp only [Element.widget, List.forall_mem_cons]
    exact ⟨.str _, .str _, .int _, .str _, .int _, .int _, .str _, nofun⟩
  | iconSet name x y simVal images =>
    simp only [Element.widget, List.forall_mem_cons]
    refine ⟨.str _, .int _, .str _, .int _, .int _, .int _, .obj ?_ ?_, nofun⟩
    · rw [List.map_map]
      exact h
    · rw [List.forall_mem_map]
      exact fun kv _ => .str _
  | container x y =>
    simp only [Element.widget, List.forall_mem_cons]
    exact ⟨.str _, .int _, .int _, .int _, .int _, .str _, nofun⟩
  | image path x y =>
    simp only [Element.widget, List.forall_mem_cons]
    exact ⟨.str _, .str _, .int _, .int _, .int _, .int _, nofun⟩

theorem plain_layoutOf (bg : Option Text) {es : List Element} (h : ∀ e ∈ es, e.Sound) :
    Plain (layoutOf bg es) := by
  have hkeys : (["background".toList, "elements".toList] : List Text).Nodup := by decide
  refine .obj hkeys ?_
  rw [List.forall_mem_cons, List.forall_mem_singleton]
  refine ⟨?_, .arr ?_⟩
  · cases bg with
    | none => exact .null
    | some path => exact .str path
  · rw [List.forall_mem_map]
    exact fun e he => plain_widget (h e he)

/-- A layout is read as it was written. -/
theorem loads_layout (env : Env) (bg : Option Text) {es : List Element} (h : ∀ e ∈ es, e.Sound) :
    loads env.floatOf (dumps env.floatRepr (layoutOf bg es)) = some (layoutOf bg es) :=
  loads_dumps env.floatRepr env.floatOf (plain_layoutOf bg h)

theorem importsElement_widget (e : Element) : importsElement (.obj e.widget) = true := by
  cases e with
  | text s fontSize anchor x y => rfl
  | iconSet name x y simVal images =>
    have himages : (images.map fun kv => (kv.1, Value.str kv.2)).all (fun kv => hashable kv.2) = true := by
      rw [List.all_map, List.all_eq_true]
      exact fun _ _ => rfl
    exact himages
  | container x y => rfl
  | image path x y =>
    show (!truthy (.str path) || hashable (.str path)) = true
    exact Bool.or_eq_true_iff.mpr (Or.inr rfl)

theorem importsElements_elementsValue (es : List Element) : importsElements (elementsValue es) = true := by
  show (es.map fun e => Value.obj e.widget).all importsElement = true
  rw [List.all_map, List.all_eq_true]
  exact fun e _ => importsElement_widget e

theorem Composer.Inv.init {disk : Text → Option Text} (h : Layouts env disk) : (Composer.init disk).Inv env where
  widgets := ⟨[], nofun, rfl⟩
  background := ⟨none, rfl⟩
  files := h

/-- What a layout file does to the composer: a background that there is replaces its own, and so do the
elements, unless the background cannot be opened. -/
def Composer.restored (env : Env) (c : Composer) (bg : Option Text) (es : List Element) : Composer :=
  match bg with
  | none => { c with elements := elementsValue es, selectedIndex := none }
  | some path =>
    if path ≠ [] ∧ env.pathExists path then
      if env.imageOpens path then
        { c with elements := elementsValue es, selectedIndex := none, bgImagePath := .str path }
      else { c with bgImagePath := .str path }
    else { c with elements := elementsValue es, selectedIndex := none }

theorem importJson_eq {c : Composer} {f text : Text} {bg : Option Text} {es : List Element}
    (hfile : c.files f = some text) (htext : loads env.floatOf text = some (layoutOf bg es)) :
    c.importJson env f = c.restored env bg es := by
  have helements : (get? [("background".toList, bgValue bg), ("elements".toList, elementsValue es)]
      "elements").getD (.arr []) = elementsValue es := rfl
  have hbackground : (get? [("background".toList, bgValue bg), ("elements".toList, elementsValue es)]
      "background").getD .null = bgValue bg := rfl
  have himports := importsElements_elementsValue es
  unfold Composer.importJson
  rw [hfile, Option.bind_some, htext]
  unfold layoutOf Composer.importBackground Composer.restored
  simp only [hbackground, helements, himports]
  cases bg with
  | none => simp [bgValue, truthy]
  | some path =>
    simp only [bgValue, truthy, Env.exists, Env.opens]
    by_cases hempty : path = []
    · simp [hempty]
    · by_cases hexists : env.pathExists path = true
      · by_cases hopens : env.imageOpens path = true <;> simp [hempty, hexists, hopens]
      · simp [hempty, hexists]

/-- What is no dictionary is not imported. -/
theorem importJson_of_not_obj {c : Composer} {f text : Text} (hfile : c.files f = some text)
    (htext : ∀ data, loads env.floatOf text ≠ some (.obj data)) : c.importJson env f = c := by
  unfold Composer.importJson
  rw [hfile, Option.bind_some]
  split
  · next data hdata => exact absurd hdata (htext data)
  · rfl

theorem Composer.Inv.restored {c : Composer} (h : c.Inv env) (bg : Option Text) {es : List Element}
    (hes : ∀ e ∈ es, e.Sound) : (c.restored env bg es).Inv env := by
  have hwidgets : Widgets (elementsValue es) := ⟨es, hes, rfl⟩
  unfold Composer.restored
  cases bg with
  | none => exact ⟨hwidgets, h.background, h.files⟩
  | some path =>
    simp only []
    split_ifs
    exacts [⟨hwidgets, ⟨some path, rfl⟩, h.files⟩, ⟨h.widgets, ⟨some path, rfl⟩, h.files⟩,
      ⟨hwidgets, h.background, h.files⟩]

/-- What is done to the composer leaves the files and the background alone, but for what is about them. -/
theorem populateProperties_files (c : Composer) : (c.populateProperties env).files = c.files := by
  unfold Composer.populateProperties
  split
  · rfl
  · split
    · rfl
    · split <;> rfl

theorem populateProperties_background (c : Composer) :
    (c.populateProperties env).bgImagePath = c.bgImagePath := by
  unfold Composer.populateProperties
  split
  · rfl
  · split
    · rfl
    · split <;> rfl

theorem updateFromProperties_files (c : Composer) : (c.updateFromProperties env).files = c.files := by
  unfold Composer.updateFromProperties
  split
  · rfl
  · split <;> rfl

theorem layout_eq {c : Composer} {bg : Option Text} {es : List Element} (hbg : c.bgImagePath = bgValue bg)
    (h : c.elements = elementsValue es) : c.layout = layoutOf bg es := by
  unfold Composer.layout layoutOf
  rw [hbg, h]

/-- New elements, and the panel filled with one. -/
theorem Composer.Inv.populate {c : Composer} (h : c.Inv env) {elements : Value} (hwidgets : Widgets elements)
    (selectedIndex : Option ℕ) :
    (Composer.populateProperties env { c with elements := elements, selectedIndex := selectedIndex }).Inv env where
  widgets := Widgets.populateProperties (c := { c with elements := elements, selectedIndex := selectedIndex }) hwidgets
  background := by
    rw [populateProperties_background]
    exact h.background
  files := by
    rw [populateProperties_files]
    exact h.files

theorem Composer.Inv.update {c : Composer} (h : c.Inv env) : (c.updateFromProperties env).Inv env := by
  unfold Composer.updateFromProperties
  split
  · exact h
  · split
    · exact h
    · next el hel => exact ⟨h.widgets.updateElement hel _, h.background, h.files⟩

/-- The type of the dictionary. -/
def Element.type : Element → Text
  | .text .. => "text".toList
  | .iconSet .. => "icon_set".toList
  | .container .. => "container".toList
  | .image .. => "image".toList

theorem isType_widget (e : Element) (type : String) : isType e.widget type = decide (e.type = type.toList) := by
  cases e <;> rfl

theorem image_of_isType {e : Element} (h : isType e.widget "image" = true) :
    ∃ path x y, e = .image path x y := by
  rw [isType_widget, decide_eq_true_eq] at h
  cases e with
  | image path x y => exact ⟨path, x, y, rfl⟩
  | text => exact absurd (show "text".toList = "image".toList from h) (by decide)
  | iconSet => exact absurd (show "icon_set".toList = "image".toList from h) (by decide)
  | container => exact absurd (show "container".toList = "image".toList from h) (by decide)

theorem iconSet_of_isType {e : Element} (h : isType e.widget "icon_set" = true) :
    ∃ name x y simVal images, e = .iconSet name x y simVal images := by
  rw [isType_widget, decide_eq_true_eq] at h
  cases e with
  | iconSet name x y simVal images => exact ⟨name, x, y, simVal, images, rfl⟩
  | text => exact absurd (show "text".toList = "icon_set".toList from h) (by decide)
  | container => exact absurd (show "container".toList = "icon_set".toList from h) (by decide)
  | image => exact absurd (show "image".toList = "icon_set".toList from h) (by decide)

theorem Composer.Inv.addWidget {c : Composer} (h : c.Inv env) (wType : WidgetType) : (c.addWidget env wType).Inv env := by
  unfold Composer.addWidget
  obtain ⟨es, hsound, hes⟩ := h.widgets
  split
  · next xs hxs =>
    refine h.populate ⟨es ++ [widgetDefs wType], ?_, ?_⟩ _
    · rw [List.forall_mem_append, List.forall_mem_singleton]
      exact ⟨hsound, by cases wType <;> simp [widgetDefs, Element.Sound]⟩
    · obtain rfl : xs = es.map fun e => .obj e.widget := Value.arr.inj (hxs.symm.trans hes)
      unfold elementsValue
      rw [List.map_append]
      rfl
  · exact h

theorem Composer.Inv.deleteItem {c : Composer} (h : c.Inv env) : c.deleteItem.Inv env := by
  unfold Composer.deleteItem
  obtain ⟨es, hsound, hes⟩ := h.widgets
  split
  · next i xs _ hxs =>
    obtain rfl : xs = es.map fun e => .obj e.widget := Value.arr.inj (hxs.symm.trans hes)
    split
    · refine ⟨⟨es.eraseIdx i, fun e he => hsound e (List.mem_of_mem_eraseIdx he), ?_⟩, h.background, h.files⟩
      unfold elementsValue
      rw [List.eraseIdx_map]
    · exact h
  · exact h

theorem Composer.Inv.onCanvasClick {c : Composer} (h : c.Inv env) (idx : Option ℕ) (x y : ℤ) :
    (c.onCanvasClick env idx x y).Inv env := by
  unfold Composer.onCanvasClick
  cases idx with
  | none => exact h
  | some idx =>
    have hpopulated : ({ c with selectedIndex := some idx }.populateProperties env).Inv env :=
      h.populate h.widgets _
    simp only []
    generalize ({ c with selectedIndex := some idx } : Composer).populateProperties env = c' at hpopulated
    have hdrag : ∀ d, ({ c' with dragData := d } : Composer).Inv env := fun _ =>
      ⟨hpopulated.widgets, hpopulated.background, hpopulated.files⟩
    split
    · exact hpopulated
    · split
      · split <;> exact hdrag _
      · exact hpopulated

theorem Composer.Inv.onCanvasDrag {c : Composer} (h : c.Inv env) (x y : ℤ) : (c.onCanvasDrag env x y).Inv env := by
  unfold Composer.onCanvasDrag
  split
  · exact h
  split
  · exact h
  next el hel =>
  obtain ⟨e, he, rfl⟩ := h.widgets.get hel
  split
  · split
    · split
      · simp only [setItem_x, setItem_y]
        exact h.populate (h.widgets.set _ (he.moved _ _)) _
      · rw [setItem_x]
        exact ⟨h.widgets.set _ (by cases e <;> exact he), h.background, h.files⟩
      · exact h
    · exact h
  · exact h

theorem Composer.Inv.onRightClick {c : Composer} (h : c.Inv env) (idx : Option ℕ) (filePath : Text) :
    (c.onRightClick env idx filePath).Inv env := by
  unfold Composer.onRightClick
  cases idx with
  | none => exact h
  | some idx =>
    simp only []
    split
    · exact h
    · next el hel =>
      split
      · next himage =>
        obtain ⟨e, he, rfl⟩ := h.widgets.get hel
        obtain ⟨path, x, y, rfl⟩ := image_of_isType himage.1
        exact h.populate (h.widgets.set idx (e := .image filePath x y) trivial) _
      · exact h

theorem Composer.Inv.pick {c : Composer} (h : c.Inv env) (idx lvl : ℕ) (f : Text) :
    (c.pick idx lvl f).Inv env := by
  unfold Composer.pick
  split
  · exact h
  · next el hel =>
    split
    · next hicon =>
      obtain ⟨e, he, rfl⟩ := h.widgets.get hel
      obtain ⟨name, x, y, simVal, images, rfl⟩ := iconSet_of_isType hicon.1
      obtain ⟨images', himages⟩ := insertKey_images images (intText lvl) f
      have hkeys : (images'.map Prod.fst).Nodup := by
        have hnodup : ((insertKey (images.map fun kv => (kv.1, .str kv.2)) (intText lvl) (.str f)).map
            Prod.fst).Nodup := insertKey_keys (by rw [List.map_map]; exact he)
        rw [himages, List.map_map] at hnodup
        exact hnodup
      refine ⟨?_, h.background, h.files⟩
      have hset := h.widgets.set idx (e := .iconSet name x y simVal images') hkeys
      show Widgets (setAt c.elements idx (setItem (Element.iconSet name x y simVal images).widget
        "custom_images" (.obj (insertKey (images.map fun kv => (kv.1, .str kv.2)) (intText lvl) (.str f)))))
      rw [himages]
      exact hset
    · exact h

theorem Composer.Inv.loadBgImage {c : Composer} (h : c.Inv env) (f : Text) : (c.loadBgImage f).Inv env := by
  unfold Composer.loadBgImage
  split
  exacts [h, ⟨h.widgets, ⟨some f, rfl⟩, h.files⟩]

theorem Composer.Inv.exportJson {c : Composer} (h : c.Inv env) (f : Text) : (c.exportJson env f).Inv env := by
  unfold Composer.exportJson
  split
  · exact h
  · refine ⟨h.widgets, h.background, fun f' text htext => ?_⟩
    change Function.update c.files f (some (dumps env.floatRepr c.layout)) f' = some text at htext
    by_cases hf : f' = f
    · subst hf
      obtain ⟨es, hsound, hes⟩ := h.widgets
      obtain ⟨bg, hbg⟩ := h.background
      rw [Function.update_self, layout_eq hbg hes] at htext
      obtain rfl := Option.some.inj htext
      exact Or.inl ⟨bg, es, hsound, loads_layout env bg hsound⟩
    · rw [Function.update_of_ne hf] at htext
      exact h.files f' text htext

theorem Composer.Inv.importJson {c : Composer} (h : c.Inv env) (f : Text) : (c.importJson env f).Inv env := by
  cases hfile : c.files f with
  | none =>
    have hsame : c.importJson env f = c := by
      unfold Composer.importJson
      rw [hfile]
      rfl
    rwa [hsame]
  | some text =>
    rcases h.files f text hfile with ⟨bg, es, hes, htext⟩ | hnot
    · rw [importJson_eq hfile htext]
      exact h.restored bg hes
    · rwa [importJson_of_not_obj hfile hnot]

theorem Composer.Inv.handle {c : Composer} (h : c.Inv env) (event : Event) : (c.handle env event).Inv env := by
  cases event with
  | addWidget wType => exact h.addWidget wType
  | deleteItem => exact h.deleteItem
  | typed vars => exact ⟨h.widgets, h.background, h.files⟩
  | anchor anchor => exact Composer.Inv.update ⟨h.widgets, h.background, h.files⟩
  | update => exact h.update
  | click idx x y => exact h.onCanvasClick idx x y
  | drag x y => exact h.onCanvasDrag x y
  | rightClick idx filePath => exact h.onRightClick idx filePath
  | pick idx lvl f => exact h.pick idx lvl f
  | loadBg f => exact h.loadBgImage f
  | exportJson f => exact h.exportJson f
  | importJson f => exact h.importJson f
  | restart => exact .init h.files

theorem session_append (disk : Text → Option Text) (events events' : List Event) :
    session env disk (events ++ events') = events'.foldl (Composer.handle env) (session env disk events) :=
  List.foldl_append

theorem session_inv {disk : Text → Option Text} (hdisk : Layouts env disk) (events : List Event) :
    (session env disk events).Inv env := by
  induction events using List.reverseRecOn with
  | nil => exact .init hdisk
  | append_singleton events event ih =>
    rw [session_append]
    exact ih.handle event

theorem addWidget_files (c : Composer) (wType : WidgetType) : (c.addWidget env wType).files = c.files := by
  unfold Composer.addWidget
  split
  · exact populateProperties_files _
  · rfl

theorem deleteItem_files (c : Composer) : c.deleteItem.files = c.files := by
  unfold Composer.deleteItem
  split
  · split <;> rfl
  · rfl

theorem onCanvasClick_files (c : Composer) (idx : Option ℕ) (x y : ℤ) :
    (c.onCanvasClick env idx x y).files = c.files := by
  unfold Composer.onCanvasClick
  cases idx with
  | none => rfl
  | some idx =>
    simp only []
    split
    · exact populateProperties_files _
    · split
      · split <;> exact populateProperties_files _
      · exact populateProperties_files _

theorem onCanvasDrag_files (c : Composer) (x y : ℤ) : (c.onCanvasDrag env x y).files = c.files := by
  unfold Composer.onCanvasDrag
  split
  · rfl
  split
  · rfl
  split
  · split
    · split
      · exact populateProperties_files _
      · rfl
      · rfl
    · rfl
  · rfl

theorem onRightClick_files (c : Composer) (idx : Option ℕ) (filePath : Text) :
    (c.onRightClick env idx filePath).files = c.files := by
  unfold Composer.onRightClick
  cases idx with
  | none => rfl
  | some idx =>
    simp only []
    split
    · rfl
    · split
      · exact populateProperties_files _
      · rfl

theorem pick_files (c : Composer) (idx lvl : ℕ) (f : Text) : (c.pick idx lvl f).files = c.files := by
  unfold Composer.pick
  split
  · rfl
  · split
    · split <;> rfl
    · rfl

theorem loadBgImage_files (c : Composer) (f : Text) : (c.loadBgImage f).files = c.files := by
  unfold Composer.loadBgImage
  split <;> rfl

theorem importBackground_files (c : Composer) (data : Widget) :
    (c.importBackground env data).1.files = c.files := by
  unfold Composer.importBackground
  simp only []
  split
  · split <;> rfl
  · rfl

theorem importJson_files (c : Composer) (f : Text) : (c.importJson env f).files = c.files := by
  unfold Composer.importJson
  split
  · next data _ =>
    have hbackground : (c.importBackground env data).1.files = c.files := importBackground_files c data
    generalize c.importBackground env data = r at hbackground
    obtain ⟨c', goes⟩ := r
    simp only []
    split
    · split <;> exact hbackground
    · exact hbackground
  · rfl

/-- Only an export writes. -/
theorem handle_files (c : Composer) {event : Event} (h : ∀ f, event ≠ .exportJson f) :
    (c.handle env event).files = c.files := by
  cases event with
  | addWidget wType => exact addWidget_files c wType
  | deleteItem => exact deleteItem_files c
  | typed vars => rfl
  | anchor anchor => exact updateFromProperties_files _
  | update => exact updateFromProperties_files _
  | click idx x y => exact onCanvasClick_files c idx x y
  | drag x y => exact onCanvasDrag_files c x y
  | rightClick idx filePath => exact onRightClick_files c idx filePath
  | pick idx lvl f => exact pick_files c idx lvl f
  | loadBg f => exact loadBgImage_files c f
  | exportJson f => exact absurd rfl (h f)
  | importJson f => exact importJson_files c f
  | restart => rfl

/-- What an event writes. -/
def written (env : Env) (c : Composer) : Event → Option (Text × Text)
  | .exportJson f => if f = [] then none else some (f, dumps env.floatRepr c.layout)
  | _ => none

theorem handle_writes : Writes (Composer.handle env) Composer.files (written env) := by
  intro c event
  cases event with
  | exportJson f =>
    by_cases hf : f = []
    · simp [written, Composer.handle, Composer.exportJson, hf]
    · simp [written, Composer.handle, Composer.exportJson, hf]
  | _ => exact handle_files _ fun f h => by cases h

theorem written_eq_some {c : Composer} {event : Event} {f text : Text} :
    written env c event = some (f, text) ↔
      event = .exportJson f ∧ f ≠ [] ∧ text = dumps env.floatRepr c.layout := by
  constructor
  · intro h
    cases event with
    | exportJson f' =>
      by_cases hne : f' = []
      · have hnone : written env c (.exportJson f') = none := if_pos hne
        rw [hnone] at h
        cases h
      · have hsome : written env c (.exportJson f') = some (f', dumps env.floatRepr c.layout) := if_neg hne
        rw [hsome] at h
        cases h
        exact ⟨rfl, hne, rfl⟩
    | _ => cases h
  · rintro ⟨rfl, hne, rfl⟩
    exact if_neg hne

variable (env) in
/-- A file that was exported is what the composer held when it was last exported there. -/
theorem exported_at (disk : Text → Option Text) {events : List Event} {f : Text} (hf : f ≠ [])
    (h : .exportJson f ∈ events) :
    ∃ pre post, events = pre ++ .exportJson f :: post ∧ .exportJson f ∉ post ∧
      (session env disk events).files f = some (dumps env.floatRepr (session env disk pre).layout) := by
  obtain ⟨post, pre, hreverse, hpost⟩ := List.eq_append_cons_of_mem (List.mem_reverse.mpr h)
  have hevents : events = pre.reverse ++ .exportJson f :: post.reverse := by
    rw [← List.reverse_reverse events, hreverse]
    simp
  rw [← List.mem_reverse] at hpost
  refine ⟨pre.reverse, post.reverse, hevents, hpost, ?_⟩
  rw [hevents]
  refine handle_writes.foldl_of_eq (written_eq_some.mpr ⟨rfl, hf, rfl⟩) fun mid e' post' hsplit v' hwrite => ?_
  obtain ⟨rfl, -, -⟩ := written_eq_some.mp hwrite
  exact hpost (hsplit ▸ List.mem_append_right _ List.mem_cons_self)

/-! ## What the phone draws -/

mutual

/-- A value that `Json` holds: without `NaN`, infinities and halves of surrogate pairs. -/
def held : Value → Bool
  | .float (.finite _) => true
  | .float _ | .surrogates _ => false
  | .null | .bool _ | .int _ | .str _ => true
  | .arr xs => heldItems xs
  | .obj kvs => heldPairs kvs

def heldItems : List Value → Bool
  | [] => true
  | x :: xs => held x && heldItems xs

def heldPairs : List (Text × Value) → Bool
  | [] => true
  | kv :: kvs => heldPair kv && heldPairs kvs

def heldPair : Text × Value → Bool
  | (_, v) => held v

end

mutual

/-- A value of `json.load` that is held, on the phone. -/
def toJson : Value → Json
  | .null => .null
  | .bool b => .bool b
  | .int i => .int i
  | .float (.finite q) => .float q
  | .float _ | .surrogates _ => .null
  | .str s => .str s
  | .arr xs => .arr (toJsons xs)
  | .obj kvs => .obj (toPairs kvs)

def toJsons : List Value → List Json
  | [] => []
  | x :: xs => toJson x :: toJsons xs

def toPairs : List (Text × Value) → List (Text × Json)
  | [] => []
  | kv :: kvs => toPair kv :: toPairs kvs

def toPair : Text × Value → Text × Json
  | (key, v) => (key, toJson v)

end

/-- `load_layout`, of a file with values that are held. -/
def loadLayout (env : Env) (text : Text) : Option Json :=
  (loads env.floatOf text).bind fun v => if held v then some (toJson v) else none

theorem heldItems_of_forall {xs : List Value} (h : ∀ x ∈ xs, held x = true) : heldItems xs = true := by
  induction xs with
  | nil => rfl
  | cons x xs ih =>
    rw [List.forall_mem_cons] at h
    rw [heldItems, h.1, ih h.2, Bool.true_and]

theorem heldPairs_of_forall {kvs : List (Text × Value)} (h : ∀ kv ∈ kvs, held kv.2 = true) :
    heldPairs kvs = true := by
  induction kvs with
  | nil => rfl
  | cons kv kvs ih =>
    rw [List.forall_mem_cons] at h
    rw [heldPairs, heldPair, h.1, ih h.2, Bool.true_and]

theorem held_of_plain {v : Value} (h : Plain v) : held v = true := by
  induction h with
  | null | bool | int | str => rfl
  | arr _ ih => exact heldItems_of_forall ih
  | obj _ _ ih => exact heldPairs_of_forall ih

/-- What the phone draws for an element. -/
def Element.picture (ui : Ui) (clock : ℚ) : Element → List DrawOp
  | .text s fontSize anchor x y =>
    let s := if s = "12:00".toList then ui.strftime "%H:%M" ⌊clock⌋ else s
    let font : Font := if 20 ≤ fontSize then .xl else if 16 ≤ fontSize then .n else .s
    let w := (ui.getTextSize s font).1
    let left : ℤ := if "center_h".toList <:+: anchor then x - w / 2
      else if "right".toList <:+: anchor then x - w
      else x
    [.text left y s (some font) (.layout (.str "white".toList))]
  | .iconSet _ x y _ images =>
    let bars := (List.range 5).map fun (i : ℕ) =>
      fillBox (x + i * 5) (y + 15 - (i + 1) * 3) (x + i * 5 + 3) (y + 15) (if i ≤ 3 then "white" else "#333333")
    match images.find? (·.1 = "3".toList) with
    | none => bars
    | some (_, path) =>
      if path = [] then bars
      else match ui.getImage path with
        | some _ => [.paste path x y]
        | none => []
  | .container .. | .image .. => []

/-- What the phone draws for the background. -/
def background (ui : Ui) (bg : Option Text) : List DrawOp :=
  if ui.wallpaper then [.paste "wallpaper".toList 0 0]
  else
    match bg with
    | none => [fillBox 0 0 240 240 "black"]
    | some path =>
      if path = [] then [fillBox 0 0 240 240 "black"]
      else match ui.getImage path with
        | some _ => [.paste path 0 0]
        | none => []

theorem ok_bind {α β : Type} (a : α) (f : α → Except PyError β) : (Except.ok a >>= f) = f a := rfl

theorem renderElement_text {ui : Ui} (hink : ui.validInk (.str "white".toList) = true) (clock : ℚ)
    (s : Text) (fontSize : ℤ) (anchor : Text) (x y : ℤ) :
    renderTextElement ui clock (toJson (.obj (Element.text s fontSize anchor x y).widget)) =
      .ok ((Element.text s fontSize anchor x y).picture ui clock) := by
  generalize hel : toJson (.obj (Element.text s fontSize anchor x y).widget) = el
  have htext : el.item "text" = .ok (.str s) := by rw [← hel]; rfl
  have hsize : el.item "font_size" = .ok (.int fontSize) := by rw [← hel]; rfl
  have hanchor : el.item "anchor" = .ok (.str anchor) := by rw [← hel]; rfl
  have hx : el.item "x" = .ok (.int x) := by rw [← hel]; rfl
  have hy : el.item "y" = .ok (.int y) := by rw [← hel]; rfl
  have hcolor : el.item "color" = .ok (.str "white".toList) := by rw [← hel]; rfl
  have hshown : (if (Json.str s).isStr "12:00" then Json.str (ui.strftime "%H:%M" ⌊clock⌋) else .str s) =
      .str (if s = "12:00".toList then ui.strftime "%H:%M" ⌊clock⌋ else s) := by
    unfold Json.isStr
    by_cases h : s = "12:00".toList
    · rw [if_pos h, if_pos (decide_eq_true h)]
    · rw [if_neg h, if_neg (by simpa using h)]
  have hcenter : (Json.str anchor).contains "center_h" = .ok (decide ("center_h".toList <:+: anchor)) := rfl
  have hright : (Json.str anchor).contains "right" = .ok (decide ("right".toList <:+: anchor)) := rfl
  have hlarge : (20 : ℚ) ≤ fontSize ↔ 20 ≤ fontSize := by exact_mod_cast Iff.rfl
  have hnormal : (16 : ℚ) ≤ fontSize ↔ 16 ≤ fontSize := by exact_mod_cast Iff.rfl
  unfold renderTextElement Element.picture
  simp only [htext, ok_bind, hshown, hsize, hanchor, hx, hy, hcolor, hcenter, hright, Json.number, hink, if_true,
    decide_eq_true_eq, hlarge, hnormal]
  by_cases hc : "center_h".toList <:+: anchor
  · simp only [hc, if_true, pure_bind, Int.cast_sub]
    rfl
  · by_cases hr : "right".toList <:+: anchor
    · simp only [hc, hr, if_true, if_false, pure_bind, Int.cast_sub]
      rfl
    · simp only [hc, hr, if_false]
      rfl

/-- The image for a level. -/
theorem lookup_images (images : List (Text × Text)) (level : String) :
    Json.lookup (toPairs (images.map fun kv => (kv.1, .str kv.2))) level =
      (images.find? (·.1 = level.toList)).map fun kv => .str kv.2 := by
  unfold Json.lookup
  induction images with
  | nil => rfl
  | cons kv images ih =>
    rw [List.map_cons, toPairs, toPair, toJson, List.find?_cons, List.find?_cons]
    by_cases hkv : kv.1 = level.toList
    · rw [decide_eq_true hkv]
      rfl
    · rw [decide_eq_false hkv]
      exact ih

/-- The bars of an icon set without an image. -/
theorem bars_eq (x y : ℤ) (level : ℕ) :
    ((List.range level).map fun (i : ℕ) => (i : ℚ)).mapM (m := Except PyError) (fun i => do
      let left ← (Json.int x).number
      let top ← (Json.int y).number
      pure (fillBox (left + i * 5) (top + 15 - (i + 1) * 3) (left + i * 5 + 3) (top + 15)
        (if i ≤ 3 then "white" else "#333333"))) =
    .ok ((List.range level).map fun (i : ℕ) =>
      fillBox (x + i * 5) (y + 15 - (i + 1) * 3) (x + i * 5 + 3) (y + 15)
        (if i ≤ 3 then "white" else "#333333")) := by
  have hloop : ((List.range level).map fun (i : ℕ) => (i : ℚ)).mapM (m := Except PyError) (fun i => do
      let left ← (Json.int x).number
      let top ← (Json.int y).number
      pure (fillBox (left + i * 5) (top + 15 - (i + 1) * 3) (left + i * 5 + 3) (top + 15)
        (if i ≤ 3 then "white" else "#333333"))) =
      .ok (((List.range level).map fun (i : ℕ) => (i : ℚ)).map fun i =>
        fillBox (x + i * 5) (y + 15 - (i + 1) * 3) (x + i * 5 + 3) (y + 15)
          (if i ≤ 3 then "white" else "#333333")) :=
    mapM_eq_ok_map fun _ _ => rfl
  refine hloop.trans (congrArg Except.ok ?_)
  rw [List.map_map]
  refine List.map_congr_left fun i _ => ?_
  have hlevel : ((i : ℚ) ≤ 3) ↔ i ≤ 3 := by exact_mod_cast Iff.rfl
  simp only [Function.comp_apply, hlevel]

theorem renderElement_iconSet (ui : Ui) (name : Text) (x y simVal : ℤ) (images : List (Text × Text)) (clock : ℚ) :
    renderIconSet ui (toJson (.obj (Element.iconSet name x y simVal images).widget)) =
      .ok ((Element.iconSet name x y simVal images).picture ui clock) := by
  generalize hel : toJson (.obj (Element.iconSet name x y simVal images).widget) = el
  have himages : el.get "custom_images" (.obj []) =
      .ok (.obj (toPairs (images.map fun kv => (kv.1, .str kv.2)))) := by rw [← hel]; rfl
  have hcount : el.item "count" = .ok (.int 5) := by rw [← hel]; rfl
  have hx : el.item "x" = .ok (.int x) := by rw [← hel]; rfl
  have hy : el.item "y" = .ok (.int y) := by rw [← hel]; rfl
  have hpath : Json.get (.obj (toPairs (images.map fun kv => (kv.1, .str kv.2)))) "3" .null =
      .ok (((images.find? (·.1 = "3".toList)).map fun kv => .str kv.2).getD .null) := by
    rw [← lookup_images]
    rfl
  unfold renderIconSet Element.picture
  simp only [himages, ok_bind, hpath, hcount, hx, hy, Json.integer]
  have hrange : (do let a ← List.range (5 : ℤ).toNat; pure (a : ℚ) : List ℚ) =
      (List.range 5).map fun (i : ℕ) => (i : ℚ) := rfl
  rw [hrange, bars_eq]
  cases images.find? (·.1 = "3".toList) with
  | none => rfl
  | some kv =>
    simp only [Option.map_some, Option.getD_some, Json.truthy, getLayoutImage]
    by_cases hempty : kv.2 = []
    · simp [hempty]
    · simp only [hempty, ne_eq, not_false_eq_true, decide_true, if_true, if_false, ok_bind]
      cases ui.getImage kv.2 with
      | none => rfl
      | some size => rfl

theorem renderElement_widget {ui : Ui} (hink : ui.validInk (.str "white".toList) = true) (clock : ℚ) (e : Element) :
    renderElement ui clock (toJson (.obj e.widget)) = .ok (e.picture ui clock) := by
  cases e with
  | text s fontSize anchor x y => exact renderElement_text hink clock s fontSize anchor x y
  | iconSet name x y simVal images => exact renderElement_iconSet ui name x y simVal images clock
  | container x y => rfl
  | image path x y => rfl

theorem toJsons_eq (xs : List Value) : toJsons xs = xs.map toJson := by
  induction xs with
  | nil => rfl
  | cons x xs ih => rw [toJsons, ih, List.map_cons]

/-- The background of a layout. -/
theorem renderBackground_layoutOf {ui : Ui} {layout : Json} (hlayout : ui.homeLayout = some layout)
    (htruthy : layout.truthy = true) {bg : Option Text}
    (hbg : layout.get "background" .null = .ok (toJson (bgValue bg))) :
    renderBackground ui = .ok (background ui bg) := by
  unfold renderBackground background
  by_cases hwallpaper : ui.wallpaper = true
  · rw [if_pos hwallpaper, if_pos hwallpaper]
  rw [if_neg hwallpaper, if_neg hwallpaper, hlayout]
  simp only [htruthy, if_true, hbg, ok_bind]
  cases bg with
  | none => rfl
  | some path =>
    simp only [bgValue, toJson, Json.truthy, getLayoutImage]
    by_cases hempty : path = []
    · simp only [hempty, ne_eq, not_true_eq_false, decide_false]
      rfl
    · simp only [hempty, ne_eq, not_false_eq_true, decide_true, if_true, if_false, ok_bind]
      cases ui.getImage path with
      | none => rfl
      | some size => rfl

theorem mapM_renderElement {ui : Ui} (hink : ui.validInk (.str "white".toList) = true) (clock : ℚ)
    (es : List Element) : (es.map fun e => toJson (.obj e.widget)).mapM (renderElement ui clock) =
      .ok (es.map (Element.picture ui clock)) := by
  induction es with
  | nil => rfl
  | cons e es ih =>
    rw [List.map_cons, List.mapM_cons, renderElement_widget hink clock e, ok_bind, ih]
    rfl

/-- A layout of elements, drawn as the home screen. -/
theorem renderHome_layoutOf {ui : Ui} (hink : ui.validInk (.str "white".toList) = true) (clock : ℚ)
    (bg : Option Text) (es : List Element) (hlayout : ui.homeLayout = some (toJson (layoutOf bg es))) :
    renderHome ui clock = .ok (background ui bg ++ es.flatMap (Element.picture ui clock)) := by
  generalize hj : toJson (layoutOf bg es) = layout at hlayout
  have htruthy : layout.truthy = true := by rw [← hj]; rfl
  have hbg : layout.get "background" .null = .ok (toJson (bgValue bg)) := by rw [← hj]; rfl
  have hitem : layout.item "elements" = .ok (.arr (es.map fun e => toJson (.obj e.widget))) := by
    rw [← hj, ← Function.comp_def, ← List.map_map, ← toJsons_eq]
    rfl
  have hdrawn := mapM_renderElement hink clock es
  unfold renderHome
  rw [renderBackground_layoutOf hlayout htruthy hbg, hlayout]
  simp only [ok_bind, htruthy, if_true, hitem, Json.elements, hdrawn]
  rw [List.flatMap_def]
  rfl

/-- A text that is an integer to its end. -/
def wholeInt (s : Text) : Option ℤ :=
  match scanNumber (fun _ => .finite 0) s with
  | some (.int i, []) => some i
  | _ => none

/-- Tcl's variables as texts, and a disk without images. -/
def plainEnv : Env where
  getInt := wholeInt
  ofValue
    | .int i => intText i
    | .str s => s
    | _ => []
  pathExists _ := false
  valueExists _ := some false
  imageOpens _ := false
  valueOpens _ := false
  floatRepr _ := []
  floatOf _ := .finite 0

/-- A text, and bars with an image for a level. -/
def homeElements : List Element :=
  [.text "No Service".toList 12 "center_h".toList 120 71, .iconSet "sig".toList 7 30 4 [(['3'], "/p.png".toList)]]

theorem homeElements_sound : ∀ e ∈ homeElements, e.Sound := by
  simp [homeElements, Element.Sound]

/-- A disk with a layout, and a file that is none. -/
def homeDisk : Text → Option Text
  | ['h'] => some (dumps plainEnv.floatRepr (layoutOf none homeElements))
  | ['n'] => some ['[']
  | _ => none

theorem homeDisk_layouts : Layouts plainEnv homeDisk := by
  intro f text htext
  unfold homeDisk at htext
  split at htext
  · obtain rfl := Option.some.inj htext
    exact Or.inl ⟨none, homeElements, homeElements_sound, loads_layout plainEnv none homeElements_sound⟩
  · obtain rfl := Option.some.inj htext
    exact Or.inr fun data hdata => by cases hdata
  · cases htext

/-- The layout is imported, gets a clock and is exported; then the clock is deleted. -/
def clockSession : List Event := [.importJson ['h'], .addWidget .CLOCK, .exportJson ['a'], .deleteItem]

theorem session_imported : session plainEnv homeDisk [.importJson ['h']] =
    (Composer.init homeDisk).restored plainEnv none homeElements := by
  have hfile : (Composer.init homeDisk).files ['h'] =
      some (dumps plainEnv.floatRepr (layoutOf none homeElements)) := by
    unfold Composer.init homeDisk
    simp only []
  unfold session
  rw [List.foldl_cons, List.foldl_nil, Composer.handle]
  exact importJson_eq hfile (loads_layout plainEnv none homeElements_sound)

theorem clockSession_split {pre post : List Event} (h : clockSession = pre ++ .exportJson ['a'] :: post) :
    pre = [.importJson ['h'], .addWidget .CLOCK] := by
  unfold clockSession at h
  rcases pre with _ | ⟨a, _ | ⟨b, _ | ⟨c, _ | ⟨d, pre⟩⟩⟩⟩ <;> simp_all

/-- The path that is shown of an element. -/
def Element.shownPath : Element → Text
  | .image path _ _ => path
  | _ => []

/-- An element, given a path. -/
def Element.withPath (path : Text) : Element → Element
  | .image _ x y => .image path x y
  | e => e

theorem shown_path (htcl : env.Tcl) (e : Element) : shown env e.widget "path" = e.shownPath := by
  unfold shown
  cases e with
  | image path x y => exact htcl.str path
  | text s fontSize anchor x y => exact htcl.str []
  | iconSet name x y simVal images => exact htcl.str []
  | container x y => exact htcl.str []

/-- Filling the panel writes back what it shows, but for the path. -/
theorem updated_shown (htcl : env.Tcl) (e : Element) (path : Text) :
    e.updated env ⟨shown env e.widget "x", shown env e.widget "y", shown env e.widget "text",
      shown env e.widget "font_size", shown env e.widget "anchor", path⟩ = e.withPath path := by
  have hx : ∃ x, env.getInt (shown env e.widget "x") = some x ∧ e.withX x = e := by
    cases e <;> exact ⟨_, htcl.int _, rfl⟩
  have hy : ∃ y, env.getInt (shown env e.widget "y") = some y ∧ e.withY y = e := by
    cases e <;> exact ⟨_, htcl.int _, rfl⟩
  obtain ⟨x, hx, hxe⟩ := hx
  obtain ⟨y, hy, hye⟩ := hy
  unfold Element.updated
  simp only [hx, hy, hxe, hye]
  cases e with
  | text s fontSize anchor x y =>
    have hs : shown env (Element.text s fontSize anchor x y).widget "text" = s := htcl.str s
    have hanchor : shown env (Element.text s fontSize anchor x y).widget "anchor" = anchor := htcl.str anchor
    have hsize : env.getInt (shown env (Element.text s fontSize anchor x y).widget "font_size") =
        some fontSize := htcl.int fontSize
    unfold Element.withTexts
    simp only [hs, hanchor, hsize, Option.getD_some]
    rfl
  | iconSet name x y simVal images => rfl
  | container x y => rfl
  | image path x y => rfl

theorem itemAt_setAt {elements : Value} {i : ℕ} {el : Widget} (h : itemAt elements i = some el) (el' : Widget) :
    itemAt (setAt elements i el') i = some el' := by
  unfold itemAt setAt at *
  split at h
  · next xs =>
    cases hget : xs[i]? with
    | none =>
      rw [hget] at h
      cases h
    | some v =>
      have hset : (xs.set i (.obj el'))[i]? = some (.obj el') :=
        List.getElem?_set_self (List.getElem?_eq_some_iff.mp hget).1
      rw [hset]
  · cases h

theorem itemAt_setAt_ne (elements : Value) {i j : ℕ} (h : i ≠ j) (el : Widget) :
    itemAt (setAt elements i el) j = itemAt elements j := by
  unfold itemAt setAt
  cases elements with
  | arr xs => simp only [List.getElem?_set_ne h]
  | _ => rfl

theorem setAt_eq_iff {elements : Value} {i : ℕ} {el : Widget} (h : itemAt elements i = some el) (el' : Widget) :
    setAt elements i el' = elements ↔ el' = el := by
  constructor
  · intro heq
    have hitem := itemAt_setAt h el'
    rw [heq, h] at hitem
    exact (Option.some.inj hitem).symm
  · rintro rfl
    unfold itemAt setAt at *
    split at h
    · next xs =>
      split at h
      · next el hget =>
        obtain rfl := Option.some.inj h
        obtain ⟨hlt, hval⟩ := List.getElem?_eq_some_iff.mp hget
        refine congrArg Value.arr ?_
        rw [← hval, List.set_getElem_self hlt]
      · cases h
    · cases h

theorem hasType_widget (e : Element) : hasType e.widget = true := by
  cases e <;> rfl

/-- What a click on an element does to the elements and to the path in the panel. -/
theorem onCanvasClick_eq (htcl : env.Tcl) {c : Composer} {i : ℕ} {e : Element}
    (he : itemAt c.elements i = some e.widget) (x y : ℤ) :
    (c.onCanvasClick env (some i) x y).elements = setAt c.elements i (e.withPath c.propVars.path).widget ∧
    (c.onCanvasClick env (some i) x y).propVars.path = (e.withPath c.propVars.path).shownPath := by
  have hpopulated : ({ c with selectedIndex := some i }.populateProperties env).elements =
        setAt c.elements i (e.withPath c.propVars.path).widget ∧
      ({ c with selectedIndex := some i }.populateProperties env).propVars.path =
        (e.withPath c.propVars.path).shownPath := by
    unfold Composer.populateProperties
    simp only [he, hasType_widget, if_true, updateElement_widget, updated_shown htcl, shown_path htcl, and_self]
  unfold Composer.onCanvasClick
  simp only []
  split
  · exact hpopulated
  · split
    · split <;> exact hpopulated
    · exact hpopulated

theorem withPath_eq_iff (e : Element) (path : Text) :
    (e.withPath path).widget = e.widget ↔ ∀ path' a b, e = .image path' a b → path' = path := by
  cases e with
  | image path' x y =>
    constructor
    · intro h path'' a b heq
      cases heq
      unfold Element.withPath Element.widget at h
      injection h with _ h
      injection h with h _
      injection h with _ h
      injection h with h
      exact h.symm
    · intro h
      rw [h path' x y rfl]
      rfl
  | text s fontSize anchor x y => exact ⟨fun _ _ _ _ h => (Element.noConfusion h), fun _ => rfl⟩
  | iconSet name x y simVal images => exact ⟨fun _ _ _ _ h => (Element.noConfusion h), fun _ => rfl⟩
  | container x y => exact ⟨fun _ _ _ _ h => (Element.noConfusion h), fun _ => rfl⟩

/-- **When selecting is harmless**: an element is left as it is, unless it is an image with another path than
the panel has.  An image that is selected after an element has its path, and none if that is no image. -/
theorem click_harmless_iff (env : Env) (htcl : env.Tcl) (disk : Text → Option Text) (hdisk : Layouts env disk)
    (events : List Event) (i : ℕ) (el : Widget) (hel : itemAt (session env disk events).elements i = some el)
    (x y : ℤ) :
    ∃ e : Element, el = e.widget ∧
      let c := session env disk events
      let c' := c.onCanvasClick env (some i) x y
      (c'.elements = c.elements ↔ ∀ path a b, e = .image path a b → path = c.propVars.path) ∧
      ∀ (j : ℕ) (path : Text) (a b x' y' : ℤ), j ≠ i →
        itemAt c.elements j = some (Element.image path a b).widget →
        itemAt (c'.onCanvasClick env (some j) x' y').elements j =
          some (Element.image (e.withPath c.propVars.path).shownPath a b).widget := by
  obtain ⟨e, -, rfl⟩ := (session_inv hdisk events).widgets.get hel
  refine ⟨e, rfl, ?_⟩
  intro c c'
  obtain ⟨helements, hpath⟩ := onCanvasClick_eq htcl hel x y
  constructor
  · rw [helements, ← withPath_eq_iff]
    exact setAt_eq_iff hel _
  · intro j path a b x' y' hj hother
    have hother' : itemAt c'.elements j = some (Element.image path a b).widget := by
      rw [helements, itemAt_setAt_ne _ hj.symm]
      exact hother
    obtain ⟨helements', -⟩ := onCanvasClick_eq htcl hother' x' y'
    rw [helements', itemAt_setAt hother', hpath]
    rfl

theorem plainEnv_tcl : plainEnv.Tcl where
  int i := by
    have hscan : scanNumber (fun _ => .finite 0) (intText i ++ []) = some (.int i, []) :=
      scanNumber_intText _ i nofun
    rw [List.append_nil] at hscan
    show wholeInt (intText i) = some i
    rw [wholeInt, hscan]
  str _ := rfl

/-- An image that is given a path, on the layout of the disk, and selected after its text. -/
def imageSession : List Event :=
  [.importJson ['h'], .addWidget .MENU_ICON, .typed ⟨['1'], ['2'], [], ['0'], [], ['p']⟩, .update]

theorem click_harmless_iff_image :
    itemAt (((session plainEnv homeDisk imageSession).onCanvasClick plainEnv (some 0) 0 0).onCanvasClick plainEnv
      (some 2) 0 0).elements 2 = some (Element.image [] 1 2).widget := by
  have hsession : session plainEnv homeDisk imageSession =
      [.addWidget .MENU_ICON, .typed ⟨['1'], ['2'], [], ['0'], [], ['p']⟩, .update].foldl
        (Composer.handle plainEnv) (session plainEnv homeDisk [.importJson ['h']]) := by
    rw [← session_append]
    rfl
  rw [session_imported] at hsession
  have htext : itemAt (session plainEnv homeDisk imageSession).elements 0 =
      some (Element.text "No Service".toList 12 "center_h".toList 120 71).widget := by
    rw [hsession]
    rfl
  have himage : itemAt (session plainEnv homeDisk imageSession).elements 2 =
      some (Element.image ['p'] 1 2).widget := by
    rw [hsession]
    rfl
  obtain ⟨e, he, -, hnext⟩ := click_harmless_iff plainEnv plainEnv_tcl homeDisk homeDisk_layouts imageSession 0 _
    htext 0 0
  rw [hnext 2 ['p'] 1 2 0 0 (by decide) himage]
  cases e with
  | text => rfl
  | iconSet | container | image => cases he

end LayoutComposer

end NeoDCT
