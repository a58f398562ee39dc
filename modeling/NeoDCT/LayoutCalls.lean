import NeoDCT.CallScreen
import NeoDCT.Lib.Works

/-!
# Calls over any layout

The home screen (core/main.py) and the call screen (ui/Dialer/call_screen.py) draw from one layout, which
is whatever `json.load` read, or `None`.  Where the home screen can be drawn, the call screen can be drawn
and waits for its End key if the layout is a dictionary, and raises otherwise (`drawOps_works_iff`):
`render_home` asks whether there is a layout, `draw_call_screen` does not.
-/

namespace NeoDCT

open PyText Interactive

/-! ## Elements do not depend on the clock -/

/-- Whether a text can be drawn does not depend on what time it shows. -/
theorem works_renderTextElement {ui : Ui} {el : Json} {clock : ℚ}
    (h : Works (renderTextElement ui clock el)) (clock' : ℚ) :
    Works (renderTextElement ui clock' el) := by
  unfold renderTextElement at h ⊢
  rw [works_bind] at h ⊢
  obtain ⟨raw, hraw, h⟩ := h
  refine ⟨raw, hraw, ?_⟩
  cases hclock : raw.isStr "12:00" with
  | false =>
    rw [hclock] at h
    exact h
  | true =>
    rw [hclock] at h
    simp only [if_true, works_bind, works_ite, pure_bind, works_pure, works_throw] at h ⊢
    exact h

theorem works_renderElement {ui : Ui} {el : Json} {clock : ℚ} (h : Works (renderElement ui clock el))
    (clock' : ℚ) : Works (renderElement ui clock' el) := by
  unfold renderElement at h ⊢
  rw [works_bind] at h ⊢
  obtain ⟨type, htype, h⟩ := h
  refine ⟨type, htype, ?_⟩
  cases htext : type.isStr "text" with
  | true =>
    rw [htext] at h
    exact works_renderTextElement h clock'
  | false =>
    rw [htext] at h
    exact h

/-- An element that can be drawn is a dictionary. -/
theorem obj_of_works {ui : Ui} {el : Json} {clock : ℚ} (h : Works (renderElement ui clock el)) :
    ∃ kvs, el = .obj kvs := by
  obtain ⟨_, htype, -⟩ := (works_bind _ _).mp h
  cases el with
  | obj kvs => exact ⟨kvs, rfl⟩
  | _ => cases htype

/-! ## The two screens -/

/-- `j.get(key, default)` finds what `j[key]` finds. -/
theorem Json.get_of_item {j value : Json} {key : String} (h : j.item key = .ok value) (default : Json) :
    j.get key default = .ok value := by
  cases j with
  | obj kvs =>
    unfold Json.item at h
    unfold Json.get
    simp only [] at h ⊢
    cases hlookup : Json.lookup kvs key with
    | none =>
      rw [hlookup] at h
      cases h
    | some v =>
      rw [hlookup] at h
      exact h
  | _ => cases h

/-- The layout is a dictionary. -/
def HasLayout (ui : Ui) : Prop := ∃ kvs, ui.homeLayout = some (.obj kvs)

/-- The elements of a layout that the home screen draws. -/
theorem elements_of_works {ui : Ui} {kvs : List (Text × Json)} (hlayout : ui.homeLayout = some (.obj kvs))
    {clock : ℚ} (h : Works (renderHome ui clock)) : ∃ els, CallScreen.layoutElements ui = .ok els ∧
      ∀ el ∈ els, ∀ clock', Works (renderElement ui clock' el) := by
  unfold CallScreen.layoutElements
  rw [hlayout]
  obtain ⟨_, -, h⟩ := (works_bind _ _).mp h
  rw [hlayout] at h
  cases kvs with
  | nil => exact ⟨[], rfl, fun el hel => by cases hel⟩
  | cons kv kvs =>
    simp only [Json.truthy, List.isEmpty_cons, Bool.not_false, if_true] at h
    obtain ⟨value, hvalue, h⟩ := (works_bind _ _).mp h
    obtain ⟨els, hels, h⟩ := (works_bind _ _).mp h
    obtain ⟨drawn, hdrawn, -⟩ := (works_bind _ _).mp h
    refine ⟨els, ?_, fun el hel => works_renderElement ((works_mapM _ _).mp ⟨drawn, hdrawn⟩ el hel)⟩
    show (do (← Json.get (.obj (kv :: kvs)) "elements" (.arr [])).elements : Except PyError _) = _
    rw [Json.get_of_item hvalue]
    exact hels

namespace CallScreen

theorem works_isClock (kvs : List (Text × Json)) : Works (isClock (.obj kvs)) := by
  unfold isClock Json.get
  simp only [works_bind, works_ite, works_pure]
  refine ⟨_, rfl, ?_⟩
  split
  · exact ⟨_, rfl, trivial⟩
  · trivial

theorem works_isStatusIcon (kvs : List (Text × Json)) : Works (isStatusIcon (.obj kvs)) := by
  unfold isStatusIcon Json.get
  simp only [works_bind, works_ite, works_pure]
  refine ⟨_, rfl, ?_⟩
  split
  · exact ⟨_, rfl, trivial⟩
  · trivial

theorem works_clockOps {ui : Ui} {clock : ℚ} {els : List Json}
    (h : ∀ el ∈ els, Works (renderElement ui clock el)) : Works (clockOps ui clock els) := by
  induction els with
  | nil => exact ⟨[], rfl⟩
  | cons el els ih =>
    obtain ⟨hel, hels⟩ := List.forall_mem_cons.mp h
    obtain ⟨kvs, rfl⟩ := obj_of_works hel
    obtain ⟨found, hfound⟩ := works_isClock kvs
    rw [clockOps, works_bind]
    refine ⟨found, hfound, ?_⟩
    cases found with
    | true => exact hel
    | false => exact ih hels

theorem works_statusOps {ui : Ui} {clock : ℚ} {els : List Json}
    (h : ∀ el ∈ els, Works (renderElement ui clock el)) : Works (statusOps ui clock els) := by
  unfold statusOps
  rw [works_bind]
  have hops : Works (els.mapM fun el => do
      if ← isStatusIcon el then renderElement ui clock el else pure []) := by
    rw [works_mapM]
    intro el hel
    obtain ⟨kvs, rfl⟩ := obj_of_works (h el hel)
    obtain ⟨found, hfound⟩ := works_isStatusIcon kvs
    rw [works_bind]
    refine ⟨found, hfound, ?_⟩
    cases found with
    | true => exact h _ hel
    | false => exact ⟨[], rfl⟩
  obtain ⟨ops, hops⟩ := hops
  exact ⟨ops, hops, _, rfl⟩

/-- The call screen asks its layout for the elements. -/
theorem hasLayout_of_works {ui : Ui} {clock : ℚ} {number : PyVal} (h : Works (drawOps ui clock number)) :
    HasLayout ui := by
  obtain ⟨_, -, h⟩ := (works_bind _ _).mp h
  obtain ⟨_, hels, -⟩ := (works_bind _ _).mp h
  unfold layoutElements at hels
  obtain ⟨_, hget, -⟩ := (works_bind _ _).mp ⟨_, hels⟩
  cases hlayout : ui.homeLayout with
  | none =>
    rw [hlayout] at hget
    cases hget
  | some layout =>
    rw [hlayout] at hget
    cases layout with
    | obj kvs => exact ⟨kvs, hlayout⟩
    | _ => cases hget

theorem works_drawOps {ui : Ui} {clock : ℚ} (hhome : Works (renderHome ui clock)) (hlayout : HasLayout ui)
    (number : Text) (clock' : ℚ) : Works (drawOps ui clock' (.str number)) := by
  obtain ⟨kvs, hlayout⟩ := hlayout
  obtain ⟨els, hels, hdraw⟩ := elements_of_works hlayout hhome
  have hall : ∀ el ∈ els, Works (renderElement ui clock' el) := fun el hel => hdraw el hel clock'
  obtain ⟨clockPart, hclock⟩ := works_clockOps hall
  obtain ⟨statusPart, hstatus⟩ := works_statusOps hall
  refine (works_bind _ _).mpr ⟨number, rfl, ?_⟩
  refine (works_bind _ _).mpr ⟨els, hels, ?_⟩
  refine (works_bind _ _).mpr ⟨clockPart, hclock, ?_⟩
  exact (works_bind _ _).mpr ⟨statusPart, hstatus, _, rfl⟩

/-! ## Calls -/

theorem draw_waits {ui : Ui} {number : PyVal} (h : ∀ t, Works (drawOps ui t number)) (w : World) :
    wp (draw ui number) (fun _ _ => True) (fun _ _ => False) w := by
  refine wp_seq (now_spec w) (fun _ _ h => h) ?_
  rintro t _ ⟨-, rfl⟩
  obtain ⟨ops, hops⟩ := h t
  rw [hops]
  exact trivial

theorem refresh_waits {ui : Ui} {number : PyVal} (h : ∀ t, Works (drawOps ui t number)) (lastDraw : ℚ)
    (w : World) : wp (refresh ui number lastDraw) (fun _ _ => True) (fun _ _ => False) w := by
  refine wp_seq (now_spec w) (fun _ _ h => h) ?_
  rintro t _ ⟨-, rfl⟩
  split
  · refine wp_seq (draw_waits h _) (fun _ _ h => h) ?_
    intro _ w₁ _
    refine wp_seq (SoftKeyBar.update_spec ui _ _ _ w₁) (fun _ _ h => h) ?_
    intro _ w₂ _
    exact trivial
  · exact trivial

/-- **A call that can be drawn waits**: only its End key ends it. -/
theorem showCalling_waits {ui : Ui} {number : PyVal} (h : ∀ t, Works (drawOps ui t number)) (w : World) :
    wp (showCalling ui number) (fun _ _ => True) (fun h _ => h = .waiting) w := by
  refine wp_seq (flushInput_spec w) (fun _ _ h => h.1) ?_
  intro _ w₀ _
  refine wp_loop (fun _ _ => True) trivial ?_
  rintro lastDraw w₁ -
  refine wp_seq (wp_and (refresh_spec ui number lastDraw w₁) (refresh_waits h lastDraw w₁))
    (fun _ _ h => h.2.elim) ?_
  rintro lastDraw' w₂ ⟨⟨_, -, hlog⟩, -⟩
  refine wp_seq (readKey_spec w₂) (fun _ _ h => h.1) ?_
  intro key w₃ hr
  have hlt : Input.remaining w₃ < Input.remaining w₁ := lt_of_lt_of_le hr.remaining hlog.input
  cases key with
  | none => exact ⟨trivial, hlt⟩
  | some key =>
    simp only []
    split
    · exact trivial
    · exact ⟨trivial, hlt⟩

/-- A second after the start, with nothing pressed. -/
def quietSecond : World := World.boot (initDatabases none none none) [⟨1, none⟩]

/-- A screen that cannot be drawn is due at once, and raises. -/
theorem refresh_raises {ui : Ui} {number : PyVal} {w : World} {e : PyError} (hdue : 1 / 4 ≤ w.io.clock)
    (h : drawOps ui w.io.clock number = .error e) :
    wp (refresh ui number 0) (fun _ _ => False) (fun h _ => h = .raised e) w := by
  refine wp_seq (now_spec w) (fun _ _ h => h) ?_
  rintro t w ⟨rfl, rfl⟩
  rw [if_pos (by rwa [sub_zero])]
  refine wp_seq (R := fun _ _ => False) ?_ (fun _ _ h => h) fun _ _ h => h.elim
  refine wp_seq (now_spec w) (fun _ _ h => h) ?_
  rintro t w ⟨rfl, rfl⟩
  rw [h]
  exact rfl

theorem showCalling_raises {ui : Ui} {number : PyVal} {e : PyError} (h : drawOps ui 1 number = .error e) :
    raised? (showCalling ui number) quietSecond = some e := by
  have hflush : flushInput quietSecond =
      .ok () (quietSecond.withIo { quietSecond.io with input := [], clock := 1 }) := rfl
  have hwp : wp (showCalling ui number) (fun _ _ => False) (fun h _ => h = .raised e) quietSecond := by
    unfold showCalling
    rw [wp_bind]
    unfold wp
    rw [hflush]
    refine wp_loop (fun lastDraw w => lastDraw = 0 ∧ w.io.clock = 1) ⟨rfl, rfl⟩ ?_
    rintro _ w ⟨rfl, hclock⟩
    refine wp_seq (refresh_raises ?_ ?_) (fun _ _ h => h) fun _ _ h => h.elim
    · rw [hclock]
      norm_num
    · rw [hclock]
      exact h
  rcases wp_cases hwp with ⟨_, -, -, hfalse⟩ | ⟨_, -, hraised, rfl⟩
  · exact hfalse.elim
  · exact hraised

/-- **Every call over a layout**: where the home screen can be drawn, the call screen can be drawn, and
the call waits to be ended, just when the layout is a dictionary. -/
theorem drawOps_works_iff (ui : Ui) (number : Text) {clock : ℚ} (hhome : Works (renderHome ui clock)) :
    (∀ clock', Works (drawOps ui clock' (.str number)) ↔ HasLayout ui) ∧
    ((∀ w, raised? (showCalling ui (.str number)) w = none) ↔ HasLayout ui) := by
  refine ⟨fun clock' => ⟨hasLayout_of_works, fun h => works_drawOps hhome h number clock'⟩, ?_, ?_⟩
  · intro hcalls
    cases hdraw : drawOps ui 1 (.str number) with
    | ok ops => exact hasLayout_of_works ⟨ops, hdraw⟩
    | error e =>
      have hraised := showCalling_raises hdraw
      rw [hcalls] at hraised
      cases hraised
  · intro hlayout w
    rcases wp_cases (showCalling_waits (works_drawOps hhome hlayout number) w) with
      ⟨_, -, hraised, -⟩ | ⟨_, -, hraised, rfl⟩
    · exact hraised
    · exact hraised

/-- A phone with a clock and a signal, of bars, on its home screen. -/
def statusUi : Ui :=
  { Ui.plain with
    homeLayout := some (.obj [("background".toList, .null), ("elements".toList, .arr [
      .obj [("type".toList, .str "text".toList), ("text".toList, .str "12:00".toList),
        ("font_size".toList, .int 8), ("anchor".toList, .str "right".toList), ("x".toList, .int 193),
        ("y".toList, .int 12), ("color".toList, .str "white".toList)],
      .obj [("type".toList, .str "icon_set".toList), ("count".toList, .int 5),
        ("prefix".toList, .str "sig".toList), ("x".toList, .int 7), ("y".toList, .int 30),
        ("sim_val".toList, .int 4), ("custom_images".toList, .obj [])]])]) }

theorem drawOps_works_iff_status : Works (drawOps statusUi 5 (.str "123".toList)) :=
  ((drawOps_works_iff statusUi "123".toList (⟨_, rfl⟩ : Works (renderHome statusUi 0))).1 5).mpr ⟨_, rfl⟩

/-- No layout file: the home screen says so, and the call raises. -/
theorem drawOps_not_works : ¬ ∀ (ui : Ui) (number : Text) (clock clock' : ℚ), Works (renderHome ui clock) →
    Works (drawOps ui clock' (.str number)) := by
  intro hall
  have h := hall { Ui.plain with homeLayout := none } "123".toList 0 0 ⟨_, rfl⟩
  obtain ⟨kvs, hlayout⟩ := hasLayout_of_works h
  cases hlayout

end CallScreen

end NeoDCT
