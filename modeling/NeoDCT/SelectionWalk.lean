import NeoDCT.Browser.Keys
import NeoDCT.Framework.Selection

/-!
# The walk of a selection

A widget is shown again and again, in any worlds, and every `show` reads keys (`Shown`).  Whatever the
keys were,

    VerticalList             selectedIndex = the walk of UP and DOWN, clamped to the ends of the list
    VerticalListWidget       has the same selectedIndex and windowStart
    AppSelector, PagedList   selectedIndex = (number of DOWN − number of UP) % len(items)

and what ENTER returns is what the screen shows as current (`selection_walk`).
-/

namespace NeoDCT

open PyText Interactive Browser

/-! ## A widget that is shown again and again -/

/-- The shows of a widget have read these keys so far, and left it so.  `run` is its `show`, and
`pressed w` are the keys it reads in `w`.  Any of them may close a show, so these are the widgets of
every moment. -/
inductive Shown {β : Type} (run : β → UI (Option Nat × β)) (pressed : World → List Nat) (b : β) :
    List Nat → β → Prop
  | new : Shown run pressed b [] b
  | again {keys ks : List Nat} {key : Nat} {b₁ b₂ : β} {r : Option Nat} {w : World} :
    Shown run pressed b keys b₁ → returned? (run b₁) w = some (r, b₂) →
    pressed w = ks ++ key :: presses (finalState (run b₁) w).io.input →
    Shown run pressed b (keys ++ ks ++ [key]) b₂

/-- When `show` returns on ENTER, it returns an index that the screen shows as current. -/
def EnterDrawn {β : Type} (run : β → UI (Option Nat × β)) (pressed : World → List Nat)
    (Current : β → Nat → World → Prop) (b : β) : Prop :=
  ∀ w r b' ks, returned? (run b) w = some (r, b') →
    pressed w = ks ++ 28 :: presses (finalState (run b) w).io.input →
    ∃ i, r = some i ∧ Current b' i (finalState (run b) w)

/-- A specification of what `run` returns. -/
theorem returned_of_wp {ε σ α : Type} {p : Prog ε σ α} {Q : α → σ → Prop} {E : Halt ε → σ → Prop}
    {s : σ} (h : wp p Q E s) {a : α} (ha : returned? p s = some a) : Q a (finalState p s) := by
  rcases wp_cases h with ⟨a', ha', -, hQ⟩ | ⟨e, hnone, -⟩
  · rw [ha] at ha'
    cases ha'
    exact hQ
  · rw [ha] at hnone
    cases hnone

/-- The keys that a `show` read are the ones before those it left. -/
theorem keys_unique {ks ks' rest : List Nat} {key key' : Nat} (h : ks ++ key :: rest = ks' ++ key' :: rest) :
    ks = ks' ∧ key = key' := by
  have h' : (ks ++ [key]) ++ rest = (ks' ++ [key']) ++ rest := by simpa using h
  have hsame : ks ++ [key] = ks' ++ [key'] := List.append_cancel_right h'
  obtain ⟨hks, hkey⟩ := List.append_inj' hsame rfl
  exact ⟨hks, by simpa using hkey⟩

/-! ## VerticalList -/

/-- One key of a walk over `n` items. -/
def walkKey (n i key : Nat) : Nat :=
  if key = 108 then min (i + 1) (n - 1) else if key = 103 then i - 1 else i

namespace VerticalList

/-- What UP and DOWN do. -/
def arrow (self : VerticalList) (key : Nat) : VerticalList :=
  if key = 108 then self.down else if key = 103 then self.up else self

theorem arrow_of_onKey {self b : VerticalList} {key : Nat} (h : self.onKey key = .inl b) :
    b = self.arrow key := by
  unfold onKey at h
  unfold arrow
  grind

theorem arrow_of_end {self : VerticalList} {key : Nat} {r : Option Nat} (h : self.onKey key = .inr r) :
    self.arrow key = self := by
  unfold onKey at h
  unfold arrow
  grind

theorem feed_arrow {self b : VerticalList} {keys : List Nat} (h : feed onKey self keys = .inl b) :
    b = keys.foldl arrow self := by
  induction keys generalizing self with
  | nil =>
    cases h
    rfl
  | cons key keys ih =>
    rw [feed] at h
    cases hk : self.onKey key with
    | inl b₁ =>
      rw [hk] at h
      rw [List.foldl_cons, ← arrow_of_onKey hk]
      exact ih h
    | inr r =>
      rw [hk] at h
      cases h

/-- The selection is in the window, and the window in the list. -/
structure Windowed (l : VerticalList) : Prop where
  lines : l.maxLines = 3
  start : l.windowStart ≤ l.selectedIndex
  stop : l.selectedIndex ≤ l.windowStart + 2
  selected : l.selectedIndex < l.items.length
  window : l.windowStart ≤ l.items.length - 3

theorem arrow_windowed {self : VerticalList} (h : self.Windowed) (key : Nat) :
    (self.arrow key).Windowed := by
  obtain ⟨hlines, hstart, hstop, hselected, hwindow⟩ := h
  unfold arrow
  split
  · unfold down
    split
    · simp only []
      split
      · constructor <;> simp only [] <;> omega
      · constructor <;> simp only [] <;> omega
    · exact ⟨hlines, hstart, hstop, hselected, hwindow⟩
  · split
    · unfold up
      split
      · simp only []
        split
        · constructor <;> simp only [] <;> omega
        · constructor <;> simp only [] <;> omega
      · exact ⟨hlines, hstart, hstop, hselected, hwindow⟩
    · exact ⟨hlines, hstart, hstop, hselected, hwindow⟩

theorem arrow_items (self : VerticalList) (key : Nat) : (self.arrow key).items = self.items := by
  unfold arrow down up
  grind

theorem arrow_index {self : VerticalList} (h : self.Windowed) (key : Nat) :
    (self.arrow key).selectedIndex = walkKey self.items.length self.selectedIndex key := by
  have hlt := h.selected
  unfold arrow walkKey
  split
  · unfold down
    split
    · simp only []
      split
      · show self.selectedIndex + 1 = _
        omega
      · show self.selectedIndex + 1 = _
        omega
    · omega
  · split
    · unfold up
      split
      · simp only []
        split
        · rfl
        · rfl
      · omega
    · rfl

/-! What is drawn as current is the row in black letters. -/

end VerticalList

/-- Text in black. -/
def DrawOp.isBlackText : DrawOp → Bool
  | .text _ _ _ _ (.named color) => color = "black"
  | _ => false

namespace VerticalList

/-- The drawing has one text in black: item `i`, in its row of the window. -/
def Highlights (ui : Ui) (self : VerticalList) (i : Nat) : Prop :=
  ∃ item, self.items[i]? = some item ∧ (self.drawOps ui).filter DrawOp.isBlackText =
    [drawText 10 (45 + ((i - self.windowStart : ℕ) : ℚ) * 55 + 10) item .n "black"]

theorem rowOps_black (self : VerticalList) (i : Nat) : (self.rowOps i).filter DrawOp.isBlackText =
    if self.windowStart + i = self.selectedIndex then
      (self.items[self.windowStart + i]?).toList.map fun item =>
        drawText 10 (45 + (i : ℚ) * 55 + 10) item .n "black"
    else [] := by
  unfold rowOps
  cases hitem : self.items[self.windowStart + i]? with
  | none => simp [hitem]
  | some item =>
    simp only [hitem]
    split
    · rfl
    · rfl

/-- The window shows one row as current. -/
theorem rows_black {self : VerticalList} (h : self.Windowed) {item : Text}
    (hitem : self.items[self.selectedIndex]? = some item) :
    ((List.range self.maxLines).flatMap self.rowOps).filter DrawOp.isBlackText =
      [drawText 10 (45 + ((self.selectedIndex - self.windowStart : ℕ) : ℚ) * 55 + 10) item .n
        "black"] := by
  obtain ⟨hlines, hstart, hstop, -, -⟩ := h
  obtain ⟨d, hd⟩ := Nat.exists_eq_add_of_le hstart
  have hle : d ≤ 2 := by omega
  rw [List.filter_flatMap, hlines]
  show [0, 1, 2].flatMap (fun i => (self.rowOps i).filter DrawOp.isBlackText) = _
  simp only [List.flatMap_cons, List.flatMap_nil, rowOps_black, hd, Nat.add_left_cancel_iff,
    Nat.add_sub_cancel_left]
  rw [hd] at hitem
  interval_cases d
  · simp only [hitem]
    simp
  · simp only [hitem]
    simp
  · simp only [hitem]
    simp

theorem highlights (ui : Ui) {self : VerticalList} (h : self.Windowed) :
    self.Highlights ui self.selectedIndex := by
  have hitem := List.getElem?_eq_getElem h.selected
  refine ⟨_, hitem, ?_⟩
  unfold drawOps
  simp only [List.filter_append, rows_black h hitem]
  rfl

/-! `show` keeps the screen up to date. -/

theorem draw_shown (ui : Ui) (self : VerticalList) (w : World) {E : Halt PyError → World → Prop} :
    wp (self.draw ui) (fun _ w' => Drawn w w' ∧ Shows (self.drawOps ui) w') E w := by
  have hdrawn : Drawn w (w.withIo { w.io with
      canvas := (self.drawOps ui).foldl Frame.draw w.io.canvas
      screen := (self.drawOps ui).foldl Frame.draw w.io.canvas }) := ⟨{ w.io with
    canvas := (self.drawOps ui).foldl Frame.draw w.io.canvas
    screen := (self.drawOps ui).foldl Frame.draw w.io.canvas }, rfl, rfl, rfl⟩
  exact ⟨hdrawn, w.io.canvas, rfl⟩

theorem showBody_shows (ui : Ui) {self : VerticalList} {w : World} (h : Shows (self.drawOps ui) w) :
    wp (showBody ui self)
      (fun r w' => Input.remaining w' < Input.remaining w ∧
        r.elim (fun b => Shows (b.drawOps ui) w') fun r => Shows (r.2.drawOps ui) w')
      (fun _ _ => True) w := by
  unfold showBody
  refine wp_seq (waitForKey_shows _ w ⟨_, rfl, h⟩) (fun _ _ _ => trivial) ?_
  rintro key w₁ ⟨hr, -, ops, hops, hs⟩
  cases hops
  have hlt := hr.remaining
  cases hk : self.onKey key with
  | inr r =>
    refine wp_seq (record_spec (self.closed r) w₁) (fun _ _ h => h) ?_
    rintro _ _ rfl
    exact ⟨hlt, hs⟩
  | inl b =>
    simp only []
    by_cases hd : key = 108 ∨ key = 103
    · rw [if_pos hd]
      refine wp_seq (draw_shown ui b w₁) (fun _ _ h => h) ?_
      rintro _ w₂ ⟨hdrawn, hs₂⟩
      exact ⟨(hr.trans_quiet hdrawn.quiet).remaining, hs₂⟩
    · rw [if_neg hd]
      have hsame : b = self := by
        rw [arrow_of_onKey hk]
        unfold arrow
        rw [if_neg fun h => hd (Or.inl h), if_neg fun h => hd (Or.inr h)]
      subst hsame
      exact ⟨hlt, hs⟩

theorem showModal_shows (ui : Ui) (self : VerticalList) (w : World) :
    wp (self.showModal ui) (fun r w' => Shows (r.2.drawOps ui) w') (fun _ _ => True) w := by
  refine wp_seq (draw_shown ui self w) (fun _ _ h => h) ?_
  rintro _ w₁ ⟨-, hs⟩
  refine wp_loop (fun b w => Shows (b.drawOps ui) w) hs ?_
  intro b w₂ hs
  refine wp_mono (showBody_shows ui hs) ?_ fun _ _ h => h
  rintro (b' | r) w₃ ⟨hlt, hs'⟩
  · exact ⟨hs', hlt⟩
  · exact hs'

/-- The keys that a `VerticalList` reads: it does not flush. -/
def pressed (w : World) : List Nat := presses w.io.input

/-- What a `show` leaves, and returns on ENTER. -/
theorem show_walk (ui : Ui) {self b : VerticalList} {w : World} {r : Option Nat} {ks : List Nat}
    {key : Nat} (hret : returned? (self.showModal ui) w = some (r, b))
    (hkeys : pressed w = ks ++ key :: presses (finalState (self.showModal ui) w).io.input) :
    b = (ks ++ [key]).foldl arrow self ∧ (key = 28 → r = some b.selectedIndex) ∧
      Shows (b.drawOps ui) (finalState (self.showModal ui) w) := by
  have hshows := returned_of_wp (showModal_shows ui self w) hret
  obtain ⟨⟨ks', key', hp, hfeed, hend⟩, -⟩ := returned_of_wp (showModal_spec ui self w) hret
  obtain ⟨rfl, rfl⟩ := keys_unique (hkeys.symm.trans hp)
  refine ⟨?_, ?_, hshows⟩
  · rw [List.foldl_append, ← feed_arrow hfeed]
    exact (arrow_of_end hend).symm
  · rintro rfl
    have h28 : b.onKey 28 = .inr (some b.selectedIndex) := rfl
    rw [h28] at hend
    cases hend
    rfl

/-- The list that `__init__` makes. -/
def new (title : Text) (items : List Text) (appId : Text) : VerticalList :=
  { title := title, items := items, appId := appId }

theorem new_windowed (title : Text) {items : List Text} (appId : Text) (hne : items ≠ []) :
    (new title items appId).Windowed := by
  constructor
  · rfl
  · exact Nat.le_refl 0
  · exact Nat.zero_le _
  · exact List.length_pos_of_ne_nil hne
  · exact Nat.zero_le _

end VerticalList

/-! ## The browser's widget -/

namespace Browser.VerticalListWidget

/-- `navigate`, on the keys for UP and DOWN. -/
def arrow (self : VerticalListWidget) (key : Nat) : VerticalListWidget :=
  if key = 108 then self.down else if key = 103 then self.up else self

end Browser.VerticalListWidget

namespace VerticalList

/-- The widget of the browser is at the same place. -/
structure InStep (l : VerticalList) (widget : VerticalListWidget) : Prop where
  items : l.items = widget.items
  maxLines : l.maxLines = widget.maxLines
  selectedIndex : l.selectedIndex = widget.selectedIndex
  windowStart : l.windowStart = widget.windowStart

theorem arrow_inStep {l : VerticalList} {widget : VerticalListWidget} (h : l.InStep widget)
    (key : Nat) : (l.arrow key).InStep (widget.arrow key) := by
  obtain ⟨hitems, hmax, hi, hstart⟩ := h
  unfold arrow VerticalListWidget.arrow
  split
  · unfold down
    rw [VerticalListWidget.down_eq, hitems, hmax, hi, hstart]
    split
    · simp only []
      split
      · exact ⟨rfl, rfl, rfl, rfl⟩
      · exact ⟨rfl, rfl, rfl, rfl⟩
    · exact ⟨hitems, hmax, hi, hstart⟩
  · split
    · unfold up
      rw [VerticalListWidget.up_eq, hi, hstart]
      split
      · simp only []
        split
        · exact ⟨hitems, hmax, rfl, rfl⟩
        · exact ⟨hitems, hmax, rfl, rfl⟩
      · exact ⟨hitems, hmax, hi, hstart⟩
    · exact ⟨hitems, hmax, hi, hstart⟩

/-- Where a walk over `items` has come to with these keys. -/
structure Walked (items : List Text) (keys : List Nat) (l : VerticalList) : Prop where
  items_eq : l.items = items
  windowed : l.Windowed
  walk : l.selectedIndex = keys.foldl (walkKey items.length) 0
  browser : l.InStep (keys.foldl VerticalListWidget.arrow (VerticalListWidget.init items))

theorem new_walked (title : Text) {items : List Text} (appId : Text) (hne : items ≠ [])
    (keys : List Nat) : Walked items keys (keys.foldl arrow (new title items appId)) := by
  induction keys using List.reverseRecOn with
  | nil => exact ⟨rfl, new_windowed title appId hne, rfl, rfl, rfl, rfl, rfl⟩
  | append_singleton keys key ih =>
    simp only [List.foldl_append, List.foldl_cons, List.foldl_nil]
    constructor
    · rw [arrow_items, ih.items_eq]
    · exact arrow_windowed ih.windowed key
    · rw [List.foldl_append, ← ih.walk, arrow_index ih.windowed, ih.items_eq]
      rfl
    · rw [List.foldl_append]
      exact arrow_inStep ih.browser key

end VerticalList

/-! ## The widgets that wrap around -/

/-- DOWN and UP, counted. -/
def net (keys : List Nat) : ℤ := (keys.count 108 : ℤ) - keys.count 103

theorem net_append (ks ks' : List Nat) : net (ks ++ ks') = net ks + net ks' := by
  unfold net
  rw [List.count_append, List.count_append]
  push_cast
  ring

theorem net_other {key : Nat} (h108 : key ≠ 108) (h103 : key ≠ 103) : net [key] = 0 := by
  unfold net
  rw [List.count_singleton, List.count_singleton]
  simp [h108, h103]

/-- The index of a wrapping walk. -/
theorem wrapIndex_eq {i : ℤ} {n j : Nat} (h : wrapIndex i n = .ok j) : (j : ℤ) = i % n := by
  unfold wrapIndex at h
  split at h
  · cases h
  · next hn =>
    obtain rfl : (i % n).toNat = j := by simpa using h
    exact Int.toNat_of_nonneg (Int.emod_nonneg i (by omega))

/-- A widget over `n` items whose keys wrap around, and whose `show` does what `onKey` says. -/
structure Wraps {β : Type} (run : β → UI (Option Nat × β))
    (onKey : β → Nat → β ⊕ Except PyError (Option Nat × β)) (index : β → Nat)
    (drawOps : β → Except PyError (List DrawOp)) (n : Nat) (Valid : β → Prop) : Prop where
  lt : ∀ {b : β}, Valid b → index b < n
  next : ∀ {b b' : β} {key : Nat}, Valid b → onKey b key = .inl b' →
    Valid b' ∧ (index b' : ℤ) = (index b + net [key]) % n
  last : ∀ {b : β} {key : Nat} {res : Except PyError (Option Nat × β)}, Valid b → onKey b key = .inr res →
    (key = 28 ∧ res = .ok (some (index b), b)) ∨ (key = 14 ∧ res = .ok (none, b))
  shows : ∀ {b : β}, Valid b → ∀ w, ∃ E, wp (run b)
    (fun r w' => ∃ ks key b', keysAfterFlush w = ks ++ key :: presses w'.io.input ∧
      feed onKey b ks = .inl b' ∧ onKey b' key = .inr (.ok r) ∧ ShowsOk (drawOps b') w') E w

namespace Wraps

variable {β : Type} {run : β → UI (Option Nat × β)}
  {onKey : β → Nat → β ⊕ Except PyError (Option Nat × β)} {index : β → Nat}
  {drawOps : β → Except PyError (List DrawOp)} {n : Nat} {Valid : β → Prop}

theorem feed_index (h : Wraps run onKey index drawOps n Valid) {b b' : β} (hb : Valid b)
    {ks : List Nat} (hfeed : feed onKey b ks = .inl b') :
    Valid b' ∧ (index b' : ℤ) = (index b + net ks) % n := by
  induction ks generalizing b with
  | nil =>
    cases hfeed
    have hlt := h.lt hb
    refine ⟨hb, ?_⟩
    show (index b' : ℤ) = (index b' + 0) % n
    rw [add_zero, Int.emod_eq_of_lt (by omega) (by omega)]
  | cons key ks ih =>
    rw [feed] at hfeed
    cases hk : onKey b key with
    | inr a =>
      rw [hk] at hfeed
      cases hfeed
    | inl b₁ =>
      rw [hk] at hfeed
      obtain ⟨hb₁, hindex⟩ := h.next hb hk
      obtain ⟨hb', hindex'⟩ := ih hb₁ hfeed
      refine ⟨hb', ?_⟩
      rw [hindex', hindex, Int.emod_add_emod, add_assoc, ← net_append]
      rfl

/-- What a `show` leaves, and returns on ENTER. -/
theorem show_index (h : Wraps run onKey index drawOps n Valid) {b b' : β} (hb : Valid b) {w : World}
    {r : Option Nat} {ks : List Nat} {key : Nat} (hret : returned? (run b) w = some (r, b'))
    (hkeys : keysAfterFlush w = ks ++ key :: presses (finalState (run b) w).io.input) :
    Valid b' ∧ (index b' : ℤ) = (index b + net (ks ++ [key])) % n ∧
      (key = 28 → r = some (index b')) ∧ ShowsOk (drawOps b') (finalState (run b) w) := by
  obtain ⟨_, hwp⟩ := h.shows hb w
  obtain ⟨ks', key', b₁, hp, hfeed, hend, hshows⟩ := returned_of_wp hwp hret
  obtain ⟨rfl, rfl⟩ := keys_unique (hkeys.symm.trans hp)
  obtain ⟨hb₁, hindex⟩ := h.feed_index hb hfeed
  rw [net_append]
  rcases h.last hb₁ hend with ⟨rfl, hres⟩ | ⟨rfl, hres⟩
  · cases hres
    refine ⟨hb₁, ?_, fun _ => rfl, hshows⟩
    rw [net_other (by omega) (by omega), add_zero]
    exact hindex
  · cases hres
    refine ⟨hb₁, ?_, fun h28 => absurd h28 (by omega), hshows⟩
    rw [net_other (by omega) (by omega), add_zero]
    exact hindex

theorem shown_index (h : Wraps run onKey index drawOps n Valid) {b b' : β} (hb : Valid b)
    (hzero : index b = 0) {keys : List Nat} (hshown : Shown run keysAfterFlush b keys b') :
    Valid b' ∧ (index b' : ℤ) = net keys % n := by
  induction hshown with
  | new =>
    refine ⟨hb, ?_⟩
    rw [hzero]
    rfl
  | again _ hret hkeys ih =>
    obtain ⟨hb₁, hindex₁⟩ := ih
    obtain ⟨hb₂, hindex₂, -⟩ := h.show_index hb₁ hret hkeys
    refine ⟨hb₂, ?_⟩
    rw [hindex₂, hindex₁, Int.emod_add_emod, List.append_assoc, net_append _ (_ ++ _)]

theorem enter_drawn (h : Wraps run onKey index drawOps n Valid) {b : β} (hb : Valid b) :
    EnterDrawn run keysAfterFlush (fun b i w => index b = i ∧ ShowsOk (drawOps b) w) b := by
  intro w r b' ks hret hkeys
  obtain ⟨-, -, hr, hshows⟩ := h.show_index hb hret hkeys
  exact ⟨_, hr rfl, rfl, hshows⟩

end Wraps

/-! ## AppSelector and PagedList -/

/-- The key for UP or DOWN. -/
theorem net_down : net [108] = 1 := by decide

theorem net_up : net [103] = -1 := by decide

/-- An index that was moved. -/
theorem wrapKey_index {β α : Type} {n : Nat} {i : ℤ} {select : Nat → β} {index : β → Nat} {b : β}
    (hselect : ∀ j, index (select j) = j)
    (h : (wrapKey n i select : β ⊕ Except PyError α) = .inl b) : (index b : ℤ) = i % n := by
  obtain ⟨j, hj, rfl⟩ := wrapKey_select h
  rw [hselect]
  exact wrapIndex_eq hj

namespace AppSelector

/-- The selector over these items, with a selection that it has. -/
def Over (items : List AppEntry) (self : AppSelector) : Prop :=
  self.items = items ∧ self.selectedIndex < items.length

theorem onKey_index {self b : AppSelector} {key : Nat} (hlt : self.selectedIndex < self.items.length)
    (hk : self.onKey key = .inl b) :
    (b.selectedIndex : ℤ) = (self.selectedIndex + net [key]) % self.items.length := by
  rw [onKey_eq] at hk
  rcases selectorKey_inl hk with ⟨rfl, hmove⟩ | ⟨rfl, hmove⟩ | ⟨h108, h103, rfl⟩
  · rw [net_down]
    exact wrapKey_index (fun _ => rfl) hmove
  · rw [net_up]
    exact wrapKey_index (fun _ => rfl) hmove
  · rw [net_other h108 h103, add_zero, Int.emod_eq_of_lt (by omega) (by omega)]

theorem wraps (ui : Ui) {items : List AppEntry} (hne : items ≠ []) :
    Wraps (showKept ui) onKey selectedIndex (drawOps ui) items.length (Over items) where
  lt h := h.2
  next := by
    rintro self b key ⟨rfl, hlt⟩ hk
    have hindex := onKey_index hlt hk
    obtain ⟨hvalid, hitems⟩ := onKey_valid (Or.inr hlt) hk
    refine ⟨⟨hitems, ?_⟩, hindex⟩
    rw [← hitems]
    exact valid_lt hvalid (by rw [hitems]; omega)
  last := by
    rintro self key res ⟨rfl, -⟩ hk
    exact onKey_end hne hk
  shows := by
    rintro self ⟨rfl, hlt⟩ w
    exact ⟨_, showKept_spec ui (Or.inr hlt) w⟩

end AppSelector

namespace PagedList

/-- The list over these items, with a selection that it has. -/
def Over (items : List Text) (self : PagedList) : Prop :=
  self.items = items ∧ self.selectedIndex < items.length

theorem onKey_index {self b : PagedList} {key : Nat} (hlt : self.selectedIndex < self.items.length)
    (hk : self.onKey key = .inl b) :
    (b.selectedIndex : ℤ) = (self.selectedIndex + net [key]) % self.items.length := by
  have hne : self.items ≠ [] := by
    rintro hnil
    simp [hnil] at hlt
  rw [onKey_eq] at hk
  rcases selectorKey_inl hk with ⟨rfl, hmove⟩ | ⟨rfl, hmove⟩ | ⟨h108, h103, rfl⟩
  · rw [if_pos hne] at hmove
    rw [net_down]
    exact wrapKey_index (fun _ => rfl) hmove
  · rw [if_pos hne] at hmove
    rw [net_up]
    exact wrapKey_index (fun _ => rfl) hmove
  · rw [net_other h108 h103, add_zero, Int.emod_eq_of_lt (by omega) (by omega)]

theorem wraps (ui : Ui) (items : List Text) :
    Wraps (showModal ui) onKey selectedIndex (drawOps ui) items.length (Over items) where
  lt h := h.2
  next := by
    rintro self b key ⟨rfl, hlt⟩ hk
    have hindex := onKey_index hlt hk
    obtain ⟨hvalid, hitems⟩ := onKey_valid (Or.inr hlt) hk
    refine ⟨⟨hitems, ?_⟩, hindex⟩
    rw [← hitems]
    exact valid_lt hvalid (by rw [hitems]; omega)
  last := by
    rintro self key res ⟨rfl, -⟩ hk
    exact onKey_end hk
  shows := by
    rintro self ⟨rfl, hlt⟩ w
    exact ⟨_, showModal_keys ui (Or.inr hlt) w⟩

end PagedList

namespace VerticalList

/-- The walk over shows. -/
theorem shown_walk (ui : Ui) {self l : VerticalList} {keys : List Nat}
    (h : Shown (showModal ui) pressed self keys l) : l = keys.foldl arrow self := by
  induction h with
  | new => rfl
  | again _ hret hkeys ih =>
    obtain ⟨hwalk, -⟩ := show_walk ui hret hkeys
    rw [hwalk, ih, ← List.foldl_append, List.append_assoc]

theorem foldl_windowed {self : VerticalList} (h : self.Windowed) (keys : List Nat) :
    (keys.foldl arrow self).Windowed := by
  induction keys generalizing self with
  | nil => exact h
  | cons key keys ih => exact ih (arrow_windowed h key)

/-- Item `i` is selected, and drawn as current on the screen. -/
def Current (ui : Ui) (self : VerticalList) (i : Nat) (w : World) : Prop :=
  self.selectedIndex = i ∧ Shows (self.drawOps ui) w ∧ self.Highlights ui i

theorem enter_drawn (ui : Ui) {self : VerticalList} (h : self.Windowed) :
    EnterDrawn (showModal ui) pressed (Current ui) self := by
  intro w r l ks hret hkeys
  obtain ⟨rfl, hr, hshows⟩ := show_walk ui hret hkeys
  exact ⟨_, hr rfl, rfl, hshows, highlights ui (foldl_windowed h _)⟩

end VerticalList

/-- Item `i` is selected, and drawn as current on the screen. -/
def AppSelector.Current (ui : Ui) (self : AppSelector) (i : Nat) (w : World) : Prop :=
  self.selectedIndex = i ∧ ShowsOk (self.drawOps ui) w

/-- Item `i` is selected, and drawn as current on the screen. -/
def PagedList.Current (ui : Ui) (self : PagedList) (i : Nat) (w : World) : Prop :=
  self.selectedIndex = i ∧ ShowsOk (self.drawOps ui) w

/-- **The walk of a selection**, over shows of a widget that starts at its first item. -/
theorem selection_walk (ui : Ui) :
    (∀ title items appId, items ≠ [] →
      (∀ keys, VerticalList.Walked items keys
        (keys.foldl VerticalList.arrow (VerticalList.new title items appId))) ∧
      ∀ keys l, Shown (VerticalList.showModal ui) VerticalList.pressed
        (VerticalList.new title items appId) keys l →
        l = keys.foldl VerticalList.arrow (VerticalList.new title items appId) ∧
        EnterDrawn (VerticalList.showModal ui) VerticalList.pressed (VerticalList.Current ui) l) ∧
    (∀ apps : AppSelector, apps.items ≠ [] → apps.selectedIndex = 0 →
      ∀ keys b, Shown (AppSelector.showKept ui) keysAfterFlush apps keys b →
        b.items = apps.items ∧ (b.selectedIndex : ℤ) = net keys % apps.items.length ∧
        EnterDrawn (AppSelector.showKept ui) keysAfterFlush (AppSelector.Current ui) b) ∧
    ∀ paged : PagedList, paged.items ≠ [] → paged.selectedIndex = 0 →
      ∀ keys b, Shown (PagedList.showModal ui) keysAfterFlush paged keys b →
        b.items = paged.items ∧ (b.selectedIndex : ℤ) = net keys % paged.items.length ∧
        EnterDrawn (PagedList.showModal ui) keysAfterFlush (PagedList.Current ui) b := by
  refine ⟨?_, ?_, ?_⟩
  · intro title items appId hne
    refine ⟨VerticalList.new_walked title appId hne, ?_⟩
    intro keys l hshown
    obtain rfl := VerticalList.shown_walk ui hshown
    exact ⟨rfl, VerticalList.enter_drawn ui (VerticalList.new_walked title appId hne keys).windowed⟩
  · intro apps hne hzero keys b hshown
    have hwraps := AppSelector.wraps ui hne
    have hstart : AppSelector.Over apps.items apps :=
      ⟨rfl, by rw [hzero]; exact List.length_pos_of_ne_nil hne⟩
    obtain ⟨hb, hindex⟩ := hwraps.shown_index hstart hzero hshown
    exact ⟨hb.1, hindex, hwraps.enter_drawn hb⟩
  · intro paged hne hzero keys b hshown
    have hwraps := PagedList.wraps ui paged.items
    have hstart : PagedList.Over paged.items paged :=
      ⟨rfl, by rw [hzero]; exact List.length_pos_of_ne_nil hne⟩
    obtain ⟨hb, hindex⟩ := hwraps.shown_index hstart hzero hshown
    exact ⟨hb.1, hindex, hwraps.enter_drawn hb⟩

/-- A launcher with two apps. -/
def twoApps : AppSelector where
  items := [⟨[], [], [], [], 1⟩, ⟨[], [], [], [], 2⟩]
  background := false

/-- After a flush, DOWN and BACKSPACE. -/
def downWorld : World :=
  World.boot (initDatabases none none none) [⟨0, none⟩, .press 1 108, .press 1 14]

theorem twoApps_shown : Shown (AppSelector.showKept Ui.plain) keysAfterFlush twoApps [108, 14]
    { twoApps with selectedIndex := 1 } := by
  have hret : returned? (AppSelector.showKept Ui.plain twoApps) downWorld =
      some (none, { twoApps with selectedIndex := 1 }) := rfl
  have hkeys : keysAfterFlush downWorld = [108] ++ 14 :: presses
      (finalState (AppSelector.showKept Ui.plain twoApps) downWorld).io.input := by decide +kernel
  exact Shown.again .new hret hkeys

/-- DOWN once, and on a list of one item to no effect. -/
theorem selection_walk_down :
    VerticalList.Walked [['a']] [108] ([108].foldl VerticalList.arrow (.new [] [['a']] [])) ∧
    ((1 : Nat) : ℤ) = net [108, 14] % (2 : Nat) :=
  ⟨((selection_walk Ui.plain).1 [] [['a']] [] (by decide)).1 [108],
    ((selection_walk Ui.plain).2.1 twoApps (by decide) rfl [108, 14] _ twoApps_shown).2.1⟩

end NeoDCT
