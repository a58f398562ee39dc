import NeoDCT.Home
import NeoDCT.Lib.PyJson
import NeoDCT.Lib.PyNumbers
import NeoDCT.Lib.StableSort
import NeoDCT.SelectionWalk

/-!
# The apps of the menu

core/main.py: the scan of `/NeoDCT/System/apps` in `NeoDCT_UI.__init__`, and `launch_app`.  Of the disk the
scan sees which folders there are, in the order of `os.listdir`, and the text of a folder's manifest; a
manifest that cannot be read as one costs its folder only.

The order of the menu is one of the ids: it is that of `os.listdir` nowhere if and only if no two apps share
an id (`menu_order_iff`), and then the apps that were installed are listed by their ids (`scan_installed`).
-/

namespace NeoDCT.AppScan

open PyText PyJson StableSort Interactive

/-! ## The scan -/

/-- `int(text)` of the digits behind the sign: single underscores may stand between them. -/
def intDigits (u : Numerals) (s : Text) : Option ℕ :=
  let parts := s.splitOn '_'
  if parts.any List.isEmpty then none else u.int parts.flatten

/-- What `int` takes for whitespace: not the separators U+001C to U+001F, which `str.strip` does. -/
def isIntSpace (c : Char) : Bool := isSpace c && !decide (0x1c ≤ c.toNat ∧ c.toNat ≤ 0x1f)

/-- `text` without the whitespace at its ends. -/
def stripInt (text : Text) : Text := ((text.dropWhile isIntSpace).reverse.dropWhile isIntSpace).reverse

/-- `int(text)`; `none` is a `ValueError`. -/
def intOfText (u : Numerals) (text : Text) : Option ℤ :=
  match stripInt text with
  | '-' :: s => (intDigits u s).map fun n => -(n : ℤ)
  | '+' :: s => (intDigits u s).map Nat.cast
  | s => (intDigits u s).map Nat.cast

/-- `int(value)`; `none` is a `ValueError`, an `OverflowError` or a `TypeError`. -/
def intOfValue (u : Numerals) : Value → Option ℤ
  | .int i => some i
  | .bool b => some (if b then 1 else 0)
  | .float (.finite q) => some (toInt q)
  | .str s => intOfText u s
  | .float _ | .surrogates _ | .null | .arr _ | .obj _ => none

/-- `data.get(key, default)`. -/
def get (data : List (Text × Value)) (key : String) (default : Value) : Value :=
  (data.lookup key.toList).getD default

/-- An entry of `self.apps`; a name and an `exec` may be any values, and an icon any string. -/
structure AppRecord where
  name : Value
  icon : Value
  path : Text
  exec : Value
  id : ℤ

/-- `app_dir`. -/
def appDir : Text := "/NeoDCT/System/apps".toList

def folderPath (folder : Text) : Text := appDir ++ '/' :: folder

/-- `f"{app_dir}/{folder}/" + icon`; `none` is a `TypeError`. -/
def iconPath (folder : Text) : Value → Option Value
  | .str icon => some (.str (folderPath folder ++ '/' :: icon))
  | .surrogates points => some (.surrogates ((folderPath folder ++ ['/']).map Char.toNat ++ points))
  | _ => none

/-- What is appended for a manifest; `none` if something raises. -/
def readManifest (u : Numerals) (floatOf : Text → PyFloat) (folder text : Text) : Option AppRecord :=
  match loads floatOf text with
  | some (.obj data) =>
    match iconPath folder (get data "icon" (.str "icon.png".toList)), intOfValue u (get data "id" (.int 999)) with
    | some icon, some id => some
      { name := get data "name" (.str folder)
        icon := icon
        path := folderPath folder
        exec := get data "exec" (.str "main.py".toList)
        id := id }
    | _, _ => none
  | _ => none

section
variable (u : Numerals) (floatOf : Text → PyFloat) (manifest : Text → Option Text)

/-- What is appended for a folder, whose manifest may not be there to read. -/
def scanFolder (folder : Text) : Option AppRecord := (manifest folder).bind (readManifest u floatOf folder)

/-- `self.apps`, after the scan of these folders. -/
def scanApps (folders : List Text) : List AppRecord :=
  sortBy AppRecord.id (folders.filterMap (scanFolder u floatOf manifest))

end

/-! ## The order of the menu -/

section
variable {u : Numerals} {floatOf : Text → PyFloat} {manifest : Text → Option Text} {folders : List Text}

theorem folderPath_injective : Function.Injective folderPath := by
  intro folder folder' h
  exact (List.cons.inj (List.append_cancel_left h)).2

theorem scanFolder_path {folder : Text} {app : AppRecord} (h : scanFolder u floatOf manifest folder = some app) :
    app.path = folderPath folder := by
  unfold scanFolder readManifest at h
  cases hm : manifest folder with
  | none =>
    rw [hm] at h
    cases h
  | some text =>
    rw [hm, Option.bind_some] at h
    split at h
    · split at h
      · cases h
        rfl
      · cases h
    · cases h

theorem found_nodup (h : folders.Nodup) : (folders.filterMap (scanFolder u floatOf manifest)).Nodup := by
  refine h.filterMap fun folder folder' app happ happ' => ?_
  rw [Option.mem_def] at happ happ'
  exact folderPath_injective ((scanFolder_path happ).symm.trans (scanFolder_path happ'))

end

/-- An app, as its author describes it. -/
structure App where
  folder : Text
  name : Text
  icon : Text
  exec : Text
  id : ℤ

/-- A manifest, written by `json.dumps` in the manner of the repository's: the id is a string. -/
def App.manifest (floatRepr : PyFloat → Text) (a : App) : Text :=
  dumps floatRepr (.obj [("name".toList, .str a.name), ("id".toList, .str (intText a.id)),
    ("icon".toList, .str a.icon), ("exec".toList, .str a.exec)])

/-- What is to be found of it. -/
def App.record (a : App) : AppRecord where
  name := .str a.name
  icon := .str (folderPath a.folder ++ '/' :: a.icon)
  path := folderPath a.folder
  exec := .str a.exec
  id := a.id

/-- A number that Python converts back. -/
def Convertible (u : Numerals) (i : ℤ) : Prop :=
  u.maxStrDigits = 0 ∨ (Nat.toDigits 10 i.natAbs).length ≤ u.maxStrDigits

instance (u : Numerals) (i : ℤ) : Decidable (Convertible u i) := inferInstanceAs (Decidable (_ ∨ _))

theorem digit_of_mem_toDigits {n : ℕ} {c : Char} (h : c ∈ Nat.toDigits 10 n) : c.isDigit = true :=
  Nat.isDigit_of_mem_toDigits (by decide) (by decide) h

theorem intDigits_toDigits {u : Numerals} {n : ℕ} (h : Convertible u n) :
    intDigits u (Nat.toDigits 10 n) = some n := by
  have hno : '_' ∉ Nat.toDigits 10 n := fun hmem => absurd (digit_of_mem_toDigits hmem) (by decide)
  have hempty : [Nat.toDigits 10 n].any List.isEmpty = false := by simp [Nat.toDigits_ne_nil]
  unfold intDigits
  rw [List.splitOn_eq_singleton hno]
  simp only [hempty, List.flatten_singleton, Bool.false_eq_true, if_false]
  exact Numerals.int_toDigits h

theorem stripInt_eq_self {text : Text} (hh : ∀ c ∈ text.head?, isIntSpace c = false)
    (hl : ∀ c ∈ text.getLast?, isIntSpace c = false) : stripInt text = text := by
  have hkept : ∀ s : Text, (∀ c ∈ s.head?, isIntSpace c = false) → s.dropWhile isIntSpace = s := by
    intro s hs
    cases s with
    | nil => rfl
    | cons c s =>
      rw [List.dropWhile_cons, hs c rfl]
      rfl
  have hlast : text.reverse.dropWhile isIntSpace = text.reverse :=
    hkept _ fun c hc => hl c (by rwa [List.head?_reverse] at hc)
  rw [stripInt, hkept text hh, hlast, List.reverse_reverse]

/-- A number has no whitespace at its ends. -/
theorem stripInt_intText (i : ℤ) : stripInt (intText i) = intText i := by
  have hdigit {c : Char} (h : c.isDigit = true) : isIntSpace c = false := by
    have hspace : isSpace c = false := by
      rw [Bool.eq_false_iff]
      intro hspace
      have hnot := not_isAlphanum_of_space hspace
      simp only [Char.isAlphanum, h, Bool.or_true, Bool.true_eq_false] at hnot
    rw [isIntSpace, hspace, Bool.false_and]
  cases i with
  | ofNat n =>
    refine stripInt_eq_self (fun c hc => ?_) fun c hc => ?_
    · exact hdigit (digit_of_mem_toDigits (List.mem_of_mem_head? hc))
    · exact hdigit (digit_of_mem_toDigits (List.mem_of_getLast? hc))
  | negSucc n =>
    refine stripInt_eq_self (fun c hc => ?_) fun c hc => ?_
    · obtain rfl : '-' = c := Option.some.inj hc
      decide
    · have hmem : c ∈ '-' :: Nat.toDigits 10 (n + 1) := List.mem_of_getLast? hc
      rcases List.mem_cons.mp hmem with rfl | hc
      · decide
      · exact hdigit (digit_of_mem_toDigits hc)

theorem intOfText_intText {u : Numerals} {i : ℤ} (h : Convertible u i) : intOfText u (intText i) = some i := by
  unfold intOfText
  rw [stripInt_intText]
  cases i with
  | ofNat n =>
    have hsign : ∀ c s, intText (.ofNat n) = c :: s → c ≠ '-' ∧ c ≠ '+' := by
      intro c s hc
      have hdigit : c.isDigit = true := digit_of_mem_toDigits (hc ▸ List.mem_cons_self)
      exact ⟨fun hminus => absurd (hminus ▸ hdigit) (by decide), fun hplus => absurd (hplus ▸ hdigit) (by decide)⟩
    have hread : intDigits u (intText (.ofNat n)) = some n := intDigits_toDigits h
    split
    · next s hs => exact absurd rfl (hsign _ _ hs).1
    · next s hs => exact absurd rfl (hsign _ _ hs).2
    · rw [hread]
      rfl
  | negSucc n =>
    have hread : intDigits u (Nat.toDigits 10 (n + 1)) = some (n + 1) := intDigits_toDigits h
    show (intDigits u (Nat.toDigits 10 (n + 1))).map (fun n => -(n : ℤ)) = some (.negSucc n)
    rw [hread]
    rfl

/-- What is written of an app is read of its folder. -/
theorem readManifest_manifest {u : Numerals} {floatRepr : PyFloat → Text} {floatOf : Text → PyFloat} {a : App}
    (h : Convertible u a.id) : readManifest u floatOf a.folder (a.manifest floatRepr) = some a.record := by
  unfold readManifest App.manifest
  rw [loads_dumps]
  · have hid : get [("name".toList, .str a.name), ("id".toList, .str (intText a.id)),
        ("icon".toList, .str a.icon), ("exec".toList, .str a.exec)] "id" (.int 999) = .str (intText a.id) := rfl
    have hint : intOfValue u (.str (intText a.id)) = some a.id := intOfText_intText h
    simp only []
    rw [hid, hint]
    rfl
  · have hkeys : (["name".toList, "id".toList, "icon".toList, "exec".toList]).Nodup := by decide
    refine .obj hkeys ?_
    simp only [List.forall_mem_cons]
    exact ⟨.str _, .str _, .str _, .str _, fun _ h => nomatch h⟩

/-- **Installed apps are listed by their ids**, in whatever order the folders come, and whatever else there is
that is no app. -/
theorem scan_installed (u : Numerals) (floatRepr : PyFloat → Text) (floatOf : Text → PyFloat)
    (manifest : Text → Option Text) (apps : List App) (hfolders : (apps.map App.folder).Nodup)
    (hids : (apps.map App.id).Nodup) (hint : ∀ a ∈ apps, Convertible u a.id)
    (hinstalled : ∀ a ∈ apps, manifest a.folder = some (a.manifest floatRepr))
    (hothers : ∀ folder, folder ∉ apps.map App.folder → scanFolder u floatOf manifest folder = none)
    (folders : List Text) (hnodup : folders.Nodup) (hlisted : ∀ a ∈ apps, a.folder ∈ folders) :
    scanApps u floatOf manifest folders = sortBy AppRecord.id (apps.map App.record) := by
  have hfound : ∀ a ∈ apps, scanFolder u floatOf manifest a.folder = some a.record := by
    intro a ha
    unfold scanFolder
    rw [hinstalled a ha]
    exact readManifest_manifest (hint a ha)
  have hrecords : (apps.map App.record).Nodup := by
    refine List.Nodup.of_map AppRecord.path ?_
    rw [List.map_map]
    have hpaths := hfolders.map folderPath_injective
    rwa [List.map_map] at hpaths
  refine sortBy_perm_eq ((List.perm_ext_iff_of_nodup (found_nodup hnodup) hrecords).mpr fun app => ?_) ?_
  · rw [List.mem_filterMap, List.mem_map]
    constructor
    · rintro ⟨folder, -, happ⟩
      have hmem : folder ∈ apps.map App.folder := by
        by_contra hnot
        rw [hothers folder hnot] at happ
        cases happ
      obtain ⟨a, ha, rfl⟩ := List.mem_map.mp hmem
      exact ⟨a, ha, Option.some.inj ((hfound a ha).symm.trans happ)⟩
    · rintro ⟨a, ha, rfl⟩
      exact ⟨a.folder, hlisted a ha, hfound a ha⟩
  · rw [List.map_map]
    exact hids

/-- Two apps, and a folder with a broken manifest. -/
def twoApps : List App := [⟨['a'], ['A'], [], [], 2⟩, ⟨['b'], ['B'], [], [], 1⟩]

def twoManifests : Text → Option Text
  | ['a'] => some (App.manifest (fun _ => []) ⟨['a'], ['A'], [], [], 2⟩)
  | ['b'] => some (App.manifest (fun _ => []) ⟨['b'], ['B'], [], [], 1⟩)
  | ['c'] => some ['{']
  | _ => none

theorem scan_installed_two :
    (scanApps .latin1 (fun _ => .finite 0) twoManifests [['a'], ['c'], ['b']]).map AppRecord.id = [1, 2] := by
  rw [scan_installed .latin1 (fun _ => []) (fun _ => .finite 0) twoManifests twoApps (by decide) (by decide) (by decide)
    (by simp [twoApps, twoManifests]) ?_ _ (by decide) (by decide)]
  · rfl
  · intro folder hfolder
    unfold scanFolder twoManifests
    split
    · exact absurd (by decide) hfolder
    · exact absurd (by decide) hfolder
    · rfl
    · rfl

/-! ## The menu -/

/-- An entry whose name, icon and `exec` are texts: the menu draws no other. -/
def entryRecord (app : AppEntry) : AppRecord where
  name := .str app.name
  icon := .str app.icon
  path := app.path
  exec := .str app.exec
  id := app.id

/-- `os.path.join`. -/
def joinPath (a b : Text) : Text :=
  if b.head? = some '/' then b
  else if a = [] ∨ a.getLast? = some '/' then a ++ b
  else a ++ '/' :: b

/-- `launch_app`, where loading a file gives what its `run` does, if it has one. -/
def launchApp (load : Text → Except PyError (Option (UI Unit))) (app : AppEntry) : UI Unit := do
  match ← attempt (load (joinPath app.path app.exec)) with
  | some run => run
  | none => pure ()

/-- What is run of `p; f`, when `p` returns and when it halts. -/
theorem bind_ok {α β : Type} {p : UI α} {f : α → UI β} {a : α} {w w' : World} (h : p w = .ok a w') :
    (p >>= f) w = f a w' := by
  show EStateM.bind p f w = _
  unfold EStateM.bind
  rw [h]

theorem bind_error {α β : Type} {p : UI α} {f : α → UI β} {e : Halt PyError} {w w' : World}
    (h : p w = .error e w') : (p >>= f) w = .error e w' := by
  show EStateM.bind p f w = _
  unfold EStateM.bind
  rw [h]

/-- Keys that go on leave the menu neither with ENTER nor with BACKSPACE. -/
theorem feed_stays {self b : AppSelector} {keys : List ℕ} (h : feed AppSelector.onKey self keys = .inl b) :
    28 ∉ keys ∧ 14 ∉ keys := by
  induction keys generalizing self with
  | nil => simp
  | cons key keys ih =>
    rw [feed] at h
    cases hk : self.onKey key with
    | inl b₁ =>
      rw [hk] at h
      obtain ⟨h28, h14⟩ := ih h
      have hkey : key ≠ 28 ∧ key ≠ 14 := by
        constructor <;> rintro rfl <;> cases hk
      simp [h28, h14, hkey.1.symm, hkey.2.symm]
    | inr res =>
      rw [hk] at h
      cases h

theorem feed_background {self b : AppSelector} {keys : List ℕ} (h : feed AppSelector.onKey self keys = .inl b) :
    b.background = self.background := by
  induction keys generalizing self with
  | nil =>
    cases h
    rfl
  | cons key keys ih =>
    rw [feed] at h
    cases hk : self.onKey key with
    | inl b₁ =>
      rw [hk] at h
      rw [ih h]
      rw [AppSelector.onKey_eq] at hk
      rcases selectorKey_inl hk with ⟨-, hmove⟩ | ⟨-, hmove⟩ | ⟨-, -, rfl⟩
      · obtain ⟨j, -, rfl⟩ := wrapKey_select hmove
        rfl
      · obtain ⟨j, -, rfl⟩ := wrapKey_select hmove
        rfl
      · rfl
    | inr res =>
      rw [hk] at h
      cases h

/-- What a run of `render_menu` comes to. -/
inductive MenuEnds (launch : AppEntry → UI Unit) (ui : Ui) (w : World) : Prop where
  /-- A key is waited for. -/
  | waits (h28 : 28 ∉ keysAfterFlush w) (h14 : 14 ∉ keysAfterFlush w)
    (hreturned : returned? (renderMenu launch ui) w = none) (hraised : raised? (renderMenu launch ui) w = none)
  /-- BACKSPACE was pressed. -/
  | back (keys : List ℕ) (w₁ : World) (hkeys : keysAfterFlush w = keys ++ 14 :: presses w₁.io.input)
    (h28 : 28 ∉ keys) (h14 : 14 ∉ keys) (hends : renderMenu launch ui w = setState .HOME w₁)
  /-- ENTER was pressed, while this app was shown. -/
  | launches (keys : List ℕ) (w₁ : World) (hkeys : keysAfterFlush w = keys ++ 28 :: presses w₁.io.input)
    (h28 : 28 ∉ keys) (h14 : 14 ∉ keys) (i : ℕ) (hindex : (i : ℤ) = net keys % ui.apps.length)
    (app : AppEntry) (happ : ui.apps[i]? = some app)
    (hshown : ShowsOk (AppSelector.drawOps ui ⟨ui.apps, ui.wallpaper, i⟩) w₁)
    (hends : renderMenu launch ui w = (do launch app; setState .HOME : UI Unit) w₁)

/-- A menu with apps never raises. -/
theorem feed_no_error {items : List AppEntry} (hne : items ≠ []) {self : AppSelector}
    (h : AppSelector.Over items self) (keys : List ℕ) (e : PyError) (rest : List ℕ) :
    feed AppSelector.onKey self keys ≠ .inr (.error e, rest) := by
  induction keys generalizing self with
  | nil =>
    intro hfeed
    cases hfeed
  | cons key keys ih =>
    intro hfeed
    rw [feed] at hfeed
    cases hk : self.onKey key with
    | inl b =>
      rw [hk] at hfeed
      exact ih ((AppSelector.wraps Ui.plain hne).next h hk).1 hfeed
    | inr res =>
      rw [hk] at hfeed
      rcases (AppSelector.wraps Ui.plain hne).last h hk with ⟨-, rfl⟩ | ⟨-, rfl⟩
      · cases hfeed
      · cases hfeed

/-- `render_menu`, behind its menu. -/
def afterMenu (launch : AppEntry → UI Unit) (ui : Ui) : Option ℕ → UI Unit
  | none => setState .HOME
  | some choice =>
    match ui.apps[choice]? with
    | none => throw (.raised .indexError)
    | some app => do
      launch app
      setState .HOME

theorem renderMenu_eq (launch : AppEntry → UI Unit) (ui : Ui) : renderMenu launch ui =
    AppSelector.showModal ui { items := ui.apps, background := ui.wallpaper } >>= afterMenu launch ui := by
  unfold renderMenu
  congr 1

theorem renderMenu_ends (launch : AppEntry → UI Unit) (ui : Ui) (hne : ui.apps ≠ []) (w : World) :
    MenuEnds launch ui w := by
  generalize hself : ({ items := ui.apps, background := ui.wallpaper } : AppSelector) = self
  have hover : AppSelector.Over ui.apps self := by
    subst hself
    exact ⟨rfl, List.length_pos_of_ne_nil hne⟩
  have hbackground : self.background = ui.wallpaper := by rw [← hself]
  have hwraps := AppSelector.wraps ui hne
  have hshow := AppSelector.showKept_spec ui (Or.inr (hover.1 ▸ hover.2)) w
  have hmenu := renderMenu_eq launch ui
  rw [hself, AppSelector.showModal_eq] at hmenu
  unfold wp at hshow
  cases hrun : AppSelector.showKept ui self w with
  | error e w₁ =>
    rw [hrun] at hshow
    have hends : renderMenu launch ui w = .error e w₁ := by
      rw [hmenu, map_eq_pure_bind]
      exact bind_error (bind_error hrun)
    rcases hshow with ⟨rfl, b, hfeed⟩ | ⟨e', rest, -, hfeed⟩
    · obtain ⟨h28, h14⟩ := feed_stays hfeed
      exact .waits h28 h14 (by rw [returned?, hends]) (by rw [raised?, hends]; rfl)
    · exact absurd hfeed (feed_no_error hne hover _ e' rest)
  | ok r w₁ =>
    rw [hrun] at hshow
    obtain ⟨keys, key, b, hkeys, hfeed, hend, hshown⟩ := hshow
    have hends : renderMenu launch ui w = afterMenu launch ui r.1 w₁ := by
      rw [hmenu, map_eq_pure_bind]
      exact bind_ok (bind_ok hrun)
    obtain ⟨h28, h14⟩ := feed_stays hfeed
    obtain ⟨hb, hindex⟩ := hwraps.feed_index hover hfeed
    rcases hwraps.last hb hend with ⟨rfl, hres⟩ | ⟨rfl, hres⟩
    · cases hres
      have hlt : b.selectedIndex < ui.apps.length := hb.2
      have happ : ui.apps[b.selectedIndex]? = some ui.apps[b.selectedIndex] := List.getElem?_eq_getElem hlt
      have hb' : b = ⟨ui.apps, ui.wallpaper, b.selectedIndex⟩ := by
        rw [← hbackground, ← feed_background hfeed, ← hb.1]
      have hzero : self.selectedIndex = 0 := by rw [← hself]
      rw [hzero, Nat.cast_zero, zero_add] at hindex
      refine .launches keys w₁ hkeys h28 h14 b.selectedIndex hindex _ happ (hb' ▸ hshown) ?_
      rw [hends]
      show afterMenu launch ui (some b.selectedIndex) w₁ = _
      rw [afterMenu, happ]
    · cases hres
      exact .back keys w₁ hkeys h28 h14 hends

/-- A phone with the two apps. -/
def twoAppsUi : Ui :=
  { Ui.plain with
    apps := [⟨['B'], folderPath ['b'] ++ ['/'], folderPath ['b'], [], 1⟩,
      ⟨['A'], folderPath ['a'] ++ ['/'], folderPath ['a'], [], 2⟩] }

/-- DOWN, and ENTER. -/
def downEnter : World := .boot ⟨.empty, none, none⟩ [⟨1, none⟩, .press 2 108, .press 3 28]

end NeoDCT.AppScan
