import NeoDCT.Framework.Lists
import NeoDCT.Framework.Inputs

/-!
# The PhoneBook app

`apps/PhoneBook/shared/list_ui.py` (the contact selector, which the home screen uses too) and
`apps/PhoneBook/main.py`.  A contact is the row `SELECT *` gives: `contact[0]` is its id.
-/

namespace NeoDCT

open PyText Interactive

/-- SQLite's `LIKE`: `%` is any run, `_` any one character, ASCII letters match in either case. -/
def like : Text → Text → Bool
  | [], s => s = []
  | c :: p, s =>
    if c = '%' then s.tails.any (like p)
    else
      match s with
      | [] => false
      | d :: s => (c = '_' || c.toLower = d.toLower) && like p s

/-- `ORDER BY name ASC`; rows with one name stay in rowid order. -/
def orderByName (rows : List ContactRow) : List ContactRow :=
  rows.insertionSort fun a b => a.2.name ≤ b.2.name

/-- `get_all_contacts`: the rows a table gives. -/
def getAllContacts (t : AutoTable Contact) (searchQuery : Option Text) : List ContactRow :=
  match searchQuery with
  | some (c :: cs) => orderByName (t.rows.filter fun r => like ('%' :: c :: cs ++ ['%']) r.2.name)
  | _ => orderByName t.rows

/-- `get_all_contacts`: the `SELECT`. -/
def fetchContacts (searchQuery : Option Text) : UI (List ContactRow) := do
  let w ← get
  let rows := getAllContacts w.db.contacts searchQuery
  record (.fetchedContacts searchQuery rows)
  pure rows

/-- A line of text in the middle of the screen, shown for a while. -/
def showNotice (ops : List DrawOp) : UI Unit := do
  paint (fillBox 0 0 240 210 "black" :: ops)
  present

/-- `show_contact_selector`; its loop always returns in the first iteration. -/
def showContactSelector (ui : Ui) (title btnText : Text) (searchQuery : Option Text)
    (headerRoot : Text) : UI (Option (ContactRow × Nat)) := do
  let contacts ← fetchContacts searchQuery
  if contacts = [] then
    let msg := match searchQuery with
      | some (_ :: _) => "No Results".toList
      | _ => "No Contacts".toList
    showNotice [drawText ((240 - (ui.getTextSize msg .n).1) / 2 : ℤ) 100 msg .n "white"]
    pure none
  else
    let contactNames := contacts.map fun row => row.2.name
    SoftKeyBar.app.update ui (some btnText) true
    let (selection, _) ← VerticalList.showModal ui { title := title, items := contactNames, appId := headerRoot }
    match selection with
    | none => pure none
    | some i =>
      match contacts[i]? with
      | none => throw (.raised .indexError)
      | some contact => pure (some (contact, i))

theorem mem_getAllContacts {t : AutoTable Contact} {q : Option Text} {r : ContactRow}
    (h : r ∈ getAllContacts t q) : r ∈ t.rows := by
  unfold getAllContacts orderByName at h
  split at h
  · rw [List.mem_insertionSort] at h
    exact List.mem_of_mem_filter h
  · rwa [List.mem_insertionSort] at h

theorem showNotice_spec (ops : List DrawOp) (w : World) {E : Halt PyError → World → Prop} :
    wp (showNotice ops) (fun _ w' => Drawn w w') E w :=
  show_spec _ w

theorem fetchContacts_spec (searchQuery : Option Text) (w : World)
    {E : Halt PyError → World → Prop} :
    wp (fetchContacts searchQuery) (fun rows w' => rows = getAllContacts w.db.contacts searchQuery ∧
      w' = w.journal [.fetchedContacts searchQuery rows]) E w := ⟨rfl, rfl⟩

/-- **What the selector returns**: nothing for an empty list or on Back; else the row chosen by the
keys pressed. -/
theorem showContactSelector_spec (ui : Ui) (title btnText : Text) (q : Option Text) (root : Text)
    (w : World) {rows : List ContactRow} (hrows : rows = getAllContacts w.db.contacts q)
    {list : VerticalList}
    (hlist : list = { title := title, items := rows.map fun row => row.2.name, appId := root }) :
    wp (showContactSelector ui title btnText q root)
      (fun res w' =>
        (rows = [] ∧ res = none ∧ Logged [.fetchedContacts q rows] w w') ∨
        rows ≠ [] ∧ ∃ sel,
          feed VerticalList.onKey list (presses w.io.input) = .inr (sel, presses w'.io.input) ∧
          Logged [.fetchedContacts q rows, list.closed sel] w w' ∧
          match sel with
          | none => res = none
          | some i => ∃ r, rows[i]? = some r ∧ res = some (r, i))
      (fun h w' => h = .waiting ∧ rows ≠ [] ∧ Logged [.fetchedContacts q rows] w w' ∧
        ∃ self', feed VerticalList.onKey list (presses w.io.input) = .inl self') w := by
  unfold showContactSelector
  refine wp_seq (fetchContacts_spec q w) (fun _ _ h => h) ?_
  rintro _ _ ⟨rfl, rfl⟩
  rw [← hrows]
  have hfetch : Logged [.fetchedContacts q rows] w (w.journal [.fetchedContacts q rows]) :=
    Logged.single (Quiet.refl w) _
  by_cases hnil : rows = []
  · rw [if_pos hnil]
    refine wp_seq (showNotice_spec _ _) (fun _ _ h => h) ?_
    intro _ w₁ hd
    exact Or.inl ⟨hnil, rfl, hfetch.trans_quiet hd.quiet⟩
  rw [if_neg hnil]
  refine wp_seq (SoftKeyBar.update_spec ui _ _ _ _) (fun _ _ h => h) ?_
  intro _ w₁ hd
  have hin : w₁.io.input = w.io.input := hd.input
  have hlog := hfetch.trans_quiet hd.quiet
  rw [← hlist]
  refine wp_seq (VerticalList.showModal_spec ui list w₁) ?_ ?_
  · rintro _ w₂ ⟨rfl, hq, hf⟩
    rw [hin] at hf
    exact ⟨rfl, hnil, hlog.trans_quiet hq, hf⟩
  rintro ⟨sel, list'⟩ _ ⟨⟨ks, k, hks, hfed, hk⟩, -, w₂, hr, rfl⟩
  have hf : feed VerticalList.onKey list (presses w.io.input) = .inr (sel, presses w₂.io.input) := by
    rw [← hin, hks, feed_snoc hfed, hk]
    rfl
  have hlog' : Logged [.fetchedContacts q rows, list.closed sel] w
      (w₂.journal [list.closed sel]) := hlog.trans (Logged.single hr.quiet _)
  cases sel with
  | none => exact Or.inr ⟨hnil, none, hf, hlog', rfl⟩
  | some i =>
    have hi : i < rows.length := by
      have hsel : list.selectedIndex < list.items.length := by
        subst hlist
        simpa using List.length_pos_of_ne_nil hnil
      have hi := VerticalList.index_lt hsel hf
      subst hlist
      simpa using hi
    have hget : rows[i]? = some rows[i] := List.getElem?_eq_getElem hi
    simp only [hget]
    exact Or.inr ⟨hnil, some i, hf, hlog', rows[i], hget, rfl⟩

namespace PhoneBook

/-! ## Actions -/

/-- `add_entry_action`. -/
def addEntryAction (ui : Ui) : UI Unit := do
  match ← TextInput.showModal ui { title := "Add Entry".toList, prompt := "Name:".toList } with
  | none => pure ()
  | some name =>
    if name = [] then pure ()
    else
      match ← TextInput.showModal ui { title := "Add Entry".toList, prompt := "Number:".toList } with
      | none => pure ()
      | some number =>
        if number = [] then pure ()
        else do
          execute (.insertContact name number 0)
          showNotice [drawText 80 100 "Saved!".toList .xl "white"]

/-- `edit_contact_action`. -/
def editContactAction (ui : Ui) (contact : ContactRow) : UI Unit := do
  let nameInput : TextInput :=
    { title := "Edit Name".toList, prompt := "Name:".toList, text := contact.2.name }
  match ← nameInput.showModal ui with
  | none => pure ()
  | some newName =>
    let numInput : TextInput :=
      { title := "Edit Number".toList, prompt := "Number:".toList, text := contact.2.number }
    match ← numInput.showModal ui with
    | none => pure ()
    | some newNumber => do
      execute (.updateContact newName newNumber contact.1)
      showNotice [drawText 80 100 "Updated!".toList .xl "white"]

/-- `delete_contact_action`. -/
def deleteContactAction (contact : ContactRow) : UI Unit := do
  execute (.deleteContact contact.1)
  showNotice [drawText 50 100 "Erased".toList .xl "white"]

/-! ## Submenus -/

def contactOptions : List Text :=
  ["Call".toList, "Edit".toList, "Delete".toList, "Send number".toList]

/-- One iteration of `run_contact_options`. -/
def contactOptionsBody (ui : Ui) (contact : ContactRow) (optionsList : VerticalList) :
    UI (VerticalList ⊕ Unit) := do
  SoftKeyBar.app.update ui (some "Select".toList) true
  let (sel, optionsList) ← optionsList.showModal ui
  match sel with
  | none => pure (.inr ())
  | some 0 =>
    showNotice [drawText 10 80 "Calling...".toList .xl "white",
      drawText 10 115 contact.2.name .n "white", drawText 10 140 contact.2.number .s "white"]
    pure (.inl optionsList)
  | some 1 =>
    editContactAction ui contact
    pure (.inr ())
  | some 2 =>
    deleteContactAction contact
    pure (.inr ())
  | some 3 =>
    showNotice [drawText 50 100 "Sent!".toList .xl "white"]
    pure (.inl optionsList)
  | some _ => pure (.inl optionsList)

/-- `run_contact_options`. -/
def runContactOptions (ui : Ui) (contact : ContactRow) (headerRoot : Text) : UI Unit :=
  loop (contactOptionsBody ui contact)
    { title := contact.2.name, items := contactOptions, appId := headerRoot }

/-- One iteration of `run_options_submenu`: both entries only print. -/
def optionsSubmenuBody (ui : Ui) (optList : VerticalList) : UI (VerticalList ⊕ Unit) := do
  SoftKeyBar.app.update ui (some "Select".toList) true
  let (selection, optList) ← optList.showModal ui
  match selection with
  | none => pure (.inr ())
  | some _ => pure (.inl optList)

/-- `run_options_submenu`. -/
def runOptionsSubmenu (ui : Ui) : UI Unit :=
  loop (optionsSubmenuBody ui)
    { title := "Options".toList, items := ["Type of view".toList, "Memory status".toList],
      appId := "1-6".toList }

/-! ## Main menu -/

def mainItems : List Text :=
  ["Search".toList, "Add entry".toList, "Edit".toList, "Erase".toList, "Send entry".toList,
    "Options".toList, "1-touch dialing".toList]

/-- The Search branch of `run`. -/
def searchAction (ui : Ui) : UI Unit := do
  match ← TextInput.showModal ui { title := "Search".toList, prompt := "Name:".toList } with
  | none => pure ()
  | some query =>
    if query = [] then pure ()
    else
      match ← showContactSelector ui "Results".toList "Options".toList (some query) "1-1".toList with
      | none => pure ()
      | some (target, selectionIndex) =>
        runContactOptions ui target ("1-1-".toList ++ (toString (selectionIndex + 1)).toList)

/-- The Edit branch of `run`. -/
def editAction (ui : Ui) : UI Unit := do
  match ← showContactSelector ui "Edit".toList "Edit".toList none "1-3".toList with
  | none => pure ()
  | some (target, _) => editContactAction ui target

/-- The Erase branch of `run`. -/
def eraseAction (ui : Ui) : UI Unit := do
  match ← showContactSelector ui "Erase".toList "Erase".toList none "1-4".toList with
  | none => pure ()
  | some (target, _) => deleteContactAction target

/-- One iteration of `run`. -/
def runBody (ui : Ui) (mainList : VerticalList) : UI (VerticalList ⊕ Unit) := do
  SoftKeyBar.app.update ui (some "Select".toList) true
  let (selection, mainList) ← mainList.showModal ui
  match selection with
  | none => pure (.inr ())
  | some 0 =>
    searchAction ui
    pure (.inl mainList)
  | some 1 =>
    addEntryAction ui
    pure (.inl mainList)
  | some 2 =>
    editAction ui
    pure (.inl mainList)
  | some 3 =>
    eraseAction ui
    pure (.inl mainList)
  | some 5 =>
    runOptionsSubmenu ui
    pure (.inl mainList)
  | some _ => pure (.inl mainList)

/-- `run`. -/
def run (ui : Ui) : UI Unit :=
  loop (runBody ui) { title := "Phonebook".toList, items := mainItems, appId := "1".toList }

end PhoneBook

end NeoDCT
