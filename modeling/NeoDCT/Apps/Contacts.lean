import NeoDCT.Apps.PhoneBook
import NeoDCT.Apps.Session

/-!
# What the PhoneBook app does to the contacts

`Change t l e t'` lists the ways entry `e` may follow the journal `l` and take the contacts from `t`
to `t'`.  A screen changes nothing; a write follows the completed prompts or the row picked for it:

    Add     [name confirmed, number confirmed]                         one new row
    Edit    [row picked, name confirmed, number confirmed]             two columns of that row
    Erase   [row picked]                                               that row is gone

Every run of the app is a history of such changes (`run_changes`).  Only an Edit with an empty text
can then leave an empty name or number in the table (`contacts_nonempty`).
-/

namespace NeoDCT

open PyText Interactive

namespace PhoneBook

/-! ## Changes -/

/-- The journal ends with a fetch of `t` and the choice of row `r` in a list with this title. -/
def Picked (t : AutoTable Contact) (title : String) (q : Option Text) (r : ContactRow)
    (l : List Event) : Prop :=
  ∃ pre i, (getAllContacts t q)[i]? = some r ∧
    l = pre ++ [.fetchedContacts q (getAllContacts t q),
      .chose title.toList ((getAllContacts t q).map fun row => row.2.name) i]

/-- The options of the row `r`, found by Search, are open: so far only `Call` and `Send number`
were chosen there. -/
inductive Opened (t : AutoTable Contact) (r : ContactRow) : List Event → Prop
  | found {q : Text} {l : List Event} : Picked t "Results" (some q) r l → Opened t r l
  | other {l : List Event} {j : Nat} : Opened t r l → j ≠ 1 → j ≠ 2 →
      Opened t r (l ++ [.chose r.2.name contactOptions j])

/-- The user selected `r` for editing. -/
def EditTarget (t : AutoTable Contact) (r : ContactRow) (l : List Event) : Prop :=
  Picked t "Edit" none r l ∨
    ∃ l', l = l' ++ [.chose r.2.name contactOptions 1] ∧ Opened t r l'

/-- The user selected `r` for erasing. -/
def EraseTarget (t : AutoTable Contact) (r : ContactRow) (l : List Event) : Prop :=
  Picked t "Erase" none r l ∨
    ∃ l', l = l' ++ [.chose r.2.name contactOptions 2] ∧ Opened t r l'

/-- Both prompts of an action were confirmed. -/
def prompts (nameTitle numberTitle : String) (name number : Text) : List Event :=
  [.confirmed nameTitle.toList "Name:".toList name,
    .confirmed numberTitle.toList "Number:".toList number]

inductive Change : AutoTable Contact → List Event → Event → AutoTable Contact → Prop
  | screen {t : AutoTable Contact} {l : List Event} {e : Event} (h : e.isScreen) : Change t l e t
  | add {t t' : AutoTable Contact} {l : List Event} {name number : Text} {id : ℤ}
      (hname : name ≠ []) (hnumber : number ≠ []) (hnew : ∀ s ∈ t.rows, s.1 < id)
      (hrows : t'.rows = t.rows ++ [(id, ⟨name, number, 0⟩)]) :
      Change t (l ++ prompts "Add Entry" "Add Entry" name number)
        (.sql (.insertContact name number 0)) t'
  | edit {t t' : AutoTable Contact} {l : List Event} {r : ContactRow} {name number : Text}
      (htarget : EditTarget t r l) (hmem : r ∈ t.rows)
      (hrows : t'.rows = t.rows.map fun s =>
        if s = r then (r.1, ⟨name, number, r.2.speedDial⟩) else s) :
      Change t (l ++ prompts "Edit Name" "Edit Number" name number)
        (.sql (.updateContact name number r.1)) t'
  | erase {t t' : AutoTable Contact} {l : List Event} {r : ContactRow}
      (htarget : EraseTarget t r l) (hmem : r ∈ t.rows)
      (hrows : t'.rows = t.rows.filter (· ≠ r)) : Change t l (.sql (.deleteContact r.1)) t'

abbrev Step := AppStep Change Db.contacts

/-- The app has not raised: it waits for a key. -/
abbrev Waits (w : World) (h : Halt PyError) (w' : World) : Prop := h = .waiting ∧ Step w w'

theorem Picked.mem {t : AutoTable Contact} {title : String} {q : Option Text} {r : ContactRow}
    {l : List Event} (h : Picked t title q r l) : r ∈ t.rows := by
  obtain ⟨_, _, hget, -⟩ := h
  exact mem_getAllContacts (List.mem_of_getElem? hget)

theorem Opened.mem {t : AutoTable Contact} {r : ContactRow} {l : List Event} (h : Opened t r l) :
    r ∈ t.rows := by
  induction h with
  | found h => exact h.mem
  | other _ _ _ ih => exact ih

theorem EditTarget.mem {t : AutoTable Contact} {r : ContactRow} {l : List Event}
    (h : EditTarget t r l) : r ∈ t.rows := by
  rcases h with h | ⟨_, -, h⟩
  · exact h.mem
  · exact h.mem

theorem EraseTarget.mem {t : AutoTable Contact} {r : ContactRow} {l : List Event}
    (h : EraseTarget t r l) : r ∈ t.rows := by
  rcases h with h | ⟨_, -, h⟩
  · exact h.mem
  · exact h.mem

/-! ## Each action is a change -/

theorem step_of_logged {evs : List Event} {w w' : World} (hevs : ∀ e ∈ evs, e.isScreen)
    (h : Logged evs w w') : Step w w' :=
  AppStep.of_logged (fun _ e he => .screen (hevs e he)) h

theorem step_of_drawn {w w' : World} (h : Drawn w w') : Step w w' := AppStep.of_quiet h.quiet

theorem textInput_screen (self : TextInput) (r : Option Text) : ∀ e ∈ [self.closed r], e.isScreen := by
  intro e he
  rw [List.mem_singleton] at he
  subst he
  cases r <;> rfl

theorem list_screen (self : VerticalList) (r : Option Nat) : ∀ e ∈ [self.closed r], e.isScreen := by
  intro e he
  rw [List.mem_singleton] at he
  subst he
  cases r <;> rfl

/-- A statement, then a notice. -/
theorem execute_notice_spec (stmt : Stmt) (ops : List DrawOp) (w : World)
    (h : Change w.db.contacts w.log (.sql stmt) (stmt.run w.db).contacts) :
    wp (do execute stmt; showNotice ops) (fun _ w' => Step w w') (Waits w) w := by
  refine wp_seq (execute_spec stmt w) (fun _ _ h => h) ?_
  rintro _ _ rfl
  refine wp_mono (showNotice_spec ops _) (fun _ w₁ hd => ?_) fun _ _ h => h
  exact (AppStep.of_execute h : Step _ _).trans (step_of_drawn hd)

/-- A field that is filled in, and what is done with the text. -/
theorem ask_spec (ui : Ui) (field : TextInput) {k : Option Text → UI Unit} {w w₁ : World}
    (hs : Step w w₁)
    (h : ∀ text w₂, Logged [field.closed text] w₁ w₂ → Step w w₂ →
      wp (k text) (fun _ w' => Step w w') (Waits w) w₂) :
    wp (field.showModal ui >>= k) (fun _ w' => Step w w') (Waits w) w₁ := by
  refine wp_seq (TextInput.showModal_logged ui field w₁)
    (fun _ _ h => ⟨h.1, hs.trans (AppStep.of_quiet h.2)⟩) ?_
  intro text w₂ hlog
  exact h text w₂ hlog (hs.trans (step_of_logged (textInput_screen _ _) hlog))

theorem addEntryAction_spec (ui : Ui) (w : World) :
    wp (addEntryAction ui) (fun _ w' => Step w w') (Waits w) w := by
  unfold addEntryAction
  refine ask_spec ui _ (AppStep.refl w) ?_
  intro name w₁ h₁ hs₁
  cases name with
  | none => exact hs₁
  | some name =>
    simp only []
    by_cases hname : name = []
    · rw [if_pos hname]
      exact hs₁
    rw [if_neg hname]
    refine ask_spec ui _ hs₁ ?_
    intro number w₂ h₂ hs₂
    cases number with
    | none => exact hs₂
    | some number =>
      simp only []
      by_cases hnumber : number = []
      · rw [if_pos hnumber]
        exact hs₂
      rw [if_neg hnumber]
      refine wp_mono (execute_notice_spec _ _ w₂ ?_) (fun _ _ h => hs₂.trans h)
        fun _ _ h => ⟨h.1, hs₂.trans h.2⟩
      rw [(h₁.trans h₂).log]
      exact .add hname hnumber (fun s hs => Int.lt_add_one_of_le (w₂.db.contacts.le_seq s hs)) rfl

theorem editContactAction_spec (ui : Ui) (r : ContactRow) (w : World)
    (h : EditTarget w.db.contacts r w.log) :
    wp (editContactAction ui r) (fun _ w' => Step w w') (Waits w) w := by
  unfold editContactAction
  refine ask_spec ui _ (AppStep.refl w) ?_
  intro name w₁ h₁ hs₁
  cases name with
  | none => exact hs₁
  | some name =>
    refine ask_spec ui _ hs₁ ?_
    intro number w₂ h₂ hs₂
    cases number with
    | none => exact hs₂
    | some number =>
      refine wp_mono (execute_notice_spec _ _ w₂ ?_) (fun _ _ h => hs₂.trans h)
        fun _ _ h => ⟨h.1, hs₂.trans h.2⟩
      rw [(h₁.trans h₂).log, (h₁.trans h₂).db]
      exact .edit h h.mem (AutoTable.update_rows h.mem _)

theorem deleteContactAction_spec (r : ContactRow) (w : World)
    (h : EraseTarget w.db.contacts r w.log) :
    wp (deleteContactAction r) (fun _ w' => Step w w') (Waits w) w :=
  execute_notice_spec _ _ w (.erase h h.mem (AutoTable.delete_rows h.mem))

/-! ## Submenus -/

/-- The selector only shows screens, and the row it returns was picked. -/
theorem showContactSelector_step (ui : Ui) (title : String) (btnText : Text) (q : Option Text)
    (root : Text) (w : World) :
    wp (showContactSelector ui title.toList btnText q root)
      (fun res w' => Step w w' ∧ ∀ r i, res = some (r, i) → Picked w'.db.contacts title q r w'.log)
      (Waits w) w := by
  refine wp_mono (showContactSelector_spec ui _ btnText q root w rfl rfl) ?_ ?_
  · rintro res w' (⟨-, rfl, h⟩ | ⟨-, sel, -, h, hres⟩)
    · exact ⟨step_of_logged (by simp [Event.isScreen]) h, by simp⟩
    · refine ⟨step_of_logged (fun e he => ?_) h, ?_⟩
      · rcases List.mem_cons.mp he with rfl | he
        · rfl
        · exact list_screen _ _ e he
      · rintro r i rfl
        cases sel with
        | none => simp at hres
        | some j =>
          obtain ⟨r', hget, heq⟩ := hres
          simp only [Option.some.injEq, Prod.mk.injEq] at heq
          obtain ⟨rfl, rfl⟩ := heq
          rw [h.db]
          exact ⟨w.log, i, hget, h.log⟩
  · rintro _ w' ⟨rfl, -, h, -⟩
    exact ⟨rfl, step_of_logged (by simp [Event.isScreen]) h⟩

/-- The invariant of `run_contact_options`. -/
def OptionsOpen (r : ContactRow) (list : VerticalList) (w : World) : Prop :=
  list.title = r.2.name ∧ list.items = contactOptions ∧ Opened w.db.contacts r w.log

theorem contactOptionsBody_spec (ui : Ui) (r : ContactRow) (list : VerticalList) (w : World)
    (h : OptionsOpen r list w) :
    wp (contactOptionsBody ui r list) (fun res w' => Step w w' ∧ res.elim
        (fun list' => OptionsOpen r list' w' ∧ w'.io.input.length < w.io.input.length)
        (fun _ => True)) (Waits w) w := by
  obtain ⟨htitle, hitems, hopen⟩ := h
  unfold contactOptionsBody
  refine wp_seq (SoftKeyBar.update_spec ui _ _ _ w) (fun _ _ h => h) ?_
  intro _ w₀ hd
  refine wp_seq (VerticalList.showModal_logged ui list w₀)
    (fun _ _ h => ⟨h.1, (step_of_drawn hd).trans (AppStep.of_quiet h.2)⟩) ?_
  rintro ⟨sel, list'⟩ w₁ ⟨hlog, ⟨hs₁, hs₂, -⟩, hlt⟩
  have h₁ := hd.quiet.trans_logged hlog
  have hstep : Step w w₁ := step_of_logged (list_screen _ _) h₁
  rw [hd.input] at hlt
  -- an entry that is neither Edit nor Delete shows a notice at most, and the menu stays open
  have stay : ∀ j w₂, sel = some j → j ≠ 1 → j ≠ 2 → Drawn w₁ w₂ →
      Step w w₂ ∧ OptionsOpen r list' w₂ ∧ w₂.io.input.length < w.io.input.length := by
    rintro j w₂ rfl h1 h2 hd₂
    refine ⟨hstep.trans (step_of_drawn hd₂), ⟨hs₁.trans htitle, hs₂.trans hitems, ?_⟩, ?_⟩
    · have h₂ := h₁.trans_quiet hd₂.quiet
      rw [h₂.db, h₂.log, VerticalList.closed, htitle, hitems]
      exact hopen.other h1 h2
    · rw [hd₂.input]
      exact hlt
  -- Edit and Delete leave the menu after their action
  have leave : ∀ {p : UI Unit}, wp p (fun _ w' => Step w₁ w') (Waits w₁) w₁ →
      wp (do p; pure (.inr ()) : UI (VerticalList ⊕ Unit)) (fun res w' => Step w w' ∧ res.elim
        (fun list' => OptionsOpen r list' w' ∧ w'.io.input.length < w.io.input.length)
        (fun _ => True)) (Waits w) w₁ := fun hp =>
    wp_seq hp (fun _ _ h => ⟨h.1, hstep.trans h.2⟩) fun _ _ h => ⟨hstep.trans h, trivial⟩
  -- Back, Call, Edit, Delete, Send number, any other index
  rcases sel with _ | _ | _ | _ | _ | n
  · exact ⟨hstep, trivial⟩
  · refine wp_seq (showNotice_spec _ w₁) (fun _ _ h => h) ?_
    intro _ w₂ hd₂
    exact stay 0 w₂ rfl (by decide) (by decide) hd₂
  · refine leave (editContactAction_spec ui r w₁ (Or.inr ⟨w.log, ?_, by rw [h₁.db]; exact hopen⟩))
    rw [h₁.log, VerticalList.closed, htitle, hitems]
  · refine leave (deleteContactAction_spec r w₁ (Or.inr ⟨w.log, ?_, by rw [h₁.db]; exact hopen⟩))
    rw [h₁.log, VerticalList.closed, htitle, hitems]
  · refine wp_seq (showNotice_spec _ w₁) (fun _ _ h => h) ?_
    intro _ w₂ hd₂
    exact stay 3 w₂ rfl (by decide) (by decide) hd₂
  · exact stay (n + 4) w₁ rfl (by omega) (by omega) (Drawn.refl w₁)

theorem runContactOptions_spec (ui : Ui) (r : ContactRow) (root : Text) (w : World) {q : Text}
    (h : Picked w.db.contacts "Results" (some q) r w.log) :
    wp (runContactOptions ui r root) (fun _ w' => Step w w') (Waits w) w :=
  wp_mono (AppStep.of_loop (· = .waiting) (fun _ _ => True) (OptionsOpen r) (contactOptionsBody_spec ui r)
    ⟨rfl, rfl, .found h⟩) (fun _ _ h => h.1) fun _ _ h => h

/-- A menu, and what is done with the choice. -/
theorem menu_spec {α : Type} (ui : Ui) (newText : Option Text) (presentNow : Bool) (list : VerticalList)
    {k : Option Nat × VerticalList → UI α} {Q : α → World → Prop} {w : World}
    (h : ∀ r w₁, Step w w₁ → w₁.io.input.length < w.io.input.length → wp (k r) Q (Waits w) w₁) :
    wp (do
        SoftKeyBar.app.update ui newText presentNow
        let r ← list.showModal ui
        k r) Q (Waits w) w := by
  refine wp_seq (SoftKeyBar.update_spec ui _ _ _ w) (fun _ _ h => h) ?_
  intro _ w₀ hd
  refine wp_seq (VerticalList.showModal_logged ui list w₀)
    (fun _ _ h => ⟨h.1, (step_of_drawn hd).trans (AppStep.of_quiet h.2)⟩) ?_
  rintro r w₁ ⟨hlog, -, hlt⟩
  rw [hd.input] at hlt
  exact h r w₁ (step_of_logged (list_screen _ _) (hd.quiet.trans_logged hlog)) hlt

theorem runOptionsSubmenu_spec (ui : Ui) (w : World) :
    wp (runOptionsSubmenu ui) (fun _ w' => Step w w') (Waits w) w := by
  refine wp_mono (AppStep.of_loop (· = .waiting) (fun _ _ => True) (fun _ _ => True) (fun list w _ => ?_) trivial)
    (fun _ _ h => h.1) fun _ _ h => h
  unfold optionsSubmenuBody
  refine menu_spec ui _ _ list ?_
  rintro ⟨sel, list'⟩ w₁ hstep hlt
  cases sel with
  | none => exact ⟨hstep, trivial⟩
  | some _ => exact ⟨hstep, trivial, hlt⟩

/-! ## Main menu -/

theorem searchAction_spec (ui : Ui) (w : World) :
    wp (searchAction ui) (fun _ w' => Step w w') (Waits w) w := by
  unfold searchAction
  refine ask_spec ui _ (AppStep.refl w) ?_
  intro query w₁ _ hs₁
  cases query with
  | none => exact hs₁
  | some query =>
    simp only []
    by_cases hq : query = []
    · rw [if_pos hq]
      exact hs₁
    rw [if_neg hq]
    refine wp_seq (showContactSelector_step ui "Results" _ _ _ w₁)
      (fun _ _ h => ⟨h.1, hs₁.trans h.2⟩) ?_
    rintro res w₂ ⟨hs₂, hpick⟩
    have hs := hs₁.trans hs₂
    match res with
    | none => exact hs
    | some (r, i) =>
      exact wp_mono (runContactOptions_spec ui r _ w₂ (hpick r i rfl)) (fun _ _ h => hs.trans h)
        fun _ _ h => ⟨h.1, hs.trans h.2⟩

theorem editAction_spec (ui : Ui) (w : World) :
    wp (editAction ui) (fun _ w' => Step w w') (Waits w) w := by
  refine wp_seq (showContactSelector_step ui "Edit" _ none _ w) (fun _ _ h => h) ?_
  rintro res w₁ ⟨hs, hpick⟩
  match res with
  | none => exact hs
  | some (r, i) =>
    exact wp_mono (editContactAction_spec ui r w₁ (Or.inl (hpick r i rfl)))
      (fun _ _ h => hs.trans h) fun _ _ h => ⟨h.1, hs.trans h.2⟩

theorem eraseAction_spec (ui : Ui) (w : World) :
    wp (eraseAction ui) (fun _ w' => Step w w') (Waits w) w := by
  refine wp_seq (showContactSelector_step ui "Erase" _ none _ w) (fun _ _ h => h) ?_
  rintro res w₁ ⟨hs, hpick⟩
  match res with
  | none => exact hs
  | some (r, i) =>
    exact wp_mono (deleteContactAction_spec r w₁ (Or.inl (hpick r i rfl)))
      (fun _ _ h => hs.trans h) fun _ _ h => ⟨h.1, hs.trans h.2⟩

theorem runBody_spec (ui : Ui) (list : VerticalList) (w : World) :
    wp (runBody ui list) (fun res w' => Step w w' ∧ res.elim
        (fun _ => True ∧ w'.io.input.length < w.io.input.length) (fun _ => True))
      (Waits w) w := by
  unfold runBody
  refine menu_spec ui _ _ list ?_
  rintro ⟨sel, list'⟩ w₁ hstep hlt
  -- every entry runs its action and comes back to the menu
  have back : ∀ {p : UI Unit}, wp p (fun _ w' => Step w₁ w') (Waits w₁) w₁ →
      wp (do p; pure (.inl list') : UI (VerticalList ⊕ Unit)) (fun res w' => Step w w' ∧ res.elim
        (fun _ => True ∧ w'.io.input.length < w.io.input.length) (fun _ => True))
        (Waits w) w₁ := fun hp =>
    wp_seq hp (fun _ _ h => ⟨h.1, hstep.trans h.2⟩) fun _ _ h =>
      ⟨hstep.trans h, trivial, lt_of_le_of_lt h.input hlt⟩
  match sel with
  | none => exact ⟨hstep, trivial⟩
  | some 0 => exact back (searchAction_spec ui w₁)
  | some 1 => exact back (addEntryAction_spec ui w₁)
  | some 2 => exact back (editAction_spec ui w₁)
  | some 3 => exact back (eraseAction_spec ui w₁)
  | some 4 => exact ⟨hstep, trivial, hlt⟩
  | some 5 => exact back (runOptionsSubmenu_spec ui w₁)
  | some (n + 6) => exact ⟨hstep, trivial, hlt⟩

theorem run_spec (ui : Ui) (w : World) :
    wp (run ui) (fun _ w' => Step w w') (Waits w) w :=
  wp_mono (AppStep.of_loop (· = .waiting) (fun _ _ => True) (fun _ _ => True) (fun b w _ => runBody_spec ui b w)
    trivial) (fun _ _ h => h.1) fun _ _ h => h

/-! ## Every run -/

/-- A screen left without confirming anything. -/
def IsCancel : Event → Prop
  | .back _ _ | .cancelled _ _ => True
  | _ => False

theorem Picked.last {t : AutoTable Contact} {title : String} {q : Option Text} {r : ContactRow}
    {l : List Event} (h : Picked t title q r l) : ∃ pre e, l = pre ++ [e] ∧ ¬ IsCancel e := by
  obtain ⟨pre, i, -, rfl⟩ := h
  exact ⟨pre ++ [_], _, by rw [List.append_assoc]; rfl, id⟩

/-- A write follows something that was confirmed. -/
theorem Change.last {t t' : AutoTable Contact} {l : List Event} {stmt : Stmt}
    (h : Change t l (.sql stmt) t') : ∃ pre e, l = pre ++ [e] ∧ ¬ IsCancel e := by
  cases h with
  | screen h => cases h
  | add _ _ _ _ => exact ⟨_ ++ [_], _, by rw [prompts, List.append_assoc]; rfl, id⟩
  | edit _ _ _ => exact ⟨_ ++ [_], _, by rw [prompts, List.append_assoc]; rfl, id⟩
  | erase htarget _ _ =>
    rcases htarget with h | ⟨pre, rfl, -⟩
    · exact h.last
    · exact ⟨pre, _, rfl, id⟩

/-- **The contacts change only as the user completes an action**, at every moment of every run; and
no write follows a prompt or a list that was left without confirming. -/
theorem run_changes (ui : Ui) (w : World) :
    History Change w.log w.db.contacts
      (finalState (run ui) w).log (finalState (run ui) w).db.contacts ∧
    ∀ pre e stmt post,
      (finalState (run ui) w).log = w.log ++ (pre ++ [e]) ++ .sql stmt :: post → ¬ IsCancel e := by
  have hrun : History Change w.log w.db.contacts
      (finalState (run ui) w).log (finalState (run ui) w).db.contacts :=
    finalState_of_wp (P := fun w' => History Change w.log w.db.contacts w'.log w'.db.contacts)
      (wp_mono (run_spec ui w) (fun _ _ h => h.history) fun _ _ h => h.2.history)
  refine ⟨hrun, fun pre e stmt post hl => ?_⟩
  obtain ⟨t, t', -, hc, -⟩ := hrun.split hl
  obtain ⟨pre', e', heq, hne⟩ := hc.last
  rw [← List.append_assoc] at heq
  obtain ⟨-, he⟩ := List.append_inj' heq rfl
  obtain rfl : e = e' := by simpa using he
  exact hne

/-! ## Empty names and numbers -/

/-- Every name and every number has at least one character. -/
def Named (t : AutoTable Contact) : Prop := ∀ r ∈ t.rows, r.2.name ≠ [] ∧ r.2.number ≠ []

/-- An Edit is completed, and the text of one of its two prompts was empty at its OK. -/
def emptyEdit : Event → Event → Bool
  | .confirmed title _ name, .confirmed title' _ number =>
    title = "Edit Name".toList && title' = "Edit Number".toList && (name = [] || number = [])
  | _, _ => false

/-- No Edit in the journal was completed with an empty text. -/
abbrev NoEmptyEdit (l : List Event) : Prop := l.IsChain fun e e' => emptyEdit e e' = false

theorem Change.named {t t' : AutoTable Contact} {l : List Event} {e : Event} (ht : Named t)
    (h : Change t l e t') (hok : NoEmptyEdit (l ++ [e])) : Named t' := by
  cases h with
  | screen _ => exact ht
  | add hname hnumber _ hrows =>
    intro r hr
    rw [hrows, List.mem_append, List.mem_singleton] at hr
    rcases hr with hr | rfl
    · exact ht r hr
    · exact ⟨hname, hnumber⟩
  | @edit _ l s name number _ _ hrows =>
    have hne : name ≠ [] ∧ number ≠ [] := by
      have hchain : NoEmptyEdit (prompts "Edit Name" "Edit Number" name number) :=
        hok.left_of_append.right_of_append
      simpa [NoEmptyEdit, prompts, emptyEdit] using hchain
    intro r hr
    rw [hrows, List.mem_map] at hr
    obtain ⟨s', hs', rfl⟩ := hr
    split
    · exact hne
    · exact ht s' hs'
  | erase _ _ hrows =>
    intro r hr
    rw [hrows] at hr
    exact ht r (List.mem_of_mem_filter hr)

/-- The app, opened `n` times in a row. -/
def sessions (ui : Ui) : Nat → UI Unit
  | 0 => pure ()
  | n + 1 => do
    run ui
    sessions ui n

theorem sessions_spec (ui : Ui) (n : Nat) (w : World) :
    wp (sessions ui n) (fun _ w' => Step w w') (Waits w) w := by
  induction n generalizing w with
  | zero => exact AppStep.refl w
  | succ n ih =>
    refine wp_seq (run_spec ui w) (fun _ _ h => h) ?_
    intro _ w₁ h₁
    exact wp_mono (ih w₁) (fun _ _ h => h₁.trans h) fun _ _ h => ⟨h.1, h₁.trans h.2⟩

/-- **Every name and number stays non-empty** from the table of `init_databases`, at every moment of
every run, if no Edit is completed while one of its texts is empty. -/
theorem contacts_nonempty (ui : Ui) (n : Nat) (w : World)
    (hdb : w.db.contacts = (initDatabases none none none).contacts)
    (hok : NoEmptyEdit (finalState (sessions ui n) w).log) :
    ∀ r ∈ (finalState (sessions ui n) w).db.contacts.rows, r.2.name ≠ [] ∧ r.2.number ≠ [] := by
  have hrun : Step w (finalState (sessions ui n) w) := finalState_of_wp
    (wp_mono (sessions_spec ui n w) (fun _ _ h => h) fun _ _ h => h.2)
  have h := hrun.history
  refine h.keeps Named NoEmptyEdit (fun l e hl => hl.left_of_append)
    (fun _ _ _ _ hs hstep hl => hstep.named hs hl) ?_ hok
  rw [hdb]
  unfold Named
  decide

/-- The user renames the default contact. -/
theorem contacts_nonempty_renamed :
    let input := ([4, 2, 48, 28, 28, 14].map (Poll.press 1))
    let w := World.boot (initDatabases none none none) input
    ∀ r ∈ (finalState (sessions Ui.plain 1) w).db.contacts.rows, r.2.name ≠ [] ∧ r.2.number ≠ [] :=
  contacts_nonempty Ui.plain 1 _ rfl (by decide +kernel)

/-- Backspace until the name of the default contact is empty, then OK twice. -/
theorem contacts_nonempty_cleared :
    let input := ([4, 2] ++ List.replicate 14 14 ++ [28, 28]).map (Poll.press 1)
    let w := World.boot (initDatabases none none none) input
    ¬ ∀ r ∈ (finalState (sessions Ui.plain 1) w).db.contacts.rows,
      r.2.name ≠ [] ∧ r.2.number ≠ [] := by
  decide +kernel

end PhoneBook

end NeoDCT
