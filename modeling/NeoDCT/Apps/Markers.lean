import NeoDCT.Apps.Mail
import NeoDCT.Framework.Selection

/-!
# The markers of the inbox

An inbox row is listed as `* sender` while its column `is_read` is 0, and no statement of the app writes
that column.  So an unread message keeps its marker after it was opened:

    the markers are right  ↔  no detail view of an unread message is left with Back   (marker_iff)

(A view that is left by erasing its message leaves no row to list.)  `Visited` is what a visit keeps: a
message that was opened and is still in the table is open now, or its view was left with Back.
-/

namespace NeoDCT

open Interactive

namespace Messages

/-! ## Opened messages -/

/-- The message was opened in the detail view. -/
def Opened (j : List Event) (id : ℤ) : Prop := ∃ frame, .detail "Inbox".toList (some id) frame ∈ j

/-- The view of the message was left with Back: the inbox was listed right after a frame of it. -/
def LeftWithBack (j : List Event) (id : ℤ) : Prop :=
  ∃ pre frame rows post,
    j = pre ++ .detail "Inbox".toList (some id) frame :: .fetchedInbox rows :: post

/-- The message was received, and its row says it was not read. -/
def Unread (w : World) (id : ℤ) : Prop :=
  ∃ row ∈ inboxRows w.db.inbox, row.1 = id ∧ row.2.isRead = 0

theorem Opened.of_snoc {j : List Event} {e : Event} {id : ℤ} (h : Opened (j ++ [e]) id)
    (he : ∀ frame, e ≠ .detail "Inbox".toList (some id) frame) : Opened j id := by
  obtain ⟨frame, hmem⟩ := h
  rcases List.mem_append.mp hmem with hmem | hmem
  · exact ⟨frame, hmem⟩
  · exact absurd (List.mem_singleton.mp hmem).symm (he frame)

theorem LeftWithBack.append {j : List Event} {id : ℤ} (h : LeftWithBack j id) (j' : List Event) :
    LeftWithBack (j ++ j') id := by
  obtain ⟨pre, frame, rows, post, rfl⟩ := h
  exact ⟨pre, frame, rows, post ++ j', by simp⟩

theorem viewed_detail (j : List Event) (id : ℤ) (frame : Frame) :
    viewed (j ++ [.detail "Inbox".toList (some id) frame]) = some id := by
  simp [viewedAfter]

/-- The view that is open when the inbox is listed is left by that listing. -/
theorem LeftWithBack.of_viewed {j post : List Event} {id : ℤ} {rows : List (ℤ × InboxMessage)}
    (hview : viewed j = some id) (hlist : viewed j = none ∨
      ∃ j' id frame, j = j' ++ [.detail "Inbox".toList (some id) frame]) :
    LeftWithBack (j ++ .fetchedInbox rows :: post) id := by
  rcases hlist with hnone | ⟨j', id', frame, rfl⟩
  · rw [hnone] at hview
    cases hview
  · rw [viewed_detail] at hview
    cases hview
    exact ⟨j', frame, rows, post, by simp⟩

theorem mem_inboxRows {t : AutoTable InboxMessage} {row : ℤ × InboxMessage} :
    row ∈ inboxRows (some t) ↔ row ∈ t.rows := by
  simp [inboxRows, byTimestamp]

/-- A row of the inbox is an unread message only if it says so, as ids are unique. -/
theorem Unread.isRead {w : World} {row : ℤ × InboxMessage} (h : Unread w row.1)
    (hmem : row ∈ inboxRows w.db.inbox) : row.2.isRead = 0 := by
  obtain ⟨row', hmem', hid, hread⟩ := h
  obtain ⟨t, ht, hrow⟩ := mem_byTimestamp hmem
  rw [ht, mem_inboxRows] at hmem'
  rw [AutoTable.eq_of_id_eq hrow hmem' hid.symm]
  exact hread

/-! ## What a visit keeps -/

/-- After the entries `j` of a run that found the table `t₀`, and left `t`. -/
structure Visited (t₀ : Option (AutoTable InboxMessage)) (j : List Event)
    (t : Option (AutoTable InboxMessage)) : Prop where
  rows : ∀ row ∈ inboxRows t, row ∈ inboxRows t₀
  opened : ∀ row ∈ inboxRows t, Opened j row.1 → viewed j = some row.1 ∨ LeftWithBack j row.1
  /-- The message of a frame that is last is there. -/
  last : ∀ j' id frame, j = j' ++ [.detail "Inbox".toList (some id) frame] →
    ∃ row ∈ inboxRows t, row.1 = id

theorem Visited.start (t : Option (AutoTable InboxMessage)) : Visited t [] t where
  rows _ h := h
  opened _ _ h := by simp [Opened] at h
  last _ _ _ h := by simp at h

section
variable {t₀ t : Option (AutoTable InboxMessage)} {j : List Event}

/-- An entry that is no frame of an inbox message is no last frame. -/
theorem not_last_frame {e : Event} (he : ∀ id frame, e ≠ .detail "Inbox".toList (some id) frame)
    {j' : List Event} {id : ℤ} {frame : Frame} :
    j ++ [e] ≠ j' ++ [.detail "Inbox".toList (some id) frame] := by
  intro heq
  obtain ⟨-, hlast⟩ := List.append_inj' heq rfl
  exact he id frame (List.singleton_inj.mp hlast)

theorem Visited.away (h : Visited t₀ j t) {e : Event} (haway : concernsInbox e = false) :
    Visited t₀ (j ++ [e]) t := by
  have he : ∀ id frame, e ≠ .detail "Inbox".toList (some id) frame := by
    rintro id frame rfl
    simp [concernsInbox] at haway
  refine ⟨h.rows, fun row hrow hopened => ?_, fun _ _ _ heq => absurd heq (not_last_frame he)⟩
  rw [viewed_snoc, viewedAfter_of_not haway]
  exact (h.opened row hrow (hopened.of_snoc (he row.1))).imp id fun hleft => hleft.append _

theorem Visited.list (h : Visited t₀ j t) (hlist : viewed j = none ∨
    ∃ j' id frame, j = j' ++ [.detail "Inbox".toList (some id) frame]) :
    Visited t₀ (j ++ [.fetchedInbox (inboxRows t)]) t := by
  refine ⟨h.rows, fun row hrow hopened => Or.inr ?_,
    fun _ _ _ heq => absurd heq (not_last_frame (by simp))⟩
  rcases h.opened row hrow (hopened.of_snoc (by simp)) with hview | hleft
  · exact .of_viewed hview hlist
  · exact hleft.append _

theorem Visited.frame {t : AutoTable InboxMessage} (h : Visited t₀ j (some t))
    {row : ℤ × InboxMessage} {frame : Frame} (hview : viewed j = none ∨ viewed j = some row.1)
    (hmem : row ∈ t.rows) :
    Visited t₀ (j ++ [.detail "Inbox".toList (some row.1) frame]) (some t) := by
  refine ⟨h.rows, fun row' hrow' hopened => ?_, fun j' id frame heq => ?_⟩
  · rw [viewed_detail]
    by_cases hid : row.1 = row'.1
    · exact Or.inl (congrArg some hid)
    -- another message: the view was not open on it
    refine Or.inr ?_
    rcases h.opened row' hrow' (hopened.of_snoc (by simp [hid])) with hview' | hleft
    · rw [hview'] at hview
      simp [Ne.symm hid] at hview
    · exact hleft.append _
  · obtain ⟨-, hlast⟩ := List.append_inj' heq rfl
    cases List.singleton_inj.mp hlast
    exact ⟨row, mem_inboxRows.mpr hmem, rfl⟩

theorem Visited.erase {t : AutoTable InboxMessage} (h : Visited t₀ j (some t)) {id : ℤ}
    (hview : viewed j = some id) :
    Visited t₀ (j ++ [.sql (.deleteInbox id)]) (some (t.delete id)) := by
  have hkept : ∀ row ∈ inboxRows (some (t.delete id)), row ∈ inboxRows (some t) ∧ row.1 ≠ id := by
    intro row hrow
    rw [mem_inboxRows] at hrow ⊢
    simpa [AutoTable.delete] using hrow
  refine ⟨fun row hrow => h.rows row (hkept row hrow).1, fun row hrow hopened => Or.inr ?_,
    fun _ _ _ heq => absurd heq (not_last_frame (by simp))⟩
  obtain ⟨hrow', hid⟩ := hkept row hrow
  rcases h.opened row hrow' (hopened.of_snoc (by simp)) with hview' | hleft
  · rw [hview] at hview'
    exact absurd (Option.some.inj hview').symm hid
  · exact hleft.append _

theorem Visited.step {t' : Option (AutoTable InboxMessage)} {e : Event} (h : Visited t₀ j t)
    (hs : Visit t j e t') : Visited t₀ (j ++ [e]) t' := by
  cases hs with
  | away haway => exact h.away haway
  | list hlist => exact h.list hlist
  | frame hview hmem => exact h.frame hview hmem
  | erase hview => exact h.erase hview

end

/-! ## Every run -/

/-- Every entry of a run is a visit, after the entries before it. -/
theorem visit_at (ui : Ui) (w : World) {pre post : List Event} {e : Event}
    (hlog : (finalState (run ui) w).log = w.log ++ pre ++ e :: post) :
    ∃ t t', Visited w.db.inbox pre t ∧ Visit t pre e t' := by
  have hrun := (finalState_of_wp (P := fun w' => Walk ui w.log w w') (run_spec ui w)).history
  obtain ⟨m, m', hpre, ⟨-, hvisit⟩, -⟩ := hrun.split hlog
  obtain ⟨j, hj, hvisited⟩ := hpre.invariant (fun j m => Visited w.db.inbox j m.inbox)
    (fun _ _ _ _ h hs => h.step (hs.2 _ rfl)) (Visited.start _)
  obtain rfl : pre = j := List.append_cancel_left hj
  exact ⟨m.inbox, m'.inbox, hvisited, hvisit pre rfl⟩

/-- A listing shows what a visit kept, and `* ` at every unread message. -/
theorem listing_spec (ui : Ui) (w : World) {pre post : List Event} {rows : List (ℤ × InboxMessage)}
    (hlog : (finalState (run ui) w).log = w.log ++ pre ++ .fetchedInbox rows :: post) :
    ∃ t, Visited w.db.inbox pre t ∧ rows = inboxRows t ∧
      (viewed pre = none ∨ ∃ j id frame, pre = j ++ [.detail "Inbox".toList (some id) frame]) ∧
      ∀ row ∈ rows, Unread w row.1 → inboxItem row = "* ".toList ++ row.2.sender := by
  obtain ⟨t, t', hvisited, hvisit⟩ := visit_at ui w hlog
  cases hvisit with
  | away h => cases h
  | list h =>
    refine ⟨t, hvisited, rfl, h, fun row hrow hunread => ?_⟩
    rw [inboxItem, if_neg]
    exact not_not.mpr (hunread.isRead (hvisited.rows row hrow))

/-- **Exactly when the markers are right**: whenever a run lists the inbox, a message received unread
has its `* ` if and only if it was never opened, exactly when no view of such a message is left with
Back. -/
theorem marker_iff (ui : Ui) (w : World) :
    let w' := finalState (run ui) w
    (∀ pre rows post, w'.log = w.log ++ pre ++ .fetchedInbox rows :: post →
      ∀ row ∈ rows, Unread w row.1 →
        (inboxItem row = "* ".toList ++ row.2.sender ↔ ¬ Opened pre row.1)) ↔
    ∀ j id, w'.log = w.log ++ j → LeftWithBack j id → ¬ Unread w id := by
  intro w'
  constructor
  · rintro hright j id hj ⟨pre, frame, rows, post, rfl⟩ hunread
    have hlog : w'.log =
        w.log ++ (pre ++ [.detail "Inbox".toList (some id) frame]) ++ .fetchedInbox rows :: post := by
      simpa using hj
    obtain ⟨t, hvisited, rfl, -, hmarker⟩ := listing_spec ui w hlog
    obtain ⟨row, hrow, rfl⟩ := hvisited.last pre id frame rfl
    refine (hright _ _ _ hlog row hrow hunread).mp (hmarker row hrow hunread) ?_
    exact ⟨frame, List.mem_append_right _ (List.mem_singleton_self _)⟩
  · intro hnone pre rows post hlog row hrow hunread
    obtain ⟨t, hvisited, rfl, hlist, hmarker⟩ := listing_spec ui w hlog
    refine iff_of_true (hmarker row hrow hunread) fun hopened => ?_
    have hj : w'.log = w.log ++ (pre ++ .fetchedInbox (inboxRows t) :: post) := by
      rw [hlog, List.append_assoc]
    refine hnone _ row.1 hj ?_ hunread
    rcases hvisited.opened row hrow hopened with hview | hleft
    · exact .of_viewed hview hlist
    · exact hleft.append _

def unreadMessage : InboxMessage := ⟨"hi".toList, "Bob".toList, 100, 0⟩

/-- One unread message waits; the inbox is entered, the message opened and left with Back. -/
def unreadPhone : World :=
  World.boot { initDatabases none none none with inbox := some (AutoTable.empty.insert unreadMessage) }
    [⟨1, none⟩, .press 2 28, .press 3 28, .press 4 14]

/-- The menu, the inbox, a frame of the message, and the inbox again. -/
theorem run_unreadPhone : ∃ frame, (finalState (run Ui.plain) unreadPhone).log =
    [.fetchedInbox [(1, unreadMessage)], .chose "Inbox".toList ["* Bob".toList] 0,
      .detail "Inbox".toList (some 1) frame, .fetchedInbox [(1, unreadMessage)]] := by
  let menu : PagedList := { title := "Messages".toList
                            items := ["Inbox".toList, "Outbox".toList, "Write Message".toList]
                            rootId := "2".toList }
  obtain ⟨ops, hops⟩ : ∃ ops, menu.drawOps Ui.plain = .ok ops :=
    PagedList.drawOps_ok Ui.plain (Or.inl rfl)
  have hdraw : menu.draw Ui.plain = (do paint ops; present) := by
    unfold PagedList.draw
    rw [hops]
    rfl
  have hshow : menu.showModal Ui.plain = (do
      flushInput
      (do paint ops; present)
      loop (PagedList.showBody Ui.plain) menu) := by
    rw [← hdraw]
    rfl
  show ∃ frame, (finalState (loopUpTo 5 (runBody Ui.plain) menu) unreadPhone).log = _
  rw [loopUpTo, runBody, hshow]
  exact ⟨_, rfl⟩

theorem marker_iff_not :
    let w' := finalState (run Ui.plain) unreadPhone
    ¬ ∀ pre rows post, w'.log = unreadPhone.log ++ pre ++ .fetchedInbox rows :: post →
      ∀ row ∈ rows, Unread unreadPhone row.1 →
        (inboxItem row = "* ".toList ++ row.2.sender ↔ ¬ Opened pre row.1) := by
  intro w' h
  obtain ⟨frame, hlog⟩ := run_unreadPhone
  have hunread : Unread unreadPhone 1 := ⟨(1, unreadMessage), by decide +kernel, rfl, rfl⟩
  refine (h [_, _, _] _ [] hlog _ (List.mem_singleton_self _) hunread).mp rfl ?_
  exact ⟨frame, by simp⟩

end Messages

end NeoDCT
