import NeoDCT.Screen
import NeoDCT.Lib.Runs

/-!
# Booting

`init_databases` (core/main.py) over the life of a phone: boots, and edits of the user's tables in any
order.  A table that is missing is created; the phonebook is also given its default contact when it is
there and empty, so that

    a boot keeps every row       ↔  it finds no emptied phonebook                     (bootKeeps_iff)
    boots leave no trace at all  ↔  none of them finds an emptied phonebook           (erase_boots)
-/

namespace NeoDCT

open PyText Interactive

/-- The tables of `/NeoDCT/User/db`; `none` is one that does not exist. -/
structure UserDb where
  contacts : Option (AutoTable Contact)
  inbox : Option (AutoTable InboxMessage)
  outbox : Option (AutoTable OutboxMessage)
deriving DecidableEq

/-- What the phone runs on, as files. -/
def Db.files (d : Db) : UserDb := ⟨some d.contacts, d.inbox, d.outbox⟩

/-- A run of `init_databases`. -/
def UserDb.boot (u : UserDb) : UserDb := (initDatabases u.contacts u.inbox u.outbox).files

/-! ## One boot -/

/-- The phonebook with the one default contact. -/
def defaultContacts : AutoTable Contact :=
  AutoTable.empty.insert ⟨"NeoDCT Support".toList, "555-1234".toList, 2⟩

/-- A table that was there is there still, with its rows as they were. -/
def KeepsRows {ρ : Type} (before after : Option (AutoTable ρ)) : Prop :=
  ∀ t, before = some t → ∃ t', after = some t' ∧ t'.rows = t.rows

/-- Booting never changes user data. -/
structure BootKeeps (u : UserDb) : Prop where
  contacts : KeepsRows u.contacts u.boot.contacts
  inbox : KeepsRows u.inbox u.boot.inbox
  outbox : KeepsRows u.outbox u.boot.outbox
  newContacts : u.contacts = none → u.boot.contacts = some defaultContacts
  newInbox : u.inbox = none → u.boot.inbox = some .empty
  newOutbox : u.outbox = none → u.boot.outbox = some .empty
  again : ∀ n, UserDb.boot^[n] u.boot = u.boot

/-- The phonebook is there, and has no row. -/
def UserDb.Emptied (u : UserDb) : Prop := ∃ t, u.contacts = some t ∧ t.rows = []

theorem AutoTable.insert_rows_ne_nil {ρ : Type} (t : AutoTable ρ) (x : ρ) : (t.insert x).rows ≠ [] := by
  simp [AutoTable.insert]

/-! What a boot makes of each table. -/

theorem boot_contacts_emptied {u : UserDb} (h : (u.contacts.getD .empty).rows = []) :
    u.boot.contacts = some ((u.contacts.getD .empty).insert
      ⟨"NeoDCT Support".toList, "555-1234".toList, 2⟩) :=
  congrArg some (if_pos h)

theorem boot_contacts_kept {u : UserDb} (h : (u.contacts.getD .empty).rows ≠ []) :
    u.boot.contacts = some (u.contacts.getD .empty) :=
  congrArg some (if_neg h)

theorem boot_inbox (u : UserDb) : u.boot.inbox = some (u.inbox.getD .empty) := rfl

theorem boot_outbox (u : UserDb) : u.boot.outbox = some (u.outbox.getD .empty) := rfl

/-- After a boot the phonebook has a row. -/
theorem boot_contacts_ne_nil (u : UserDb) : ∃ t, u.boot.contacts = some t ∧ t.rows ≠ [] := by
  by_cases h : (u.contacts.getD .empty).rows = []
  · exact ⟨_, boot_contacts_emptied h, AutoTable.insert_rows_ne_nil _ _⟩
  · exact ⟨_, boot_contacts_kept h, h⟩

/-- Every table is there, and the phonebook is not empty. -/
structure UserDb.Ready (u : UserDb) : Prop where
  contacts : ∃ t, u.contacts = some t ∧ t.rows ≠ []
  inbox : u.inbox ≠ none
  outbox : u.outbox ≠ none

theorem boot_ready (u : UserDb) : u.boot.Ready where
  contacts := boot_contacts_ne_nil u
  inbox := by rw [boot_inbox]; exact Option.some_ne_none _
  outbox := by rw [boot_outbox]; exact Option.some_ne_none _

theorem boot_eq_self {u : UserDb} (h : u.Ready) : u.boot = u := by
  obtain ⟨⟨t, ht, hne⟩, hinbox, houtbox⟩ := h
  obtain ⟨contacts, inbox, outbox⟩ := u
  obtain rfl : contacts = some t := ht
  obtain ⟨inbox, rfl⟩ := Option.ne_none_iff_exists'.mp hinbox
  obtain ⟨outbox, rfl⟩ := Option.ne_none_iff_exists'.mp houtbox
  have hcontacts : UserDb.boot ⟨some t, some inbox, some outbox⟩ = ⟨_, some inbox, some outbox⟩ := rfl
  rw [hcontacts, UserDb.mk.injEq]
  exact ⟨congrArg some (if_neg hne), rfl, rfl⟩

theorem boot_iterate (u : UserDb) (n : Nat) : UserDb.boot^[n] u.boot = u.boot :=
  Function.iterate_fixed (boot_eq_self (boot_ready u)) n

theorem keepsRows_getD {ρ : Type} (t : Option (AutoTable ρ)) : KeepsRows t (some (t.getD .empty)) := by
  rintro _ rfl
  exact ⟨_, rfl, rfl⟩

theorem bootKeeps_iff (u : UserDb) : BootKeeps u ↔ ¬ u.Emptied := by
  constructor
  · rintro h ⟨t, ht, hrows⟩
    obtain ⟨t', ht', hrows'⟩ := h.contacts t ht
    obtain ⟨t'', ht'', hne⟩ := boot_contacts_ne_nil u
    rw [ht', Option.some.injEq] at ht''
    subst ht''
    exact hne (hrows'.trans hrows)
  · intro h
    constructor
    · intro t ht
      have hne : (u.contacts.getD .empty).rows ≠ [] := by
        rw [ht]
        exact fun hrows => h ⟨t, ht, hrows⟩
      rw [boot_contacts_kept hne, ht]
      exact ⟨t, rfl, rfl⟩
    · exact keepsRows_getD u.inbox
    · exact keepsRows_getD u.outbox
    · intro hnone
      rw [boot_contacts_emptied (by rw [hnone]; rfl), hnone]
      rfl
    · intro hnone
      rw [boot_inbox, hnone]
      rfl
    · intro hnone
      rw [boot_outbox, hnone]
      rfl
    · exact boot_iterate u

/-! ## The life of a phone -/

/-- What happens to the tables: a boot, or an edit of any kind. -/
inductive Happening where
  | boot
  | edit (f : UserDb → UserDb)

def UserDb.after (u : UserDb) : Happening → UserDb
  | .boot => u.boot
  | .edit f => f u

/-- If this is a boot, it changes no user data. -/
def UserDb.Unharmed (u : UserDb) : Happening → Prop
  | .boot => BootKeeps u
  | .edit _ => True

/-- If this is a boot, it finds no emptied phonebook. -/
def UserDb.NotEmptied (u : UserDb) : Happening → Prop
  | .boot => ¬ u.Emptied
  | .edit _ => True

/-- **Booting keeps user data** exactly when it finds no emptied phonebook: one boot on any tables, and
every boot among any edits. -/
theorem boots_keep_iff (u : UserDb) (happenings : List Happening) :
    (BootKeeps u ↔ ¬ u.Emptied) ∧
      (EveryStep UserDb.after UserDb.Unharmed u happenings ↔
        EveryStep UserDb.after UserDb.NotEmptied u happenings) := by
  refine ⟨bootKeeps_iff u, ?_⟩
  refine everyStep_iff (fun _ => True) (fun _ _ _ _ => trivial) ?_ trivial
  intro u happening _
  cases happening with
  | boot => exact bootKeeps_iff u
  | edit f => exact Iff.rfl

/-- The phonebook once its only contact is erased: the next boot gives the contact back. -/
theorem boot_changes_emptied :
    let u : UserDb := ⟨some (defaultContacts.delete 1), some .empty, some .empty⟩
    ¬ BootKeeps u ∧ u.boot.contacts ≠ u.contacts := by
  intro u
  have hrows : (defaultContacts.delete 1).rows = [] := rfl
  refine ⟨?_, ?_⟩
  · rw [bootKeeps_iff, not_not]
    exact ⟨_, rfl, hrows⟩
  · rw [boot_contacts_emptied (u := u) hrows]
    intro h
    have hseq := congrArg (Option.map AutoTable.seq) h
    cases hseq

/-! ## Boots among the statements of the apps -/

/-- A statement of an app, or a boot. -/
def Db.live (d : Db) : Option Stmt → Db
  | none => initDatabases (some d.contacts) d.inbox d.outbox
  | some stmt => stmt.run d

/-- If this is a boot, the phonebook has a row. -/
def Db.HasContacts (d : Db) (act : Option Stmt) : Prop := act = none → d.contacts.rows ≠ []

/-- How far a statement moves the id counter of the phonebook. -/
def Stmt.inserts : Stmt → ℤ
  | .insertContact _ _ _ => 1
  | _ => 0

theorem Stmt.run_seq (stmt : Stmt) (d : Db) :
    (stmt.run d).contacts.seq = d.contacts.seq + stmt.inserts := by
  cases stmt with
  | insertContact name number sd => rfl
  | _ => exact (Int.add_zero _).symm

theorem Db.live_boot_emptied {d : Db} (h : d.contacts.rows = []) :
    (d.live none).contacts.seq = d.contacts.seq + 1 :=
  congrArg AutoTable.seq (if_pos h)

theorem Db.live_boot_kept {d : Db} (h : d.contacts.rows ≠ []) (hinbox : d.inbox ≠ none)
    (houtbox : d.outbox ≠ none) : d.live none = d := by
  obtain ⟨contacts, inbox, outbox⟩ := d
  obtain ⟨inbox, rfl⟩ := Option.ne_none_iff_exists'.mp hinbox
  obtain ⟨outbox, rfl⟩ := Option.ne_none_iff_exists'.mp houtbox
  have hlive : Db.live ⟨contacts, some inbox, some outbox⟩ none = ⟨_, some inbox, some outbox⟩ := rfl
  rw [hlive, Db.mk.injEq]
  exact ⟨if_neg h, rfl, rfl⟩

/-- The messages stay where they are. -/
theorem Stmt.run_tables (stmt : Stmt) {d : Db} (hinbox : d.inbox ≠ none) (houtbox : d.outbox ≠ none) :
    (stmt.run d).inbox ≠ none ∧ (stmt.run d).outbox ≠ none := by
  cases stmt <;> simp [Stmt.run, hinbox, houtbox]

theorem Db.live_boot_seq_le (d : Db) : d.contacts.seq ≤ (d.live none).contacts.seq := by
  by_cases h : d.contacts.rows = []
  · rw [Db.live_boot_emptied h]
    omega
  · exact le_of_eq (congrArg AutoTable.seq (if_neg h)).symm

/-- The id counter of a phonebook that was given its contact again stays ahead. -/
theorem seq_ahead (acts : List (Option Stmt)) {d d' : Db} (h : d'.contacts.seq < d.contacts.seq) :
    (acts.reduceOption.foldl Stmt.run d').contacts.seq < (acts.foldl Db.live d).contacts.seq := by
  induction acts generalizing d d' with
  | nil => exact h
  | cons act acts ih =>
    cases act with
    | none =>
      apply ih
      exact lt_of_lt_of_le h d.live_boot_seq_le
    | some stmt =>
      apply ih
      rw [Stmt.run_seq]
      show d'.contacts.seq + _ < (Stmt.run d stmt).contacts.seq
      rw [Stmt.run_seq]
      omega

theorem erase_boots_from (acts : List (Option Stmt)) {d : Db} (hinbox : d.inbox ≠ none)
    (houtbox : d.outbox ≠ none) :
    acts.foldl Db.live d = acts.reduceOption.foldl Stmt.run d ↔ EveryStep Db.live Db.HasContacts d acts := by
  induction acts generalizing d with
  | nil => exact ⟨fun _ => everyStep_nil, fun _ => rfl⟩
  | cons act acts ih =>
    rw [everyStep_cons]
    cases act with
    | some stmt =>
      obtain ⟨hinbox', houtbox'⟩ := stmt.run_tables hinbox houtbox
      refine Iff.trans (ih hinbox' houtbox') ?_
      exact ⟨fun h => ⟨nofun, h⟩, fun h => h.2⟩
    | none =>
      rw [List.reduceOption_cons_of_none, List.foldl_cons]
      by_cases hrows : d.contacts.rows = []
      · -- from here on the id counter is ahead
        have hlt : d.contacts.seq < (d.live none).contacts.seq := by
          rw [Db.live_boot_emptied hrows]
          omega
        constructor
        · intro h
          have hahead := seq_ahead acts hlt
          rw [h] at hahead
          exact absurd hahead (lt_irrefl _)
        · intro h
          exact absurd hrows (h.1 rfl)
      · rw [Db.live_boot_kept hrows hinbox houtbox, ih hinbox houtbox]
        exact ⟨fun h => ⟨fun _ => hrows, h⟩, fun h => h.2⟩

/-- **Boots that leave no trace.**  After the first boot the tables end up as if the phone had never been
booted again, exactly when no boot finds the phonebook emptied. -/
theorem erase_boots (u : UserDb) (acts : List (Option Stmt)) :
    let d := initDatabases u.contacts u.inbox u.outbox
    acts.foldl Db.live d = acts.reduceOption.foldl Stmt.run d ↔
      EveryStep Db.live Db.HasContacts d acts := by
  intro d
  exact erase_boots_from acts (Option.some_ne_none _) (Option.some_ne_none _)

end NeoDCT
