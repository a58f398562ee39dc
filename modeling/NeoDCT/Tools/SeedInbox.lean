import NeoDCT.Apps.Messages
import NeoDCT.Lib.Random
import NeoDCT.Lib.StableSort

/-!
# Seeding the inbox

tools/debug_sms_seed_inbox.py: messages of words drawn at random, a second apart from now on.  Whatever is
drawn, all of them are added or none (`seedInbox_adds`), and the Messages app lists them above the others, the
last one first, where the others are older than now and not where one is newer (`seeded_above`): a second seeding
within as many seconds as the first had messages lists them mixed (`seeded_above_twice`).
-/

namespace NeoDCT.SeedInbox

open PyText PyRandom Interactive StableSort Messages

/-! ## The tool -/

/-- `WORDS`. -/
def words : List Text :=
  ["alpha", "bravo", "charlie", "delta", "echo", "foxtrot", "golf", "hotel", "india", "juliet", "kilo",
    "lima", "mike", "november", "oscar", "papa", "quebec", "romeo", "sierra", "tango", "uniform", "victor",
    "whiskey", "xray", "yankee", "zulu"].map String.toList

inductive SeedError where
  | valueError
deriving DecidableEq, Repr

/-- `random.sample`, of a list that has so many elements: some of them, each once, in an order of its own. -/
structure Sampler (σ : Type) where
  sample : {α : Type} → List α → ℕ → StateM σ (List α)
  sample_take : ∀ {α : Type} (xs : List α) (k : ℕ) (s : σ), k ≤ xs.length →
    ∃ ys : List α, ys.Perm xs ∧ ((sample xs k).run s).1 = ys.take k

section
variable {σ : Type} (r : Sampler σ)

/-- `random.sample(pool, k)`. -/
def drawSample (pool : List Text) (k : ℤ) : ExceptT SeedError (StateM σ) (List Text) :=
  if k < 0 ∨ (pool.length : ℤ) < k then throw .valueError else r.sample pool k.toNat

/-- The loop of `iter_messages`. -/
def drawMessages (pool : List Text) (wordsPerMessage : ℤ) : ℕ → ExceptT SeedError (StateM σ) (List Text)
  | 0 => pure []
  | count + 1 => do
    let message := joinSpace (← drawSample r pool wordsPerMessage)
    let messages ← drawMessages pool wordsPerMessage count
    pure (message :: messages)

/-- `iter_messages`. -/
def iterMessages (pool : List Text) (count wordsPerMessage : ℤ) : ExceptT SeedError (StateM σ) (List Text) :=
  if (pool.length : ℤ) < wordsPerMessage then throw .valueError
  else drawMessages r pool wordsPerMessage count.toNat

/-- `rows`. -/
def seedRows (sender : Text) (now : ℤ) (messages : List Text) : List InboxMessage :=
  messages.mapIdx fun idx message => ⟨message, sender, now + idx, 0⟩

/-- `seed_inbox`, on the table that its file holds, if there is one; what it returns, and the table after it. -/
def seedInbox (inbox : Option (AutoTable InboxMessage)) (sender : Text) (count wordsPerMessage now : ℤ) :
    StateM σ (Except SeedError ℤ × AutoTable InboxMessage) := do
  let table := inbox.getD .empty
  match ← (iterMessages r words count wordsPerMessage).run with
  | .error e => pure (.error e, table)
  | .ok messages => pure (.ok count, (seedRows sender now messages).foldl .insert table)

end

/-! ## What is drawn -/

/-- What is run behind a draw, and behind one that fails. -/
theorem run_bind_ok {ε σ α β : Type} {x : ExceptT ε (StateM σ) α} {f : α → ExceptT ε (StateM σ) β} {s s' : σ}
    {a : α} (h : x.run.run s = (.ok a, s')) : (x >>= f).run.run s = (f a).run.run s' := by
  simp only [ExceptT.run_bind, StateT.run_bind, h]
  rfl

theorem run_bind_error {ε σ α β : Type} {x : ExceptT ε (StateM σ) α} {f : α → ExceptT ε (StateM σ) β} {s s' : σ}
    {e : ε} (h : x.run.run s = (.error e, s')) : (x >>= f).run.run s = (.error e, s') := by
  simp only [ExceptT.run_bind, StateT.run_bind, h]
  rfl

/-- A message of so many words of the pool, each once. -/
def IsMessage (pool : List Text) (n : ℕ) (message : Text) : Prop :=
  ∃ ws : List Text, ws.Nodup ∧ ws ⊆ pool ∧ ws.length = n ∧ message = joinSpace ws

section
variable {σ : Type} {r : Sampler σ} {pool : List Text} {k : ℤ}

theorem drawSample_ok (hnodup : pool.Nodup) (hk : 0 ≤ k) (hle : k ≤ pool.length) (s : σ) :
    ∃ ws s', (drawSample r pool k).run.run s = (.ok ws, s') ∧ ws.Nodup ∧ ws ⊆ pool ∧ ws.length = k.toNat := by
  obtain ⟨ys, hperm, htake⟩ := r.sample_take pool k.toNat s (by omega)
  have hif : ¬ (k < 0 ∨ (pool.length : ℤ) < k) := by omega
  unfold drawSample
  rw [if_neg hif]
  refine ⟨((r.sample pool k.toNat).run s).1, ((r.sample pool k.toNat).run s).2, rfl, ?_, ?_, ?_⟩
  · rw [htake]
    exact (hperm.nodup_iff.mpr hnodup).sublist (List.take_sublist _ _)
  · rw [htake]
    exact fun w hw => hperm.mem_iff.mp (List.mem_of_mem_take hw)
  · rw [htake, List.length_take, hperm.length_eq]
    omega

theorem drawSample_error (h : k < 0 ∨ (pool.length : ℤ) < k) (s : σ) :
    (drawSample r pool k).run.run s = (.error .valueError, s) := by
  unfold drawSample
  rw [if_pos h]
  rfl

theorem drawMessages_ok (hnodup : pool.Nodup) (hk : 0 ≤ k) (hle : k ≤ pool.length) (count : ℕ) (s : σ) :
    ∃ messages s', (drawMessages r pool k count).run.run s = (.ok messages, s') ∧
      messages.length = count ∧ ∀ m ∈ messages, IsMessage pool k.toNat m := by
  induction count generalizing s with
  | zero => exact ⟨[], s, rfl, rfl, fun _ h => nomatch h⟩
  | succ count ih =>
    obtain ⟨ws, s₁, hdraw, hws⟩ := drawSample_ok (r := r) hnodup hk hle s
    obtain ⟨messages, s₂, hrest, hlength, hmessages⟩ := ih s₁
    refine ⟨joinSpace ws :: messages, s₂, ?_, by rw [List.length_cons, hlength], ?_⟩
    · rw [drawMessages, run_bind_ok hdraw, run_bind_ok hrest]
      rfl
    · rw [List.forall_mem_cons]
      exact ⟨⟨ws, hws.1, hws.2.1, hws.2.2, rfl⟩, hmessages⟩

theorem words_nodup : words.Nodup := by decide

/-- When the messages can be drawn: so many words there are, and no fewer than none if any are drawn. -/
def Drawable (count wordsPerMessage : ℤ) : Prop :=
  wordsPerMessage ≤ words.length ∧ (0 ≤ wordsPerMessage ∨ count ≤ 0)

theorem iterMessages_ok {count : ℤ} (h : Drawable count k) (s : σ) :
    ∃ messages s', (iterMessages r words count k).run.run s = (.ok messages, s') ∧
      messages.length = count.toNat ∧ ∀ m ∈ messages, IsMessage words k.toNat m := by
  obtain ⟨hle, hk⟩ := h
  unfold iterMessages
  rw [if_neg (by omega)]
  rcases hk with hk | hcount
  · exact drawMessages_ok words_nodup hk hle count.toNat s
  · have hzero : count.toNat = 0 := by omega
    rw [hzero]
    exact ⟨[], s, rfl, rfl, fun _ h => nomatch h⟩

theorem iterMessages_error {count : ℤ} (h : ¬ Drawable count k) (s : σ) :
    (iterMessages r words count k).run.run s = (.error .valueError, s) := by
  unfold Drawable at h
  unfold iterMessages
  by_cases hle : (words.length : ℤ) < k
  · rw [if_pos hle]
    rfl
  · rw [if_neg hle]
    obtain ⟨n, hn⟩ : ∃ n, count.toNat = n + 1 := ⟨count.toNat - 1, by omega⟩
    rw [hn, drawMessages]
    exact run_bind_error (drawSample_error (by omega) s)

end

/-! ## What is added -/

section
variable {σ : Type}

theorem seedInbox_error (inbox : Option (AutoTable InboxMessage)) (sender : Text) {count k : ℤ} (now : ℤ)
    (h : ¬ Drawable count k) (r : Sampler σ) (s : σ) :
    (seedInbox r inbox sender count k now).run s = ((.error .valueError, inbox.getD .empty), s) := by
  unfold seedInbox
  simp only [StateT.run_bind, iterMessages_error h s]
  rfl

theorem seedInbox_ok (inbox : Option (AutoTable InboxMessage)) (sender : Text) {count k : ℤ} (now : ℤ)
    (h : Drawable count k) (r : Sampler σ) (s : σ) :
    ∃ messages s', (seedInbox r inbox sender count k now).run s =
        ((.ok count, (seedRows sender now messages).foldl .insert (inbox.getD .empty)), s') ∧
      messages.length = count.toNat ∧ ∀ m ∈ messages, IsMessage words k.toNat m := by
  obtain ⟨messages, s', hrun, hmessages⟩ := iterMessages_ok (r := r) h s
  refine ⟨messages, s', ?_, hmessages⟩
  unfold seedInbox
  simp only [StateT.run_bind, hrun]
  rfl

/-- **All of the messages or none**: a seeding that fails leaves the rows alone, and one that does not adds as
many messages as it says behind them. -/
theorem seedInbox_adds (r : Sampler σ) (inbox : Option (AutoTable InboxMessage)) (sender : Text)
    (count k now : ℤ) (s : σ) :
    let out := ((seedInbox r inbox sender count k now).run s).1
    (¬ Drawable count k → out = (.error .valueError, inbox.getD .empty)) ∧
      (Drawable count k → out.1 = .ok count ∧
        ∃ messages new, out.2.rows = (inbox.getD .empty).rows ++ new ∧
          new.map Prod.snd = seedRows sender now messages ∧ messages.length = count.toNat ∧
          ∀ m ∈ messages, IsMessage words k.toNat m) := by
  refine ⟨fun h => by rw [seedInbox_error inbox sender now h r s], fun h => ?_⟩
  obtain ⟨messages, s', hrun, hlength, hmessages⟩ := seedInbox_ok inbox sender now h r s
  rw [hrun]
  obtain ⟨new, hrows, hnew⟩ := (inbox.getD .empty).foldl_insert_rows (seedRows sender now messages)
  exact ⟨rfl, messages, new, hrows, hnew, hlength, hmessages⟩

end

/-! ## Where the messages are listed -/

/-- The key of `ORDER BY timestamp DESC`. -/
def newestFirst (row : ℤ × InboxMessage) : ℤᵒᵈ := OrderDual.toDual row.2.timestamp

theorem inboxRows_some (t : AutoTable InboxMessage) : inboxRows (some t) = sortBy newestFirst t.rows := rfl

theorem inboxRows_getD (inbox : Option (AutoTable InboxMessage)) :
    inboxRows inbox = sortBy newestFirst (inbox.getD .empty).rows := by
  cases inbox with
  | none => rfl
  | some t => rfl

/-- Each of the messages is a second newer than the one before it. -/
theorem pairwise_seeded {sender : Text} {now : ℤ} {messages : List Text} {new : List (ℤ × InboxMessage)}
    (hnew : new.map Prod.snd = seedRows sender now messages) :
    new.Pairwise fun a b => a.2.timestamp < b.2.timestamp := by
  have hrows : (seedRows sender now messages).Pairwise fun a b => a.timestamp < b.timestamp := by
    rw [List.pairwise_iff_getElem]
    intro i j hi hj hij
    simp only [seedRows, List.getElem_mapIdx]
    omega
  rw [← hnew, List.pairwise_map] at hrows
  exact hrows

theorem le_timestamp_seeded {sender : Text} {now : ℤ} {messages : List Text} {new : List (ℤ × InboxMessage)}
    (hnew : new.map Prod.snd = seedRows sender now messages) {row : ℤ × InboxMessage} (h : row ∈ new) :
    now ≤ row.2.timestamp := by
  have hrow : row.2 ∈ seedRows sender now messages := hnew ▸ List.mem_map_of_mem h
  obtain ⟨i, _, hi⟩ := List.mem_mapIdx.mp hrow
  rw [← hi]
  show now ≤ now + (i : ℤ)
  omega

/-- The first message is of the second the seeding began in. -/
theorem exists_timestamp_eq {sender : Text} {now : ℤ} {messages : List Text} {new : List (ℤ × InboxMessage)}
    (hnew : new.map Prod.snd = seedRows sender now messages) (hne : messages ≠ []) :
    ∃ row ∈ new, row.2.timestamp = now := by
  obtain ⟨message, rest, rfl⟩ := List.exists_cons_of_ne_nil hne
  have hfirst : (⟨message, sender, now + (0 : ℕ), 0⟩ : InboxMessage) ∈ new.map Prod.snd := by
    rw [hnew, seedRows, List.mapIdx_cons]
    exact List.mem_cons_self
  obtain ⟨row, hrow, heq⟩ := List.mem_map.mp hfirst
  refine ⟨row, hrow, ?_⟩
  rw [heq]
  exact add_zero now

/-- **Newest first**: where every message there was is older than now, the seeded ones are listed above them, the
last one first; where one is newer than now they are not. -/
theorem seeded_above {σ : Type} (r : Sampler σ) (inbox : Option (AutoTable InboxMessage)) (sender : Text) (count k now : ℤ)
    (s : σ) (h : Drawable count k) :
    let old := (inbox.getD .empty).rows
    let table := ((seedInbox r inbox sender count k now).run s).1.2
    ∃ new, table.rows = old ++ new ∧ new.length = count.toNat ∧
      ((∀ row ∈ old, row.2.timestamp < now) → inboxRows (some table) = new.reverse ++ inboxRows inbox) ∧
      (0 < count → (∃ row ∈ old, now < row.2.timestamp) →
        inboxRows (some table) ≠ new.reverse ++ inboxRows inbox) := by
  obtain ⟨messages, s', hrun, hlength, -⟩ := seedInbox_ok inbox sender now h r s
  obtain ⟨new, hrows, hnew⟩ := (inbox.getD .empty).foldl_insert_rows (seedRows sender now messages)
  rw [hrun]
  refine ⟨new, hrows, ?_, fun hold => ?_, fun hcount hrow heq => ?_⟩
  · rw [← hlength, ← List.length_map (f := Prod.snd), hnew, seedRows, List.length_mapIdx]
  · rw [inboxRows_some, hrows, inboxRows_getD]
    refine sortBy_append_of_lt (pairwise_seeded hnew) fun a ha b hb => ?_
    have hnow : b.2.timestamp < a.2.timestamp := lt_of_lt_of_le (hold b hb) (le_timestamp_seeded hnew ha)
    exact hnow
  · obtain ⟨row, hmem, hlt⟩ := hrow
    obtain ⟨first, hfirst, hnow⟩ := exists_timestamp_eq hnew (List.ne_nil_of_length_pos (by omega))
    have hsorted := pairwise_sortBy newestFirst ((seedRows sender now messages).foldl .insert
      (inbox.getD .empty)).rows
    rw [← inboxRows_some, heq, List.pairwise_append] at hsorted
    have hle := hsorted.2.2 first (List.mem_reverse.mpr hfirst) row
      (by rw [inboxRows_getD, mem_sortBy]; exact hmem)
    have hle' : row.2.timestamp ≤ first.2.timestamp := hle
    omega

/-- A source that takes the first ones. -/
def firstOnes : Sampler Unit where
  sample xs k := pure (xs.take k)
  sample_take xs _ _ _ := ⟨xs, List.Perm.refl xs, rfl⟩

theorem seeded_above_twice :
    let old := ((seedInbox firstOnes none "1".toList 2 3 100).run ()).1.2
    (∃ row ∈ old.rows, (100 : ℤ) < row.2.timestamp) ∧
      ∃ new, ((seedInbox firstOnes (some old) "1".toList 2 3 100).run ()).1.2.rows = old.rows ++ new ∧
        inboxRows (some ((seedInbox firstOnes (some old) "1".toList 2 3 100).run ()).1.2) ≠
          new.reverse ++ inboxRows (some old) := by
  have hrow : ∃ row ∈ ((seedInbox firstOnes none "1".toList 2 3 100).run ()).1.2.rows,
      (100 : ℤ) < row.2.timestamp := by decide
  obtain ⟨new, hrows, -, -, hne⟩ :=
    seeded_above firstOnes (some ((seedInbox firstOnes none "1".toList 2 3 100).run ()).1.2) "1".toList 2 3 100 ()
      ⟨by decide, by decide⟩
  exact ⟨hrow, new, hrows, hne (by decide) hrow⟩

end NeoDCT.SeedInbox
