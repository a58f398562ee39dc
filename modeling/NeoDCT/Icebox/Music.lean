import NeoDCT.Icebox.Id3
import NeoDCT.Lib.StableSort
import NeoDCT.SelectionWalk

/-!
# Browsing music

The rest of Development/Icebox/MusicPlayer/main.py: the scan, the menus and the player.  A list of tracks is
sorted in place, `music_files` for good and a group until "Artists" is left; what Pillow makes of a picture
in a tag is the parameter `art`.

`Page` is the program without that state: on a page the tracks are sorted afresh, from the files as they were
scanned.  `run` is that machine, key by key, and the screen shows its page (`run_pages`).
-/

namespace NeoDCT

open PyText Interactive

namespace VerticalList

theorem showBody_waits (ui : Ui) {self : VerticalList} {w : World} (h : Shows (self.drawOps ui) w) :
    wp (showBody ui self)
      (fun r w' => r.elim (fun b => Shows (b.drawOps ui) w') fun _ => True)
      (fun _ w' => Shows (self.drawOps ui) w') w := by
  unfold showBody
  refine wp_seq (waitForKey_shows _ w ⟨_, rfl, h⟩) ?_ ?_
  · rintro _ w' ⟨-, -, -, ops, hops, hs⟩
    cases hops
    exact hs
  · rintro key w₁ ⟨-, -, ops, hops, hs⟩
    cases hops
    cases hk : self.onKey key with
    | inr r => exact wp_seq (record_spec (self.closed r) w₁) (fun _ _ h => h) fun _ _ _ => trivial
    | inl b =>
      simp only []
      by_cases hd : key = 108 ∨ key = 103
      · rw [if_pos hd]
        exact wp_seq (draw_shown ui b w₁) (fun _ _ h => h) fun _ _ h => h.2
      · rw [if_neg hd]
        have hsame : b = self := by
          rw [arrow_of_onKey hk]
          unfold arrow
          rw [if_neg fun h => hd (Or.inl h), if_neg fun h => hd (Or.inr h)]
        rw [hsame]
        exact hs

/-- What `show` does with the keys to come, and shows while it waits for more. -/
theorem showModal_keys (ui : Ui) (self : VerticalList) (w : World) :
    wp (self.showModal ui)
      (fun r w' => Logged [self.closed r.1] w w' ∧ Input.remaining w' < Input.remaining w ∧
        ∃ ks key, presses w.io.input = ks ++ key :: presses w'.io.input ∧
          feed onKey self ks = .inl r.2 ∧ r.2.onKey key = .inr r.1)
      (fun h w' => h = .waiting ∧ Quiet w w' ∧
        ∃ b, feed onKey self (presses w.io.input) = .inl b ∧ Shows (b.drawOps ui) w') w := by
  refine wp_seq (draw_shown ui self w) (fun _ _ h => h) ?_
  rintro _ w₀ ⟨hd, hs₀⟩
  refine wp_loop (fun b w' => Quiet w w' ∧ Shows (b.drawOps ui) w' ∧ SameList self b ∧
    ∃ ks, presses w.io.input = ks ++ presses w'.io.input ∧ feed onKey self ks = .inl b)
    ⟨hd.quiet, hs₀, ⟨rfl, rfl, rfl⟩, [], by rw [hd.input]; rfl, rfl⟩ ?_
  rintro b w₁ ⟨hq, hs, hsame, ks, hks, hf⟩
  refine wp_mono (wp_and (showBody_spec ui b w₁) (showBody_waits ui hs)) ?_ ?_
  · rintro (b' | ⟨r, b'⟩) w₂ ⟨⟨key, rest, hp, h⟩, hs'⟩
    · obtain ⟨hk, hr, hrest⟩ := h
      have hsame' := onKey_sameList hk
      refine ⟨⟨hq.trans hr.quiet, hs', ⟨hsame'.1.trans hsame.1, hsame'.2.1.trans hsame.2.1,
        hsame'.2.2.trans hsame.2.2⟩, ks ++ [key], ?_, ?_⟩, hr.remaining⟩
      · rw [hks, hp, hrest, List.append_assoc]
        rfl
      · rw [feed_snoc hf, hk]
        rfl
    · obtain ⟨hk, rfl, hrest, w₃, hr, rfl⟩ := h
      have hreads := hq.trans_reads hr
      refine ⟨?_, hreads.remaining, ks, key, ?_, hf, hk⟩
      · rw [← hsame.closed]
        exact Logged.single hreads.quiet _
      · rw [hks, hp, hrest]
  · rintro _ w₂ ⟨⟨rfl, hnil, hq'⟩, hs'⟩
    exact ⟨rfl, hq.trans hq', b, by rw [hks, hnil, List.append_nil, hf], hs'⟩

/-- What keys keep of a selection that is in its list. -/
theorem onKey_selected {self : VerticalList} {key : ℕ} (h : self.selectedIndex < self.items.length) :
    (∀ b, self.onKey key = .inl b → b.selectedIndex < b.items.length) ∧
      ∀ i, self.onKey key = .inr (some i) → i < self.items.length := by
  constructor
  · intro b hk
    unfold onKey down up at hk
    grind
  · intro i hk
    unfold onKey at hk
    grind

theorem feed_selected {self b : VerticalList} {ks : List ℕ} (h : self.selectedIndex < self.items.length)
    (hf : feed onKey self ks = .inl b) : b.selectedIndex < b.items.length ∧ b.items = self.items := by
  induction ks generalizing self with
  | nil =>
    cases hf
    exact ⟨h, rfl⟩
  | cons k ks ih =>
    rw [feed] at hf
    cases hk : self.onKey k with
    | inl self' =>
      rw [hk] at hf
      obtain ⟨hsel, hitems⟩ := ih ((onKey_selected h).1 self' hk) hf
      exact ⟨hsel, hitems.trans (onKey_sameList hk).2.1⟩
    | inr r =>
      rw [hk] at hf
      cases hf

end VerticalList

end NeoDCT

namespace NeoDCT.Icebox

open PyText PyBytes Interactive Id3 StableSort

/-! ## The player -/

section
variable (ui : Ui) (art : Bytes → Option Text)

/-- The cover, or what stands for it. -/
def artOps (track : Metadata) : List DrawOp :=
  let artY : ℚ := 45
  let frame := DrawOp.rectangle 10 artY 110 (artY + 100) none (some (.named "white"))
  match track.image with
  | none | some [] => [frame, drawText 35 (artY + 40) "MP3".toList .xl "white"]
  | some image =>
    match art image with
    | some picture => [.paste picture 10 artY]
    | none => [frame, drawText 30 (artY + 40) "No Art".toList .s "gray"]

/-- `counter_text`. -/
def counterText (currentIdx totalCount : ℕ) : Text :=
  (toString (currentIdx + 1)).toList ++ " of ".toList ++ (toString totalCount).toList

/-- `draw_player_interface`, down to the cover. -/
def headOps (track : Metadata) (currentIdx totalCount : ℕ) : List DrawOp :=
  let text := counterText currentIdx totalCount
  let w := (ui.getTextSize text .n).1
  [fillBox 0 0 240 210 "black", drawText 5 5 "Now Playing".toList .n "gray",
    drawText (235 - w : ℤ) 5 text .n "white", .line 0 30 240 30 (.named "white")] ++ artOps art track

/-- The rest of it. -/
def infoOps (track : Metadata) : List DrawOp :=
  let textX : ℚ := 120
  let barY : ℚ := 170
  [drawText textX 45 (track.title.take 14) .md "white", drawText textX 70 (track.artist.take 15) .n "gray",
    drawText textX 95 (track.album.take 15) .n "gray",
    .rectangle 10 barY 230 (barY + 12) (some (.named "black")) (some (.named "gray")),
    fillBox 10 barY 10 (barY + 12) "#3498db", drawText 10 (barY + 18) "0:00".toList .s "white",
    drawText 205 (barY + 18) "-3:45".toList .s "white"]

/-- `draw_player_interface`; there is a `font_md` only if the fonts were loaded. -/
def drawPlayerInterface (track : Metadata) (currentIdx totalCount : ℕ) : UI Unit := do
  paint (headOps ui art track currentIdx totalCount)
  if ui.hasFontMd then do
    paint (infoOps track)
    present
  else throw (.raised .attributeError)

/-- An element of a list. -/
def getItem {α : Type} (l : List α) (i : ℕ) : Except PyError α :=
  match l[i]? with
  | some a => .ok a
  | none => .error .indexError

/-- An iteration of `run_player`. -/
def playerPass (playlist : List Metadata) (currentIdx : ℕ) : UI (ℕ ⊕ Unit) := do
  let track ← attempt (getItem playlist currentIdx)
  drawPlayerInterface ui art track currentIdx playlist.length
  SoftKeyBar.app.update ui (some "Pause".toList) true
  let key ← waitForKey
  if key = 14 then pure (.inr ())
  else if key = 106 then do
    let next ← attempt (wrapIndex ((currentIdx : ℤ) + 1) playlist.length)
    pure (.inl next)
  else if key = 105 then do
    let prev ← attempt (wrapIndex ((currentIdx : ℤ) - 1) playlist.length)
    pure (.inl prev)
  else pure (.inl currentIdx)

/-- `run_player`. -/
def runPlayer (playlist : List Metadata) (startIndex : ℕ) : UI Unit :=
  loop (playerPass ui art playlist) startIndex

/-! ## The lists -/

/-- An iteration of `run_track_list`. -/
def trackListPass (tracks : List Metadata) (vList : VerticalList) : UI (VerticalList ⊕ Unit) := do
  SoftKeyBar.app.update ui (some "Play".toList) true
  let (sel, vList) ← vList.showModal ui
  match sel with
  | none => pure (.inr ())
  | some sel => do
    runPlayer ui art tracks sel
    pure (.inl vList)

/-- `run_track_list`; it returns what it leaves of `tracks`. -/
def runTrackList (tracks : List Metadata) (title parentId : Text) : UI (List Metadata) := do
  let tracks := sortBy Metadata.track tracks
  loop (trackListPass ui art tracks) (.new title (tracks.map Metadata.title) parentId)
  pure tracks

/-- `groups`, in the order of their keys. -/
abbrev Groups := List (Text × List Metadata)

/-- `groups[t["artist"]].append(t)`. -/
def addToGroup (groups : Groups) (t : Metadata) : Groups :=
  if groups.any (·.1 = t.artist) then
    groups.map fun g => if g.1 = t.artist then (g.1, g.2 ++ [t]) else g
  else groups ++ [(t.artist, [t])]

def groupByArtist (musicFiles : List Metadata) : Groups := musicFiles.foldl addToGroup []

/-- `sorted(groups.keys())`. -/
def sortedKeys (groups : Groups) : List Text := (groups.map Prod.fst).insertionSort (· ≤ ·)

/-- `groups[artist_name]`. -/
def getGroup (groups : Groups) (artistName : Text) : List Metadata :=
  ((groups.find? (·.1 = artistName)).map Prod.snd).getD []

/-- What has become of a group. -/
def setGroup (groups : Groups) (artistName : Text) (tracks : List Metadata) : Groups :=
  groups.map fun g => if g.1 = artistName then (g.1, tracks) else g

/-- `f"{parent}-{i+1}"`. -/
def subId (parent : Text) (i : ℕ) : Text := parent ++ '-' :: (toString (i + 1)).toList

/-- An iteration of the loop over the artists. -/
def artistsPass (nextId : Text) (artists : List Text) (s : VerticalList × Groups) :
    UI ((VerticalList × Groups) ⊕ Unit) := do
  let (aSel, artistList) ← s.1.showModal ui
  match aSel with
  | none => pure (.inr ())
  | some aSel => do
    let artistName ← attempt (getItem artists aSel)
    let tracks ← runTrackList ui art (getGroup s.2 artistName) artistName (subId nextId aSel)
    pure (.inl (artistList, setGroup s.2 artistName tracks))

/-- `APP_ID`. -/
def appId : Text := "5".toList

def menuItems : List Text := ["All Songs".toList, "Artists".toList, "Albums".toList]

/-- An iteration of the main menu. -/
def menuPass (s : VerticalList × List Metadata) : UI ((VerticalList × List Metadata) ⊕ Unit) := do
  SoftKeyBar.app.update ui (some "Select".toList) true
  let (sel, mainMenu) ← s.1.showModal ui
  match sel with
  | none => pure (.inr ())
  | some sel =>
    let nextId := subId appId sel
    if sel = 0 then do
      let musicFiles ← runTrackList ui art s.2 "All Songs".toList nextId
      pure (.inl (mainMenu, musicFiles))
    else if sel = 1 then do
      let groups := groupByArtist s.2
      let artists := sortedKeys groups
      loop (artistsPass ui art nextId artists) (.new "Artists".toList artists nextId, groups)
      pure (.inl (mainMenu, s.2))
    else pure (.inl (mainMenu, s.2))

end

/-- `f.endswith(".mp3")`. -/
def isMp3 (f : Text) : Bool := ".mp3".toList.isSuffixOf f

/-- `get_metadata`: a loop over the bytes of a file has no more turns than it has bytes. -/
def metadata (u : Numerals) (read : Text → Option Bytes) (path : Text) : Metadata :=
  (getMetadata u (((read path).getD []).length + 1) path (read path)).getD (.new path)

/-- It is what `get_metadata` returns, however long it takes. -/
theorem getMetadata_iff {u : Numerals} {read : Text → Option Bytes} {path : Text} {m : Metadata} :
    (∃ n, getMetadata u n path (read path) = some m) ↔ m = metadata u read path := by
  have hend : getMetadata u (((read path).getD []).length + 1) path (read path) = some (metadata u read path) := by
    unfold metadata getMetadata
    cases read path with
    | none => rfl
    | some file =>
      simp only [Option.getD_some]
      rw [readId3v2_eq u (Nat.lt_succ_self _)]
      rfl
  constructor
  · rintro ⟨n, h⟩
    unfold metadata getMetadata at *
    cases hread : read path with
    | none =>
      rw [hread] at h
      exact (Option.some.inj h).symm
    | some file =>
      rw [hread] at h
      obtain ⟨r, hr, rfl⟩ := Option.map_eq_some_iff.mp h
      simp only [Option.getD_some]
      rw [readId3v2_eq u (Nat.lt_succ_self _), readTags_eq_of_readId3v2 hr]
      rfl
  · rintro rfl
    exact ⟨_, hend⟩

/-- The scan, of what `os.walk` yields. -/
def scan (u : Numerals) (read : Text → Option Bytes) (walk : List (Text × List Text)) : List Metadata :=
  walk.flatMap fun (root, files) =>
    (files.filter isMp3).map fun f => metadata u read (root ++ '/' :: f)

/-- `run`, from the files that were found on. -/
def browse (ui : Ui) (art : Bytes → Option Text) (musicFiles : List Metadata) : UI Unit :=
  if musicFiles = [] then pure ()
  else loop (menuPass ui art) (.new "Music".toList menuItems appId, musicFiles)

/-- `run`, on what `os.walk` yields of the music and what the files hold. -/
def run (ui : Ui) (art : Bytes → Option Text) (u : Numerals) (read : Text → Option Bytes)
    (walk : List (Text × List Text)) : UI Unit :=
  browse ui art (scan u read walk)

/-! ## The machine -/

/-- A list of tracks, or the player over it. -/
inductive Tracks where
  | list (vList : VerticalList)
  | player (vList : VerticalList) (currentIdx : ℕ)

/-- A list of this many tracks, on one key. -/
def Tracks.next (n : ℕ) : Tracks → ℕ → Tracks ⊕ Unit
  | .list vList, key =>
    match vList.onKey key with
    | .inl vList => .inl (.list vList)
    | .inr none => .inr ()
    | .inr (some i) => .inl (.player vList i)
  | .player vList i, key =>
    if key = 14 then .inl (.list vList)
    else if key = 106 then .inl (.player vList ((i + 1) % n))
    else if key = 105 then .inl (.player vList ((i + n - 1) % n))
    else .inl (.player vList i)

inductive Page where
  | menu (mainMenu : VerticalList)
  | songs (mainMenu : VerticalList) (tracks : Tracks)
  | artists (mainMenu artistList : VerticalList)
  | artist (mainMenu artistList : VerticalList) (name : Text) (tracks : Tracks)

/-- All songs, by their numbers. -/
def allSongs (files : List Metadata) : List Metadata := sortBy Metadata.track files

/-- Every artist once. -/
def artistNames (files : List Metadata) : List Text :=
  (files.map Metadata.artist).dedup.insertionSort (· ≤ ·)

/-- The songs of an artist, by their numbers. -/
def songsOf (files : List Metadata) (name : Text) : List Metadata :=
  sortBy Metadata.track (files.filter (·.artist = name))

/-- A list that was just opened. -/
def Tracks.opened (playlist : List Metadata) (title parentId : Text) : Tracks :=
  .list (.new title (playlist.map Metadata.title) parentId)

/-- What a key does. -/
def Page.next (files : List Metadata) : Page → ℕ → Page ⊕ Unit
  | .menu mainMenu, key =>
    match mainMenu.onKey key with
    | .inl mainMenu => .inl (.menu mainMenu)
    | .inr none => .inr ()
    | .inr (some 0) => .inl (.songs mainMenu (.opened (allSongs files) "All Songs".toList (subId appId 0)))
    | .inr (some 1) => .inl (.artists mainMenu (.new "Artists".toList (artistNames files) (subId appId 1)))
    | .inr (some _) => .inl (.menu mainMenu)
  | .songs mainMenu tracks, key =>
    match tracks.next (allSongs files).length key with
    | .inl tracks => .inl (.songs mainMenu tracks)
    | .inr () => .inl (.menu mainMenu)
  | .artists mainMenu artistList, key =>
    match artistList.onKey key with
    | .inl artistList => .inl (.artists mainMenu artistList)
    | .inr none => .inl (.menu mainMenu)
    | .inr (some i) =>
      let name := (artistNames files).getD i []
      .inl (.artist mainMenu artistList name (.opened (songsOf files name) name (subId (subId appId 1) i)))
  | .artist mainMenu artistList name tracks, key =>
    match tracks.next (songsOf files name).length key with
    | .inl tracks => .inl (.artist mainMenu artistList name tracks)
    | .inr () => .inl (.artists mainMenu artistList)

/-- Where `run` starts. -/
def Page.start : Page := .menu (.new "Music".toList menuItems appId)

/-- The picture of the player. -/
def playerOps (ui : Ui) (art : Bytes → Option Text) (track : Metadata) (currentIdx totalCount : ℕ) :
    List DrawOp :=
  headOps ui art track currentIdx totalCount ++ infoOps track ++
    SoftKeyBar.app.drawOps ui (some "Pause".toList)

/-- The screen shows a list, or the player with its track. -/
def Tracks.Shows (ui : Ui) (art : Bytes → Option Text) (playlist : List Metadata) (w : World) : Tracks → Prop
  | .list vList => NeoDCT.Shows (vList.drawOps ui) w
  | .player _ i => ∃ track, playlist[i]? = some track ∧
    NeoDCT.Shows (playerOps ui art track i playlist.length) w

def Page.Shows (ui : Ui) (art : Bytes → Option Text) (files : List Metadata) (w : World) : Page → Prop
  | .menu mainMenu => NeoDCT.Shows (mainMenu.drawOps ui) w
  | .songs _ tracks => tracks.Shows ui art (allSongs files) w
  | .artists _ artistList => NeoDCT.Shows (artistList.drawOps ui) w
  | .artist _ _ name tracks => tracks.Shows ui art (songsOf files name) w

/-! ## Groups -/

theorem getGroup_addToGroup (groups : Groups) (t : Metadata) (name : Text) :
    getGroup (addToGroup groups t) name = getGroup groups name ++ if t.artist = name then [t] else [] := by
  unfold getGroup addToGroup
  by_cases hany : groups.any (·.1 = t.artist) = true
  · rw [if_pos hany, List.find?_map]
    have hsame : (fun g : Text × List Metadata => decide (g.1 = name)) ∘
        (fun g => if g.1 = t.artist then (g.1, g.2 ++ [t]) else g) = fun g => decide (g.1 = name) := by
      funext g
      simp only [Function.comp]
      split <;> rfl
    rw [hsame]
    cases hfind : groups.find? (·.1 = name) with
    | none =>
      have hne : t.artist ≠ name := by
        rintro rfl
        obtain ⟨g, hg, hkey⟩ := List.any_eq_true.mp hany
        exact List.find?_eq_none.mp hfind g hg hkey
      simp [hne]
    | some g =>
      have hkey : g.1 = name := by simpa using List.find?_some hfind
      by_cases ht : t.artist = name
      · simp [hkey, ht]
      · simp [hkey, ht, Ne.symm ht]
  · rw [if_neg hany, List.find?_append]
    cases hfind : groups.find? (·.1 = name) with
    | none => by_cases ht : t.artist = name <;> simp [ht]
    | some g =>
      have hkey : g.1 = name := by simpa using List.find?_some hfind
      have hne : t.artist ≠ name := by
        rintro rfl
        exact hany (List.any_eq_true.mpr ⟨g, List.mem_of_find?_eq_some hfind, by simpa using hkey⟩)
      simp [hne]

theorem keys_addToGroup (groups : Groups) (t : Metadata) :
    (addToGroup groups t).map Prod.fst =
      groups.map Prod.fst ++ if t.artist ∈ groups.map Prod.fst then [] else [t.artist] := by
  have hany : groups.any (·.1 = t.artist) = true ↔ t.artist ∈ groups.map Prod.fst := by simp
  unfold addToGroup
  by_cases h : t.artist ∈ groups.map Prod.fst
  · rw [if_pos (hany.mpr h), if_pos h, List.map_map, List.append_nil]
    refine List.map_congr_left fun g _ => ?_
    simp only [Function.comp]
    split <;> rfl
  · rw [if_neg fun h' => h (hany.mp h'), if_neg h, List.map_append]
    rfl

/-- Grouping: every artist is a key once, and has its songs in their order. -/
theorem groupByArtist_spec (files : List Metadata) :
    ((groupByArtist files).map Prod.fst).Nodup ∧
      (∀ name, name ∈ (groupByArtist files).map Prod.fst ↔ name ∈ files.map Metadata.artist) ∧
      ∀ name, getGroup (groupByArtist files) name = files.filter (·.artist = name) := by
  unfold groupByArtist
  induction files using List.reverseRecOn with
  | nil => exact ⟨List.nodup_nil, fun _ => Iff.rfl, fun _ => rfl⟩
  | append_singleton files t ih =>
    obtain ⟨hnodup, hkeys, hgroups⟩ := ih
    rw [List.foldl_append, List.foldl_cons, List.foldl_nil]
    refine ⟨?_, fun name => ?_, fun name => ?_⟩
    · rw [keys_addToGroup]
      split
      · rwa [List.append_nil]
      · next h => exact hnodup.append (List.nodup_singleton _) (by simpa using h)
    · rw [keys_addToGroup, List.map_append, List.mem_append, List.mem_append, hkeys]
      split
      · next h =>
        simp only [List.not_mem_nil, or_false, List.map_cons, List.map_nil, List.mem_singleton, iff_self_or]
        rintro rfl
        exact (hkeys _).mp h
      · rfl
    · rw [getGroup_addToGroup, hgroups, List.filter_append]
      by_cases ht : t.artist = name <;> simp [ht]

/-- The artists do not depend on the order of the songs. -/
theorem sortedKeys_eq {files files' : List Metadata} (h : SameClasses Metadata.track files' files) :
    sortedKeys (groupByArtist files') = artistNames files := by
  obtain ⟨hnodup, hkeys, -⟩ := groupByArtist_spec files'
  unfold sortedKeys artistNames
  have hperm : ((groupByArtist files').map Prod.fst).Perm (files.map Metadata.artist).dedup := by
    refine (List.perm_ext_iff_of_nodup hnodup (List.nodup_dedup _)).mpr fun name => ?_
    rw [hkeys, List.mem_dedup]
    simp only [List.mem_map, h.mem_iff]
  refine List.Perm.eq_of_pairwise' (r := (· ≤ ·)) (List.pairwise_insertionSort _ _)
    (List.pairwise_insertionSort _ _) ?_
  exact ((List.perm_insertionSort _ _).trans hperm).trans (List.perm_insertionSort _ _).symm

theorem getGroup_setGroup (groups : Groups) (artistName name : Text) (tracks : List Metadata) :
    getGroup (setGroup groups artistName tracks) name = getGroup groups name ∨
      name = artistName ∧ getGroup (setGroup groups artistName tracks) name = tracks := by
  unfold getGroup setGroup
  rw [List.find?_map]
  have hsame : (fun g : Text × List Metadata => decide (g.1 = name)) ∘
      (fun g => if g.1 = artistName then (g.1, tracks) else g) = fun g => decide (g.1 = name) := by
    funext g
    simp only [Function.comp]
    split <;> rfl
  rw [hsame]
  cases hfind : groups.find? (·.1 = name) with
  | none => exact Or.inl rfl
  | some g =>
    have hkey : g.1 = name := by simpa using List.find?_some hfind
    by_cases h : g.1 = artistName
    · exact Or.inr ⟨hkey.symm.trans h, by simp [h]⟩
    · exact Or.inl (by simp [h])

/-- Every group has the songs of its artist, those of one number in their order. -/
def Grouped (files : List Metadata) (groups : Groups) : Prop :=
  ∀ name, SameClasses Metadata.track (getGroup groups name) (files.filter (·.artist = name))

theorem grouped_groupByArtist {files files' : List Metadata} (h : SameClasses Metadata.track files' files) :
    Grouped files (groupByArtist files') := by
  intro name
  rw [(groupByArtist_spec files').2.2]
  exact h.filter _

theorem Grouped.sorted {files : List Metadata} {groups : Groups} (h : Grouped files groups) (name : Text) :
    sortBy Metadata.track (getGroup groups name) = songsOf files name := sortBy_congr (h name)

/-- Sorting a group in place keeps the groups. -/
theorem Grouped.setGroup {files : List Metadata} {groups : Groups} (h : Grouped files groups) (name : Text) :
    Grouped files (setGroup groups name (songsOf files name)) := by
  intro name'
  rcases getGroup_setGroup groups name name' (songsOf files name) with heq | ⟨rfl, heq⟩
  · rw [heq]
    exact h name'
  · rw [heq]
    exact sortBy_sameClasses _ _

/-! ## The program is the machine -/

/-- The page that a program which ran from `w₀` to `w` has come to: what is left for it to read is what is
left for the program. -/
structure At (files : List Metadata) (w₀ : World) (p : Page) (w : World) : Prop where
  logged : ∃ evs, Logged evs w₀ w
  rest : feed (Page.next files) .start (presses w₀.io.input) = feed (Page.next files) p (presses w.io.input)

/-- The same, when a key was read that the page has not answered. -/
structure Pressed (files : List Metadata) (w₀ : World) (p : Page) (key : ℕ) (w : World) : Prop where
  logged : ∃ evs, Logged evs w₀ w
  rest : feed (Page.next files) .start (presses w₀.io.input) =
    feed (Page.next files) p (key :: presses w.io.input)

/-- A key is waited for, and the page is shown. -/
def Waits (ui : Ui) (art : Bytes → Option Text) (files : List Metadata) (w₀ : World) (h : Halt PyError)
    (w : World) : Prop :=
  h = .waiting ∧ (∃ evs, Logged evs w₀ w) ∧
    ∃ p, feed (Page.next files) .start (presses w₀.io.input) = .inl p ∧ p.Shows ui art files w

variable {ui : Ui} {art : Bytes → Option Text} {files : List Metadata} {w₀ w w' : World} {p p' : Page} {key : ℕ}

theorem At.drawn (h : At files w₀ p w) (hd : Drawn w w') : At files w₀ p w' where
  logged := h.logged.imp fun _ h => h.trans_quiet hd.quiet
  rest := by rw [h.rest, hd.input]

theorem At.pressed (h : At files w₀ p w) (hr : Reads w w')
    (hkey : presses w.io.input = key :: presses w'.io.input) : Pressed files w₀ p key w' where
  logged := h.logged.imp fun _ h => h.trans_quiet hr.quiet
  rest := by rw [h.rest, hkey]

theorem Pressed.goes (h : Pressed files w₀ p key w) (hnext : p.next files key = .inl p') : At files w₀ p' w where
  logged := h.logged
  rest := by
    rw [h.rest, feed, hnext]

section
variable {f : VerticalList → Page} (hf : ∀ l key l', l.onKey key = .inl l' → (f l).next files key = .inl (f l'))
  (hshows : ∀ l w, NeoDCT.Shows (l.drawOps ui) w → (f l).Shows ui art files w)
include hf hshows

/-- Showing the list of a page. -/
theorem list_spec {l : VerticalList} (hsel : l.selectedIndex < l.items.length) (h : At files w₀ (f l) w) :
    wp (l.showModal ui)
      (fun r w' => Input.remaining w' < Input.remaining w ∧ r.2.selectedIndex < r.2.items.length ∧
        r.2.items = l.items ∧ (∀ i, r.1 = some i → i < l.items.length) ∧
        ∃ key, r.2.onKey key = .inr r.1 ∧ Pressed files w₀ (f r.2) key w')
      (Waits ui art files w₀) w := by
  obtain ⟨evs, hlogged⟩ := h.logged
  refine wp_mono (l.showModal_keys ui w) ?_ ?_
  · rintro ⟨r, l'⟩ w' ⟨hlog, hlt, ks, key, hks, hfeed, hend⟩
    obtain ⟨hsel', hitems⟩ := VerticalList.feed_selected hsel hfeed
    refine ⟨hlt, hsel', hitems, ?_, key, hend, ⟨_, hlogged.trans hlog⟩, ?_⟩
    · rintro i rfl
      rw [← hitems]
      exact (VerticalList.onKey_selected hsel').2 i hend
    · rw [h.rest, hks, feed_embed hf hfeed]
  · rintro _ w' ⟨rfl, hquiet, b, hfeed, hs⟩
    refine ⟨rfl, ⟨_, hlogged.trans_quiet hquiet⟩, f b, ?_, hshows b w' hs⟩
    rw [h.rest, ← List.append_nil (presses _), feed_embed hf hfeed]
    rfl

end

/-! The player. -/

theorem wrapIndex_next {i n : ℕ} (h : i < n) : wrapIndex ((i : ℤ) + 1) n = .ok ((i + 1) % n) := by
  unfold wrapIndex
  rw [if_neg (by omega)]
  congr 1

theorem wrapIndex_prev {i n : ℕ} (h : i < n) : wrapIndex ((i : ℤ) - 1) n = .ok ((i + n - 1) % n) := by
  unfold wrapIndex
  rw [if_neg (by omega)]
  have hcast : ((i : ℤ) - 1) % n = ((i + n - 1 : ℕ) : ℤ) % n := by
    rw [← Int.add_emod_right, Nat.cast_sub (by omega), Nat.cast_add]
    congr 1
    push_cast
    ring
  rw [hcast]
  congr 1

/-- A step that does not raise. -/
theorem attempt_ok {α β : Type} {x : Except PyError α} {a : α} (h : x = .ok a) {f : α → UI β} {w : World}
    {Q : β → World → Prop} {E : Halt PyError → World → Prop} (hf : wp (f a) Q E w) :
    wp (attempt x >>= f) Q E w := by
  subst h
  exact (wp_bind _ f Q E w).mpr hf

theorem drawPlayer_spec (hfont : ui.hasFontMd = true) (track : Metadata) (i n : ℕ) (w : World)
    {E : Halt PyError → World → Prop} :
    wp (drawPlayerInterface ui art track i n) (fun _ w' => Painted (headOps ui art track i n ++ infoOps track) w w')
      E w := by
  unfold drawPlayerInterface
  rw [if_pos hfont]
  refine wp_seq (paint_painted _ w) (fun _ _ h => h) fun _ w₁ h₁ => ?_
  refine wp_seq (paint_painted _ w₁) (fun _ _ h => h) fun _ w₂ h₂ => ?_
  refine wp_mono (present_painted w₂) (fun _ w₃ h₃ => ?_) fun _ _ h => h
  simpa using (h₁.trans h₂).trans h₃.1

section
variable (hfont : ui.hasFontMd = true) {playlist : List Metadata} {g : Tracks → Page}
  (hg : ∀ t key t', t.next playlist.length key = .inl t' → (g t).next files key = .inl (g t'))
  (hshows : ∀ t w, t.Shows ui art playlist w → (g t).Shows ui art files w)
include hfont hg hshows

theorem playerPass_spec {l : VerticalList} {i : ℕ} (hi : i < playlist.length)
    (h : At files w₀ (g (.player l i)) w) :
    wp (playerPass ui art playlist i)
      (fun r w' => Input.remaining w' < Input.remaining w ∧
        r.elim (fun i' => i' < playlist.length ∧ At files w₀ (g (.player l i')) w')
          fun _ => At files w₀ (g (.list l)) w')
      (Waits ui art files w₀) w := by
  have hget : playlist[i]? = some playlist[i] := List.getElem?_eq_getElem hi
  have hitem : getItem playlist i = .ok playlist[i] := by
    unfold getItem
    rw [hget]
  unfold playerPass
  refine attempt_ok hitem ?_
  refine wp_seq (drawPlayer_spec hfont playlist[i] i playlist.length w) (fun _ _ h => h) fun _ w₁ h₁ => ?_
  refine wp_seq (SoftKeyBar.update_painted ui _ _ w₁) (fun _ _ h => h) ?_
  rintro _ w₂ ⟨h₂, hscreen⟩
  have hpainted := h₁.trans h₂
  have hat := h.drawn hpainted.drawn
  have hshown : NeoDCT.Shows (playerOps ui art playlist[i] i playlist.length) w₂ :=
    ⟨w.io.canvas, hscreen.trans hpainted.canvas⟩
  refine wp_seq (waitForKey_shows _ w₂ ⟨_, rfl, hshown⟩) ?_ ?_
  · rintro _ w₃ ⟨rfl, hnil, hquiet, ops, hops, hs⟩
    cases hops
    refine ⟨rfl, hat.logged.imp fun _ h => h.trans_quiet hquiet, g (.player l i), ?_,
      hshows _ _ ⟨_, hget, hs⟩⟩
    rw [hat.rest, hnil]
    rfl
  · rintro key w₃ ⟨hr, hkey, -⟩
    have hpressed := hat.pressed hr hkey
    have hlt : Input.remaining w₃ < Input.remaining w := by
      have hinput := hpainted.drawn.input
      have hlen := hr.remaining
      rw [hinput] at hlen
      exact hlen
    have hpos : 0 < playlist.length := Nat.lt_of_le_of_lt (Nat.zero_le i) hi
    by_cases h14 : key = 14
    · rw [if_pos h14]
      exact ⟨hlt, hpressed.goes (hg _ _ _ (by simp [Tracks.next, h14]))⟩
    · rw [if_neg h14]
      by_cases h106 : key = 106
      · rw [if_pos h106]
        refine attempt_ok (wrapIndex_next hi) ?_
        exact ⟨hlt, Nat.mod_lt _ hpos, hpressed.goes (hg _ _ _ (by simp [Tracks.next, h106]))⟩
      · rw [if_neg h106]
        by_cases h105 : key = 105
        · rw [if_pos h105]
          refine attempt_ok (wrapIndex_prev hi) ?_
          exact ⟨hlt, Nat.mod_lt _ hpos, hpressed.goes (hg _ _ _ (by simp [Tracks.next, h105]))⟩
        · rw [if_neg h105]
          exact ⟨hlt, hi, hpressed.goes (hg _ _ _ (by simp [Tracks.next, h14, h106, h105]))⟩

theorem runPlayer_spec {l : VerticalList} {i : ℕ} (hi : i < playlist.length)
    (h : At files w₀ (g (.player l i)) w) :
    wp (runPlayer ui art playlist i)
      (fun _ w' => Input.remaining w' < Input.remaining w ∧ At files w₀ (g (.list l)) w')
      (Waits ui art files w₀) w := by
  refine wp_loop (fun i w' => Input.remaining w' ≤ Input.remaining w ∧ i < playlist.length ∧
    At files w₀ (g (.player l i)) w') ⟨le_rfl, hi, h⟩ ?_
  rintro j w₁ ⟨hle, hj, hat⟩
  refine wp_mono (playerPass_spec hfont hg hshows hj hat) ?_ fun _ _ h => h
  rintro (j' | _) w₂ ⟨hlt, hr⟩
  · exact ⟨⟨hlt.le.trans hle, hr⟩, hlt⟩
  · exact ⟨hlt.trans_le hle, hr⟩

/-- An iteration over the list of tracks: a track is played, or the list is left. -/
theorem trackListPass_spec {l : VerticalList} (hsel : l.selectedIndex < l.items.length)
    (hitems : l.items = playlist.map Metadata.title) (h : At files w₀ (g (.list l)) w) :
    wp (trackListPass ui art playlist l)
      (fun r w' => Input.remaining w' < Input.remaining w ∧
        r.elim (fun l' => l'.selectedIndex < l'.items.length ∧ l'.items = playlist.map Metadata.title ∧
            At files w₀ (g (.list l')) w')
          fun _ => ∃ t key, t.next playlist.length key = .inr () ∧ Pressed files w₀ (g t) key w')
      (Waits ui art files w₀) w := by
  unfold trackListPass
  refine wp_seq (SoftKeyBar.update_spec ui _ _ _ w) (fun _ _ h => h) fun _ w₁ hd => ?_
  have hlist : ∀ l key l', l.onKey key = .inl l' → (g (.list l)).next files key = .inl (g (.list l')) :=
    fun l key l' hk => hg _ _ _ (by simp only [Tracks.next, hk])
  have hless {w' : World} (hlt : Input.remaining w' < Input.remaining w₁) :
      Input.remaining w' < Input.remaining w := by
    rwa [remaining_world w₁, hd.input] at hlt
  refine wp_seq (list_spec (f := fun l => g (.list l)) hlist (fun l w hs => hshows _ w hs) hsel (h.drawn hd))
    (fun _ _ h => h) ?_
  rintro ⟨sel, l'⟩ w₂ ⟨hlt, hsel', hsame, hindex, key, hend, hpressed⟩
  cases sel with
  | none => exact ⟨hless hlt, .list l', key, by simp only [Tracks.next, hend], hpressed⟩
  | some i =>
    have hi : i < playlist.length := by
      have := hindex i rfl
      rwa [hitems, List.length_map] at this
    have hplayer : At files w₀ (g (.player l' i)) w₂ :=
      hpressed.goes (hg _ _ _ (by simp only [Tracks.next, hend]))
    refine wp_seq (runPlayer_spec hfont hg hshows hi hplayer) (fun _ _ h => h) ?_
    rintro _ w₃ ⟨hlt₃, hat₃⟩
    exact ⟨hlt₃.trans (hless hlt), hsel', hsame.trans hitems, hat₃⟩

/-- **A list of tracks**, whatever order it had: it is sorted, and left with a key that leaves it. -/
theorem runTrackList_spec {tracks : List Metadata} (hsorted : sortBy Metadata.track tracks = playlist)
    (hne : playlist ≠ []) {title parentId : Text} (h : At files w₀ (g (.opened playlist title parentId)) w) :
    wp (runTrackList ui art tracks title parentId)
      (fun r w' => r = playlist ∧ Input.remaining w' < Input.remaining w ∧
        ∃ t key, t.next playlist.length key = .inr () ∧ Pressed files w₀ (g t) key w')
      (Waits ui art files w₀) w := by
  unfold runTrackList
  rw [hsorted]
  have hnew : (VerticalList.new title (playlist.map Metadata.title) parentId).selectedIndex <
      (playlist.map Metadata.title).length := by
    rw [List.length_map]
    exact List.length_pos_of_ne_nil hne
  have hloop : wp (loop (trackListPass ui art playlist) (.new title (playlist.map Metadata.title) parentId))
      (fun _ w' => Input.remaining w' < Input.remaining w ∧
        ∃ t key, t.next playlist.length key = .inr () ∧ Pressed files w₀ (g t) key w')
      (Waits ui art files w₀) w := by
    refine wp_loop (fun l w' => Input.remaining w' ≤ Input.remaining w ∧
      l.selectedIndex < l.items.length ∧ l.items = playlist.map Metadata.title ∧ At files w₀ (g (.list l)) w')
      ⟨le_rfl, hnew, rfl, h⟩ ?_
    rintro l w₁ ⟨hle, hsel, hitems, hat⟩
    refine wp_mono (trackListPass_spec hfont hg hshows hsel hitems hat) ?_ fun _ _ h => h
    rintro (l' | _) w₂ ⟨hlt, hr⟩
    · exact ⟨⟨hlt.le.trans hle, hr⟩, hlt⟩
    · exact ⟨hlt.trans_le hle, hr⟩
  refine wp_seq hloop (fun _ _ h => h) ?_
  rintro _ w' ⟨hlt, hleft⟩
  exact ⟨rfl, hlt, hleft⟩

end

/-! The menus. -/

theorem songs_next {mainMenu : VerticalList} (t : Tracks) (key : ℕ) (t' : Tracks)
    (h : t.next (allSongs files).length key = .inl t') :
    (Page.songs mainMenu t).next files key = .inl (.songs mainMenu t') := by
  simp only [Page.next, h]

theorem artist_next {mainMenu artistList : VerticalList} {name : Text} (t : Tracks) (key : ℕ) (t' : Tracks)
    (h : t.next (songsOf files name).length key = .inl t') :
    (Page.artist mainMenu artistList name t).next files key = .inl (.artist mainMenu artistList name t') := by
  simp only [Page.next, h]

theorem mem_artistNames (name : Text) : name ∈ artistNames files ↔ ∃ t ∈ files, t.artist = name := by
  unfold artistNames
  rw [List.mem_insertionSort, List.mem_dedup, List.mem_map]

theorem allSongs_ne_nil (hne : files ≠ []) : allSongs files ≠ [] := by
  intro hnil
  have hlength := length_sortBy Metadata.track files
  rw [← allSongs, hnil] at hlength
  exact hne (List.length_eq_zero_iff.mp hlength.symm)

theorem artistNames_ne_nil (hne : files ≠ []) : artistNames files ≠ [] := by
  obtain ⟨t, ht⟩ := List.exists_mem_of_ne_nil files hne
  exact List.ne_nil_of_mem ((mem_artistNames t.artist).mpr ⟨t, ht, rfl⟩)

theorem songsOf_ne_nil {name : Text} (h : name ∈ artistNames files) : songsOf files name ≠ [] := by
  obtain ⟨t, ht, hname⟩ := (mem_artistNames name).mp h
  refine List.ne_nil_of_mem (a := t) ?_
  unfold songsOf
  rw [mem_sortBy, List.mem_filter]
  exact ⟨ht, by simpa using hname⟩

section
variable (hfont : ui.hasFontMd = true)
include hfont

theorem artistsPass_spec {mainMenu l : VerticalList} {groups : Groups}
    (hsel : l.selectedIndex < l.items.length) (hitems : l.items = artistNames files)
    (hgroups : Grouped files groups) (h : At files w₀ (.artists mainMenu l) w) :
    wp (artistsPass ui art (subId appId 1) (artistNames files) (l, groups))
      (fun r w' => Input.remaining w' < Input.remaining w ∧
        r.elim (fun s => s.1.selectedIndex < s.1.items.length ∧ s.1.items = artistNames files ∧
            Grouped files s.2 ∧ At files w₀ (.artists mainMenu s.1) w')
          fun _ => At files w₀ (.menu mainMenu) w')
      (Waits ui art files w₀) w := by
  unfold artistsPass
  have hlist : ∀ l key l', l.onKey key = .inl l' →
      (Page.artists mainMenu l).next files key = .inl (.artists mainMenu l') := by
    intro l key l' hk
    simp only [Page.next, hk]
  refine wp_seq (list_spec hlist (fun l w hs => hs) hsel h) (fun _ _ h => h) ?_
  rintro ⟨aSel, l'⟩ w₁ ⟨hlt, hsel', hsame, hindex, key, hend, hpressed⟩
  cases aSel with
  | none => exact ⟨hlt, hpressed.goes (by simp only [Page.next, hend])⟩
  | some i =>
    have hi : i < (artistNames files).length := by
      have := hindex i rfl
      rwa [hitems] at this
    have hget : (artistNames files)[i]? = some (artistNames files)[i] := List.getElem?_eq_getElem hi
    have hitem : getItem (artistNames files) i = .ok (artistNames files)[i] := by
      unfold getItem
      rw [hget]
    refine attempt_ok hitem ?_
    generalize hname : (artistNames files)[i] = name
    have hmem : name ∈ artistNames files := hname ▸ List.getElem_mem hi
    have hopen : At files w₀
        (.artist mainMenu l' name (.opened (songsOf files name) name (subId (subId appId 1) i))) w₁ := by
      refine hpressed.goes ?_
      simp only [Page.next, hend, List.getD_eq_getElem?_getD, hget, Option.getD_some, hname]
    refine wp_seq (runTrackList_spec (g := Page.artist mainMenu l' name) hfont artist_next
      (fun t w hs => hs) (hgroups.sorted name) (songsOf_ne_nil hmem) hopen) (fun _ _ h => h) ?_
    rintro _ w₂ ⟨rfl, hlt₂, t, key', hleft, hpressed'⟩
    refine ⟨hlt₂.trans hlt, hsel', hsame.trans hitems, hgroups.setGroup name, ?_⟩
    exact hpressed'.goes (by simp only [Page.next, hleft])

/-- The artists, until one goes back to the menu. -/
theorem artistsLoop_spec {l : VerticalList} {groups : Groups} (hnames : artistNames files ≠ [])
    (hgroups : Grouped files groups)
    (h : At files w₀ (.artists l (.new "Artists".toList (artistNames files) (subId appId 1))) w) :
    wp (loop (artistsPass ui art (subId appId 1) (artistNames files))
        (.new "Artists".toList (artistNames files) (subId appId 1), groups))
      (fun _ w' => Input.remaining w' ≤ Input.remaining w ∧ At files w₀ (.menu l) w')
      (Waits ui art files w₀) w := by
  refine wp_loop (fun (s : VerticalList × Groups) w' => Input.remaining w' ≤ Input.remaining w ∧
    s.1.selectedIndex < s.1.items.length ∧ s.1.items = artistNames files ∧ Grouped files s.2 ∧
    At files w₀ (.artists l s.1) w') ⟨le_refl _, List.length_pos_of_ne_nil hnames, rfl, hgroups, h⟩ ?_
  rintro s w₁ ⟨hle, hsel, hitems, hgroups, hat⟩
  refine wp_mono (artistsPass_spec hfont hsel hitems hgroups hat) ?_ fun _ _ h => h
  rintro (s' | _) w₂ ⟨hlt, hr⟩
  · exact ⟨⟨hlt.le.trans hle, hr⟩, hlt⟩
  · exact ⟨hlt.le.trans hle, hr⟩

/-- What is left of the files: the ones there were, sorted perhaps. -/
theorem menuPass_spec {l : VerticalList} {musicFiles : List Metadata} (hne : files ≠ [])
    (hsel : l.selectedIndex < l.items.length) (hfiles : SameClasses Metadata.track musicFiles files)
    (h : At files w₀ (.menu l) w) :
    wp (menuPass ui art (l, musicFiles))
      (fun r w' => Input.remaining w' < Input.remaining w ∧
        r.elim (fun s => s.1.selectedIndex < s.1.items.length ∧ SameClasses Metadata.track s.2 files ∧
            At files w₀ (.menu s.1) w')
          fun _ => ∃ l key, (Page.menu l).next files key = .inr () ∧ Pressed files w₀ (.menu l) key w')
      (Waits ui art files w₀) w := by
  unfold menuPass
  refine wp_seq (SoftKeyBar.update_spec ui _ _ _ w) (fun _ _ h => h) fun _ w₁ hd => ?_
  have hlist : ∀ l key l', l.onKey key = .inl l' → (Page.menu l).next files key = .inl (.menu l') := by
    intro l key l' hk
    simp only [Page.next, hk]
  have hremaining : Input.remaining w₁ = Input.remaining w := by
    rw [remaining_world, remaining_world, hd.input]
  refine wp_seq (list_spec hlist (fun l w hs => hs) hsel (h.drawn hd)) (fun _ _ h => h) ?_
  rintro ⟨sel, l'⟩ w₂ ⟨hlt, hsel', -, -, key, hend, hpressed⟩
  rw [hremaining] at hlt
  cases sel with
  | none => exact ⟨hlt, l', key, by simp only [Page.next, hend], hpressed⟩
  | some sel =>
    match sel with
    | 0 =>
      have hopen : At files w₀
          (.songs l' (.opened (allSongs files) "All Songs".toList (subId appId 0))) w₂ :=
        hpressed.goes (by simp only [Page.next, hend])
      refine wp_seq (runTrackList_spec (g := Page.songs l') hfont songs_next (fun t w hs => hs)
        (sortBy_congr hfiles) (allSongs_ne_nil hne) hopen) (fun _ _ h => h) ?_
      rintro _ w₃ ⟨rfl, hlt₃, t, key', hleft, hpressed'⟩
      refine ⟨hlt₃.trans hlt, hsel', sortBy_sameClasses _ _, ?_⟩
      exact hpressed'.goes (by simp only [Page.next, hleft])
    | 1 =>
      simp only [Nat.one_ne_zero, if_false, if_true]
      rw [sortedKeys_eq hfiles]
      have hopen : At files w₀
          (.artists l' (.new "Artists".toList (artistNames files) (subId appId 1))) w₂ :=
        hpressed.goes (by simp only [Page.next, hend])
      refine wp_seq (artistsLoop_spec hfont (artistNames_ne_nil hne) (grouped_groupByArtist hfiles) hopen)
        (fun _ _ h => h) ?_
      rintro _ w₃ ⟨hle₃, hat₃⟩
      exact ⟨hle₃.trans_lt hlt, hsel', hfiles, hat₃⟩
    | sel + 2 =>
      have h0 : sel + 2 ≠ 0 := by omega
      have h1 : sel + 2 ≠ 1 := by omega
      simp only [if_neg h0, if_neg h1]
      exact ⟨hlt, hsel', hfiles, hpressed.goes (by simp only [Page.next, hend])⟩

theorem browse_spec (hne : files ≠ []) (w : World) :
    wp (browse ui art files)
      (fun _ w' => (∃ evs, Logged evs w w') ∧
        feed (Page.next files) .start (presses w.io.input) = .inr ((), presses w'.io.input))
      (Waits ui art files w) w := by
  unfold browse
  rw [if_neg hne]
  have hstart : At files w .start w := ⟨⟨[], (Quiet.refl w).logged⟩, rfl⟩
  have hmenu : (VerticalList.new "Music".toList menuItems appId).selectedIndex < menuItems.length := by decide
  refine wp_loop (fun (s : VerticalList × List Metadata) w' => s.1.selectedIndex < s.1.items.length ∧
    SameClasses Metadata.track s.2 files ∧ At files w (.menu s.1) w') ⟨hmenu, fun _ => rfl, hstart⟩ ?_
  rintro ⟨l, musicFiles⟩ w₁ ⟨hsel, hfiles, hat⟩
  refine wp_mono (menuPass_spec hfont hne hsel hfiles hat) ?_ fun _ _ h => h
  rintro (s | _) w₂ ⟨hlt, hr⟩
  · exact ⟨hr, hlt⟩
  · obtain ⟨l', key, hnext, hpressed⟩ := hr
    refine ⟨hpressed.logged, ?_⟩
    rw [hpressed.rest, feed, hnext]

end

theorem mem_scan {u : Numerals} {read : Text → Option Bytes} {walk : List (Text × List Text)} {m : Metadata} :
    m ∈ scan u read walk ↔ ∃ root files f, (root, files) ∈ walk ∧ f ∈ files ∧ isMp3 f = true ∧
      ∃ n, getMetadata u n (root ++ '/' :: f) (read (root ++ '/' :: f)) = some m := by
  simp only [getMetadata_iff, scan, List.mem_flatMap, List.mem_map, List.mem_filter]
  constructor
  · rintro ⟨⟨root, files⟩, hroot, f, ⟨hf, hmp3⟩, rfl⟩
    exact ⟨root, files, f, hroot, hf, hmp3, rfl⟩
  · rintro ⟨root, files, f, hroot, hf, hmp3, rfl⟩
    exact ⟨(root, files), hroot, f, ⟨hf, hmp3⟩, rfl⟩

/-- **Browsing music is the machine**: the scan finds the MP3 files with what `get_metadata` gives; without any
`run` returns at once.  With some and its fonts it never raises, and returns when the machine does; while it
waits, the screen shows the machine's page.  Sorting in place is not seen, and the phone's data stays. -/
theorem run_pages (ui : Ui) (hfont : ui.hasFontMd = true) (art : Bytes → Option Text) (u : Numerals)
    (read : Text → Option Bytes) (walk : List (Text × List Text)) (w : World) :
    let files := scan u read walk
    let p := run ui art u read walk
    (∀ m, m ∈ files ↔ ∃ root names f, (root, names) ∈ walk ∧ f ∈ names ∧ isMp3 f = true ∧
      ∃ n, getMetadata u n (root ++ '/' :: f) (read (root ++ '/' :: f)) = some m) ∧
    raised? p w = none ∧ (finalState p w).db = w.db ∧
    (files = [] → returned? p w = some () ∧ finalState p w = w) ∧
    (files ≠ [] →
      match feed (Page.next files) .start (presses w.io.input) with
      | .inr ((), rest) => returned? p w = some () ∧ presses (finalState p w).io.input = rest
      | .inl page => returned? p w = none ∧ page.Shows ui art files (finalState p w)) := by
  intro files p
  refine ⟨fun _ => mem_scan, ?_⟩
  have hp : p = browse ui art files := rfl
  by_cases hne : files = []
  · have hpure : p = pure () := by
      rw [hp]
      exact if_pos hne
    rw [hpure]
    exact ⟨rfl, rfl, fun _ => ⟨rfl, rfl⟩, fun h => absurd hne h⟩
  have hspec : wp p (fun _ w' => (∃ evs, Logged evs w w') ∧
      feed (Page.next files) .start (presses w.io.input) = .inr ((), presses w'.io.input))
    (Waits ui art files w) w := browse_spec hfont hne w
  rcases wp_cases hspec with
    ⟨_, hreturned, hraised, ⟨evs, hlogged⟩, hfeed⟩ | ⟨e, hreturned, hraised, rfl, ⟨evs, hlogged⟩, page, hfeed, hshows⟩
  · rw [hfeed]
    exact ⟨hraised, hlogged.db, fun h => absurd h hne, fun _ => ⟨hreturned, rfl⟩⟩
  · rw [hfeed]
    exact ⟨hraised, hlogged.db, fun h => absurd h hne, fun _ => ⟨hreturned, hshows⟩⟩

/-- An ID3v2.3 tag with an artist and a track number of a letter and a digit. -/
def tagged (artist track : UInt8) : Bytes :=
  [0x49, 0x44, 0x33, 3, 0, 0, 0, 0, 0, 24, 0x54, 0x50, 0x45, 0x31, 0, 0, 0, 2, 0, 0, 0, artist,
    0x54, 0x52, 0x43, 0x4B, 0, 0, 0, 2, 0, 0, 0, track]

/-- The second song of B, the only one of A, and the first of B. -/
def songFiles (path : Text) : Option Bytes :=
  if path = "/m/x.mp3".toList then some (tagged 0x42 0x32)
  else if path = "/m/y.mp3".toList then some (tagged 0x41 0x31)
  else if path = "/m/z.mp3".toList then some (tagged 0x42 0x31)
  else none

def songWalk : List (Text × List Text) :=
  [("/m".toList, ["x.mp3".toList, "y.mp3".toList, "cover.png".toList, "z.mp3".toList])]

/-- What the scan finds of a song. -/
def song (file artist : String) (track : ℕ) : Metadata :=
  ⟨("/m/" ++ file).toList, file.toList, artist.toList, "Unknown".toList, track, none⟩

/-- Artists, B, its second song, and on to the next one, which is the first. -/
def songKeys : List Poll :=
  [.press 1 108, .press 2 28, .press 3 108, .press 4 28, .press 5 108, .press 6 28, .press 7 106]

theorem run_pages_player :
    NeoDCT.Shows (playerOps Ui.plain (fun _ => none) (song "z.mp3" "B" 1) 0 2)
      (finalState (run Ui.plain (fun _ => none) .latin1 songFiles songWalk)
        (.boot ⟨.empty, none, none⟩ songKeys)) := by
  have hscan : scan .latin1 songFiles songWalk =
      [song "x.mp3" "B" 2, song "y.mp3" "A" 1, song "z.mp3" "B" 1] := by
    decide +kernel
  obtain ⟨-, -, -, -, hpages⟩ := run_pages Ui.plain rfl (fun _ => none) .latin1 songFiles songWalk
    (.boot ⟨.empty, none, none⟩ songKeys)
  have hshown := hpages (by rw [hscan]; exact List.cons_ne_nil _ _)
  rw [hscan] at hshown
  obtain ⟨track, htrack, hshows⟩ := hshown.2
  have htrack : track = song "z.mp3" "B" 1 := Option.some.inj htrack.symm
  rw [htrack] at hshows
  exact hshows

end NeoDCT.Icebox
