import NeoDCT.Lib.Chunks
import NeoDCT.Lib.PyBytes
import NeoDCT.Lib.PyNumbers

/-!
# ID3 tags

Development/Icebox/MusicPlayer/main.py: the tag at the front of an MP3 file, read one frame a turn.  `frames`
is what the loop goes through, whatever it makes of it, and reading ends with

    readId3v2 u n file = some (readTags u (frames file))                              (readId3v2_eq)

for every file, once there are turns enough.  It raises where a track number is all digits, and `int` does
not convert it.
-/

namespace NeoDCT.Id3

open PyText PyBytes Chunks

/-! ## The parser -/

/-- `info`: the keys that are set. -/
@[ext]
structure Tags where
  title : Option Text
  artist : Option Text
  album : Option Text
  track : Option ℕ
  image : Option Bytes
deriving DecidableEq

def Tags.empty : Tags := ⟨none, none, none, none, none⟩

/-- What a reading raises. -/
inductive PyError where
  | valueError
deriving DecidableEq

/-- `parse_synchsafe`. -/
def parseSynchsafe : Bytes → ℕ
  | [a, b, c, d] => a.toNat <<< 21 ||| b.toNat <<< 14 ||| c.toNat <<< 7 ||| d.toNat
  | _ => 0

/-- `text.strip("\x00")`. -/
def stripNul (text : Text) : Text :=
  ((text.dropWhile (· = '\x00')).reverse.dropWhile (· = '\x00')).reverse

/-- `decode_text_frame`. -/
def decodeTextFrame : Bytes → Text
  | [] => []
  | encoding :: content =>
    let decoded :=
      if encoding = 0 then some (latin1 content)
      else if encoding = 1 then utf16 content
      else if encoding = 3 then utf8 content
      else none
    match decoded with
    | some text => strip (stripNul text)
    | none => []

/-- `val.split("/")[0]`, if there is a slash. -/
def numberPart (val : Text) : Text := if val.contains '/' then (val.splitOn '/').headD [] else val

/-- What a frame sets. -/
def setTag (u : Numerals) (info : Tags) (frameId : Text) (data : Bytes) : Except PyError Tags :=
  if frameId = "TIT2".toList then .ok { info with title := some (decodeTextFrame data) }
  else if frameId = "TPE1".toList ∨ frameId = "TPE2".toList then
    .ok { info with artist := some (decodeTextFrame data) }
  else if frameId = "TALB".toList then .ok { info with album := some (decodeTextFrame data) }
  else if frameId = "TRCK".toList then
    let val := numberPart (decodeTextFrame data)
    if u.isdigit val then
      match u.int val with
      | none => .error .valueError
      | some track => .ok { info with track := some track }
    else .ok info
  else if frameId = "APIC".toList then
    let mimeEnd := find data 0 1
    let imgData := data.drop (mimeEnd + 1).toNat
    let descEnd := find imgData 0 0
    .ok { info with image := some (imgData.drop (descEnd + 1).toNat) }
  else .ok info

/-- The loop's variables. -/
structure Reader where
  offset : ℕ
  info : Tags
deriving DecidableEq

/-- One turn of the loop. -/
def readFrame (u : Numerals) (tagBlob : Bytes) (s : Reader) : Turn Reader (Except PyError Tags) :=
  if s.offset + 10 ≤ tagBlob.length then
    let frameId := latin1 (slice tagBlob s.offset (s.offset + 4))
    if stripNul frameId = [] then .done (.ok s.info)
    else
      let size := intFromBytesBig (slice tagBlob (s.offset + 4) (s.offset + 8))
      if size ≤ 0 then .done (.ok s.info)
      else
        let data := slice tagBlob (s.offset + 10) (s.offset + 10 + size)
        let offset := s.offset + (10 + size)
        match setTag u s.info frameId data with
        | .error e => .done (.error e)
        | .ok info => .next ⟨offset, info⟩
  else .done (.ok s.info)

/-- What is read of the file behind its header, if that is one of a tag. -/
def tagBlob (file : Bytes) : Option Bytes :=
  let header := file.take 10
  if header.length < 10 ∨ header.take 3 ≠ [0x49, 0x44, 0x33] then none
  else
    let tagSize := parseSynchsafe (slice header 6 10)
    some ((file.drop 10).take (min tagSize 1000000))

/-- `read_id3v2`, in at most `n` turns of its loop: `none` is one that still goes on. -/
def readId3v2 (u : Numerals) (n : ℕ) (file : Bytes) : Option (Except PyError Tags) :=
  match tagBlob file with
  | none => some (.ok .empty)
  | some tagBlob => run (readFrame u tagBlob) n ⟨0, .empty⟩

/-- `data` of `get_metadata`. -/
structure Metadata where
  path : Text
  title : Text
  artist : Text
  album : Text
  track : ℕ
  image : Option Bytes
deriving DecidableEq

/-- `os.path.basename`. -/
def basename (path : Text) : Text := (path.splitOn '/').getLastD []

/-- What `data` begins as. -/
def Metadata.new (path : Text) : Metadata :=
  ⟨path, basename path, "Unknown".toList, "Unknown".toList, 999, none⟩

/-- `data.update(tags)`. -/
def Metadata.update (data : Metadata) (tags : Tags) : Metadata where
  path := data.path
  title := tags.title.getD data.title
  artist := tags.artist.getD data.artist
  album := tags.album.getD data.album
  track := tags.track.getD data.track
  image := tags.image.or data.image

/-- `get_metadata`, of a file that may not be there to open. -/
def getMetadata (u : Numerals) (n : ℕ) (path : Text) (file : Option Bytes) : Option Metadata :=
  match file with
  | none => some (.new path)
  | some file =>
    (readId3v2 u n file).map fun
      | .ok tags => (Metadata.new path).update tags
      | .error _ => .new path

/-! ## Frames -/

/-- A frame as the loop sees it. -/
structure Frame where
  id : Text
  data : Bytes
deriving DecidableEq

/-- The frame at the front of a tag, and what is behind it. -/
def takeFrame (blob : Bytes) : Option (Frame × Bytes) :=
  let size := intFromBytesBig (slice blob 4 8)
  if blob.length < 10 ∨ (∀ b ∈ blob.take 4, b = 0) ∨ size = 0 then none
  else some (⟨latin1 (blob.take 4), (blob.drop 10).take size⟩, blob.drop (10 + size))

theorem takeFrame_eq_some {blob rest : Bytes} {frame : Frame} (h : takeFrame blob = some (frame, rest)) :
    10 ≤ blob.length ∧ ¬ (∀ b ∈ blob.take 4, b = 0) ∧ intFromBytesBig (slice blob 4 8) ≠ 0 ∧
      frame = ⟨latin1 (blob.take 4), (blob.drop 10).take (intFromBytesBig (slice blob 4 8))⟩ ∧
      rest = blob.drop (10 + intFromBytesBig (slice blob 4 8)) := by
  unfold takeFrame at h
  dsimp only at h
  split at h
  next => cases h
  next hc =>
    rw [not_or, not_or, not_lt] at hc
    obtain ⟨rfl, rfl⟩ := Prod.mk.inj (Option.some.inj h)
    exact ⟨hc.1, hc.2.1, hc.2.2, rfl, rfl⟩

/-- The frames of a tag, one behind the other. -/
def format : Format UInt8 Frame where
  next := takeFrame
  shorter h := by
    obtain ⟨hlen, -, -, -, rfl⟩ := takeFrame_eq_some h
    rw [List.length_drop]
    omega

/-- The frames of a file. -/
def frames (file : Bytes) : List Frame :=
  match tagBlob file with
  | none => []
  | some blob => format.chunks blob

/-- What some frames set, the later ones last. -/
def readTags (u : Numerals) (frames : List Frame) : Except PyError Tags :=
  frames.foldlM (fun info frame => setTag u info frame.id frame.data) .empty

/-- The tags of a frame over those before it. -/
def Tags.update (info tags : Tags) : Tags where
  title := tags.title.or info.title
  artist := tags.artist.or info.artist
  album := tags.album.or info.album
  track := tags.track.or info.track
  image := tags.image.or info.image

/-! ## The loop goes through the frames -/

theorem slice_drop (data : Bytes) (k i j : ℕ) : slice data (k + i) (k + j) = slice (data.drop k) i j := by
  unfold slice
  rw [List.drop_drop, Nat.add_sub_add_left]

theorem stripNul_eq_nil_iff {text : Text} : stripNul text = [] ↔ ∀ c ∈ text, c = '\x00' := by
  unfold stripNul
  rw [List.reverse_eq_nil_iff, List.dropWhile_eq_nil_iff]
  simp only [List.mem_reverse, decide_eq_true_eq]
  constructor
  · intro h c hc
    rw [← List.takeWhile_append_dropWhile (p := (· = '\x00')) (l := text), List.mem_append] at hc
    rcases hc with hc | hc
    · simpa using List.mem_takeWhile_imp hc
    · exact h c hc
  · intro h c hc
    exact h c (List.dropWhile_sublist _ |>.subset hc)

theorem stripNul_eq_self {text : Text} (h : '\x00' ∉ text) : stripNul text = text := by
  have hdrop : ∀ {l : Text}, '\x00' ∉ l → l.dropWhile (· = '\x00') = l := by
    intro l hl
    cases l with
    | nil => rfl
    | cons c cs => exact dropWhile_of_head (decide_eq_false fun heq => hl (heq ▸ List.mem_cons_self))
  unfold stripNul
  rw [hdrop h, hdrop (List.mem_reverse.not.mpr h), List.reverse_reverse]

theorem stripNul_latin1_eq_nil_iff {data : Bytes} : stripNul (latin1 data) = [] ↔ ∀ b ∈ data, b = 0 := by
  rw [stripNul_eq_nil_iff]
  unfold latin1
  rw [List.forall_mem_map]
  refine forall₂_congr fun b _ => ⟨fun h => ?_, fun h => by rw [h]; rfl⟩
  have hlatin1 : latin1 [b] = latin1 [0] := congrArg (fun c => [c]) h
  exact List.singleton_inj.mp (latin1_injective hlatin1)

section
variable {u : Numerals} {blob rest : Bytes} {s s' : Reader} {frame : Frame}

theorem readFrame_of_none (h : takeFrame (blob.drop s.offset) = none) :
    readFrame u blob s = .done (.ok s.info) := by
  unfold takeFrame at h
  rw [← slice_drop] at h
  unfold readFrame
  dsimp only at h ⊢
  split
  next hlen =>
    split
    next => rfl
    next hid =>
      have hsize : intFromBytesBig (slice blob (s.offset + 4) (s.offset + 8)) = 0 := by
        by_contra hsize
        have hid' : ¬ ∀ b ∈ (blob.drop s.offset).take 4, b = 0 := by
          rw [stripNul_latin1_eq_nil_iff, slice, Nat.add_sub_cancel_left] at hid
          exact hid
        have hlen' : ¬ (blob.drop s.offset).length < 10 := by
          rw [List.length_drop]
          omega
        rw [if_neg (not_or.mpr ⟨hlen', not_or.mpr ⟨hid', hsize⟩⟩)] at h
        cases h
      rw [if_pos hsize.le]
  next => rfl

theorem readFrame_of_some (h : takeFrame (blob.drop s.offset) = some (frame, rest)) :
    ∃ size, 0 < size ∧ rest = blob.drop (s.offset + (10 + size)) ∧
      readFrame u blob s =
        match setTag u s.info frame.id frame.data with
        | .error e => .done (.error e)
        | .ok info => .next ⟨s.offset + (10 + size), info⟩ := by
  obtain ⟨hlen, hid, hsize, rfl, rfl⟩ := takeFrame_eq_some h
  rw [← slice_drop] at hsize ⊢
  rw [List.length_drop] at hlen
  refine ⟨intFromBytesBig (slice blob (s.offset + 4) (s.offset + 8)), Nat.pos_of_ne_zero hsize,
    List.drop_drop, ?_⟩
  have hid' : ¬ stripNul (latin1 (slice blob s.offset (s.offset + 4))) = [] := by
    rw [stripNul_latin1_eq_nil_iff, slice, Nat.add_sub_cancel_left]
    exact hid
  unfold readFrame
  rw [if_pos (by omega), if_neg hid', if_neg (by omega)]
  unfold slice
  rw [Nat.add_sub_cancel_left, Nat.add_sub_cancel_left, List.drop_drop]

/-- A turn that goes on has moved the offset forward. -/
theorem lt_offset_of_next (h : readFrame u blob s = .next s') : s.offset + 10 < s'.offset := by
  cases htake : takeFrame (blob.drop s.offset) with
  | none =>
    rw [readFrame_of_none htake] at h
    cases h
  | some r =>
    obtain ⟨size, hsize, -, hread⟩ := readFrame_of_some (u := u) htake
    rw [hread] at h
    split at h
    next => cases h
    next info _ =>
      obtain rfl := Turn.next.inj h
      show s.offset + 10 < s.offset + (10 + size)
      omega

/-- The loop handles one frame a turn. -/
theorem readFrame_walks (u : Numerals) (blob : Bytes) :
    Walks format (fun info frame => setTag u info frame.id frame.data) (fun s => blob.drop s.offset)
      Reader.info (readFrame u blob) where
  stops h := readFrame_of_none h
  fails := by
    intro s frame rest e hnext hset
    obtain ⟨size, -, -, hread⟩ := readFrame_of_some (u := u) hnext
    rw [hread, hset]
  goesOn := by
    intro s frame rest info hnext hset
    obtain ⟨size, -, hrest, hread⟩ := readFrame_of_some (u := u) hnext
    exact ⟨⟨s.offset + (10 + size), info⟩, by rw [hread, hset], hrest.symm, rfl⟩

end

/-- **Reading ends**, for every file: it is a fold over the frames. -/
theorem readId3v2_eq (u : Numerals) {n : ℕ} {file : Bytes} (h : file.length < n) :
    readId3v2 u n file = some (readTags u (frames file)) := by
  unfold readId3v2 frames
  cases hblob : tagBlob file with
  | none => rfl
  | some blob =>
    have hlen : blob.length ≤ file.length := by
      unfold tagBlob at hblob
      dsimp only at hblob
      split at hblob
      next => cases hblob
      next =>
        obtain rfl := Option.some.inj hblob
        rw [List.length_take, List.length_drop]
        omega
    exact (readFrame_walks u blob).run_eq (s := ⟨0, .empty⟩) (by rw [List.length_drop]; omega)

/-- However many turns it is given, what it ends with is the same. -/
theorem readTags_eq_of_readId3v2 {u : Numerals} {n : ℕ} {file : Bytes} {r : Except PyError Tags}
    (h : readId3v2 u n file = some r) : readTags u (frames file) = r := by
  have hend := readId3v2_eq u (Nat.lt_succ_self file.length)
  unfold readId3v2 at h hend
  split at h
  next hblob =>
    rw [hblob] at hend
    exact Option.some.inj (hend.symm.trans h)
  next blob hblob =>
    rw [hblob] at hend
    exact run_unique hend h

/-- `read_id3v2` returns a dictionary. -/
def ReadsTags (u : Numerals) (file : Bytes) : Prop := ∃ n tags, readId3v2 u n file = some (.ok tags)

theorem readsTags_iff {u : Numerals} {file : Bytes} :
    ReadsTags u file ↔ Interactive.Works (readTags u (frames file)) := by
  constructor
  · rintro ⟨n, tags, h⟩
    exact ⟨tags, readTags_eq_of_readId3v2 h⟩
  · rintro ⟨tags, h⟩
    exact ⟨file.length + 1, tags, by rw [readId3v2_eq u (Nat.lt_succ_self _), h]⟩

/-! ## What is raised -/

section
variable {u : Numerals} {info : Tags} {frameId : Text} {data : Bytes}

/-- Only track numbers raise. -/
theorem works_setTag_of_ne (h : frameId ≠ "TRCK".toList) :
    Interactive.Works (setTag u info frameId data) := by
  unfold setTag
  split
  next => exact ⟨_, rfl⟩
  next =>
    split
    next => exact ⟨_, rfl⟩
    next =>
      split
      next => exact ⟨_, rfl⟩
      next =>
        split
        next => exact ⟨_, rfl⟩
        next => exact ⟨_, rfl⟩

theorem setTag_trck : setTag u info "TRCK".toList data =
    if u.isdigit (numberPart (decodeTextFrame data)) then
      match u.int (numberPart (decodeTextFrame data)) with
      | none => .error .valueError
      | some track => .ok { info with track := some track }
    else .ok info := by
  unfold setTag
  rw [if_neg (by decide), if_neg (by decide), if_neg (by decide), if_pos rfl]

end

/-- A track number that is all digits is one that `int` converts. -/
def TrackConverts (u : Numerals) (frame : Frame) : Prop :=
  frame.id = "TRCK".toList → u.isdigit (numberPart (decodeTextFrame frame.data)) = true →
    u.Converts (numberPart (decodeTextFrame frame.data))

theorem works_setTag_iff {u : Numerals} {info : Tags} {frame : Frame} :
    Interactive.Works (setTag u info frame.id frame.data) ↔ TrackConverts u frame := by
  by_cases hid : frame.id = "TRCK".toList
  · have hconv : TrackConverts u frame ↔
        (u.isdigit (numberPart (decodeTextFrame frame.data)) = true →
          (u.int (numberPart (decodeTextFrame frame.data))).isSome) := by
      unfold TrackConverts
      rw [Numerals.isSome_int]
      exact ⟨fun h => h hid, fun h _ => h⟩
    rw [hconv, hid, setTag_trck]
    split
    next hdigit =>
      cases hint : u.int (numberPart (decodeTextFrame frame.data)) with
      | none =>
        refine iff_of_false ?_ fun h => Bool.noConfusion (h hdigit)
        rintro ⟨_, h⟩
        cases h
      | some track => exact iff_of_true ⟨_, rfl⟩ fun _ => rfl
    next hdigit => exact iff_of_true ⟨info, rfl⟩ fun h => absurd h hdigit
  · exact iff_of_true (works_setTag_of_ne hid) fun h => absurd h hid

/-- What a frame sets does not depend on what is set. -/
theorem setTag_eq (u : Numerals) (info : Tags) (frameId : Text) (data : Bytes) :
    setTag u info frameId data = (setTag u .empty frameId data).map info.update := by
  unfold setTag
  dsimp only
  split
  next => rfl
  next =>
    split
    next => rfl
    next =>
      split
      next => rfl
      next =>
        split
        next =>
          split
          next =>
            cases u.int (numberPart (decodeTextFrame data)) with
            | none => rfl
            | some track => rfl
          next => rfl
        next =>
          split
          next => rfl
          next => rfl

theorem readTags_eq (u : Numerals) (frames : List Frame) : readTags u frames =
    frames.foldlM (fun info frame => (setTag u .empty frame.id frame.data).map info.update) .empty := by
  have hset : (fun info (frame : Frame) => setTag u info frame.id frame.data) =
      fun info frame => (setTag u .empty frame.id frame.data).map info.update := by
    funext info frame
    exact setTag_eq u info frame.id frame.data
  unfold readTags
  rw [hset]

theorem works_readTags_iff {u : Numerals} {frames : List Frame} :
    Interactive.Works (readTags u frames) ↔ ∀ frame ∈ frames, TrackConverts u frame := by
  rw [readTags_eq, works_foldlM_iff]
  exact forall₂_congr fun frame _ => works_setTag_iff

/-- **When reading returns a dictionary**: each turn of the loop stops it or moves the offset on, so that it
ends for every file, and it has raised nothing unless `int` does not convert a number that is all digits. -/
theorem readId3v2_reads_iff (u : Numerals) (file : Bytes) :
    (∀ blob s s', readFrame u blob s = .next s' → s.offset < s'.offset) ∧
    (∃ n r, readId3v2 u n file = some r) ∧
    (ReadsTags u file ↔ ∀ frame ∈ frames file, TrackConverts u frame) := by
  refine ⟨fun blob s s' h => ?_, ⟨_, _, readId3v2_eq u (Nat.lt_succ_self file.length)⟩, ?_⟩
  · have hlt := lt_offset_of_next h
    omega
  · rw [readsTags_iff, works_readTags_iff]

/-- A tag with one frame, track "²". -/
def superscriptTrack : Bytes :=
  [0x49, 0x44, 0x33, 3, 0, 0, 0, 0, 0, 12] ++ [0x54, 0x52, 0x43, 0x4B, 0, 0, 0, 2, 0, 0] ++ [0, 0xB2]

/-- `"²".isdigit()` holds, and `int("²")` raises. -/
theorem readId3v2_raises : ¬ ∀ (u : Numerals) (file : Bytes), ReadsTags u file := by
  intro hall
  obtain ⟨n, tags, h⟩ := hall .latin1 superscriptTrack
  have hread : readId3v2 .latin1 2 superscriptTrack = some (.error .valueError) := by decide +kernel
  have hframes := readTags_eq_of_readId3v2 hread
  rw [readTags_eq_of_readId3v2 h] at hframes
  cases hframes

/-- A reading that raises leaves nothing of the tag: what was set before is lost with it. -/
theorem getMetadata_of_not_readsTags {u : Numerals} {file : Bytes} (h : ¬ ReadsTags u file) {n : ℕ}
    (hn : file.length < n) (path : Text) : getMetadata u n path (some file) = some (.new path) := by
  unfold getMetadata
  dsimp only
  rw [readId3v2_eq u hn]
  cases hread : readTags u (frames file) with
  | error e => rfl
  | ok tags => exact absurd (readsTags_iff.mpr ⟨tags, hread⟩) h

end NeoDCT.Id3
