import NeoDCT.Icebox.Id3ReadBack

/-!
# Which tags are read back

A song written in any of the encodings is, if the sizes of its frames are (`Song.readsBack`).

The parser reads these sizes as plain numbers, and those of ID3v2.4 are in septets: from 128 on it cuts the
frame too late, and goes on where no frame begins.  So if a payload is that long, and anything is behind it
to be cut, some tag of the same shape is not read back (`exists_not_readsBack`): one with a picture for that
payload, and for every other a frame of no kind that is read.
-/

namespace NeoDCT.Id3

open PyText PyBytes Chunks

/-! ## Songs -/

/-- What a tag says of a song. -/
structure Song where
  title : Text
  artist : Text
  album : Text
  track : ℕ
  total : Option ℕ
  mime : Bytes
  pictureType : UInt8
  desc : Bytes
  image : Bytes

namespace Song

/-- What should be read of it. -/
def tags (song : Song) : Tags :=
  ⟨some song.title, some song.artist, some song.album, some song.track, some song.image⟩

/-- A frame for each, the texts in one encoding. -/
def written (encoding : Encoding) (song : Song) : List Written := [
  ⟨[0x54, 0x49, 0x54, 0x32], [0, 0], textFrame encoding song.title, rfl, by decide, rfl,
    textFrame_ne_nil encoding _⟩,
  ⟨[0x54, 0x50, 0x45, 0x31], [0, 0], textFrame encoding song.artist, rfl, by decide, rfl,
    textFrame_ne_nil encoding _⟩,
  ⟨[0x54, 0x41, 0x4C, 0x42], [0, 0], textFrame encoding song.album, rfl, by decide, rfl,
    textFrame_ne_nil encoding _⟩,
  ⟨[0x54, 0x52, 0x43, 0x4B], [0, 0], textFrame encoding (trackText song.track song.total), rfl, by decide, rfl,
    textFrame_ne_nil encoding _⟩,
  ⟨[0x41, 0x50, 0x49, 0x43], [0, 0], picture song.mime song.pictureType song.desc song.image, rfl, by decide,
    rfl, List.cons_ne_nil _ _⟩]

/-- The texts have no blanks or NULs at their ends, and characters of the encoding; the number converts; the
picture is not of type 0. -/
structure Encodable (u : Numerals) (encoding : Encoding) (song : Song) : Prop where
  strip : ∀ text ∈ [song.title, song.artist, song.album], PyText.strip (stripNul text) = text
  latin1 : encoding = .latin1 → ∀ text ∈ [song.title, song.artist, song.album], ∀ c ∈ text, c.toNat < 256
  track : u.maxStrDigits = 0 ∨ (Nat.toDigits 10 song.track).length ≤ u.maxStrDigits
  mime : 0 ∉ song.mime
  desc : 0 ∉ song.desc
  pictureType : song.pictureType ≠ 0

theorem Encodable.decode {u : Numerals} {encoding : Encoding} {song : Song} (h : song.Encodable u encoding) :
    ∀ text ∈ [song.title, song.artist, song.album], decodeTextFrame (textFrame encoding text) = text :=
  fun text htext => decodeTextFrame_textFrame (fun he => h.latin1 he text htext) (h.strip text htext)

/-- What `payloadsOf` finds of a song. -/
theorem payloadsOf_written (encoding : Encoding) (song : Song) :
    payloadsOf ["TIT2".toList] (song.written encoding) = [textFrame encoding song.title] ∧
    payloadsOf ["TPE1".toList, "TPE2".toList] (song.written encoding) = [textFrame encoding song.artist] ∧
    payloadsOf ["TALB".toList] (song.written encoding) = [textFrame encoding song.album] ∧
    payloadsOf ["TRCK".toList] (song.written encoding) =
      [textFrame encoding (trackText song.track song.total)] ∧
    payloadsOf ["APIC".toList] (song.written encoding) =
      [picture song.mime song.pictureType song.desc song.image] := ⟨rfl, rfl, rfl, rfl, rfl⟩

theorem Encodable.tracksEnd {u : Numerals} {encoding : Encoding} {song : Song}
    (h : song.Encodable u encoding) : TracksEnd u (song.written encoding) := by
  obtain ⟨-, -, -, htrck, -⟩ := payloadsOf_written encoding song
  have hnumeric := numeric_of_trackNumber (trackNumber_textFrame encoding song.total h.track)
  refine ⟨fun f hf hid _ => ?_, fun _ data hdata => ?_⟩
  · have hmem := mem_payloadsOf.mpr ⟨f, hf, List.mem_singleton.mpr hid, rfl⟩
    rw [htrck] at hmem
    show u.Converts (numberPart (decodeTextFrame f.payload))
    rw [List.mem_singleton.mp hmem]
    exact hnumeric.2
  · rw [htrck] at hdata
    obtain rfl := Option.some.inj hdata
    exact hnumeric.1

theorem Encodable.pictureTyped {u : Numerals} {encoding : Encoding} {song : Song}
    (h : song.Encodable u encoding) : PictureTyped (song.written encoding) := by
  obtain ⟨-, -, -, -, hapic⟩ := payloadsOf_written encoding song
  intro mime pictureType desc img hmime _ hlast
  rw [hapic] at hlast
  have heq : picture song.mime song.pictureType song.desc song.image = picture mime pictureType desc img :=
    Option.some.inj hlast
  have hdrop := drop_picture hmime pictureType desc img
  rw [← heq, drop_picture h.mime] at hdrop
  rw [← (List.cons.inj hdrop).1]
  exact h.pictureType

/-- **A song is read back**, if the sizes of its frames are. -/
theorem readsBack {u : Numerals} {encoding : Encoding} {song : Song} (h : song.Encodable u encoding) {t : Tag}
    (hframes : t.frames = song.written encoding) (hfit : t.SizesFit) (rest : Bytes) :
    ∃ n, readId3v2 u n (t.file rest) = some (.ok song.tags) := by
  obtain ⟨htit2, htpe, htalb, htrck, hapic⟩ := payloadsOf_written encoding song
  have hcond : TracksEnd u t.frames ∧ PictureTyped t.frames := by
    rw [hframes]
    exact ⟨h.tracksEnd, h.pictureTyped⟩
  obtain ⟨n, tags, hread, hback⟩ := (readsBack_iff_of_sizesFit hfit rest).mpr hcond
  rw [hframes] at hback
  have htags : tags = song.tags := by
    apply Tags.ext
    · rw [hback.title, htit2]
      exact congrArg some (h.decode _ (by simp))
    · rw [hback.artist, htpe]
      exact congrArg some (h.decode _ (by simp))
    · rw [hback.album, htalb]
      exact congrArg some (h.decode _ (by simp))
    · rw [hback.track, htrck]
      exact trackNumber_textFrame encoding song.total h.track
    · exact hback.image _ _ _ _ h.mime h.desc (by rw [hapic]; rfl)
  exact ⟨n, htags ▸ hread⟩

end Song

/-! ## Shapes -/

namespace Written

/-- A frame as long as `f`, of no kind that is read. -/
def blank (f : Written) : Written where
  id := List.replicate 4 0xFF
  flags := List.replicate 2 0xFF
  payload := List.replicate f.payload.length 0xFF
  length_id := rfl
  id_ne h := absurd (h 0xFF List.mem_cons_self) (by decide)
  length_flags := rfl
  payload_ne := by
    have hpos := f.payload_pos
    rw [Ne, List.replicate_eq_nil_iff]
    omega

/-- A picture as long as `f`. -/
def pictured (f : Written) : Written where
  id := [0x41, 0x50, 0x49, 0x43]
  flags := List.replicate 2 0xFF
  payload := picture [] 3 [] (List.replicate (f.payload.length - 4) 1)
  length_id := rfl
  id_ne := by decide
  length_flags := rfl
  payload_ne := List.cons_ne_nil _ _

theorem length_blank (f : Written) : f.blank.payload.length = f.payload.length := List.length_replicate

theorem length_pictured {f : Written} (h : 4 ≤ f.payload.length) :
    f.pictured.payload.length = f.payload.length := by
  show (List.replicate (f.payload.length - 4) (1 : UInt8)).length + 1 + 1 + 1 + 1 = _
  rw [List.length_replicate]
  omega

end Written

theorem payloadsOf_append (ids : List Text) (frames frames' : List Written) :
    payloadsOf ids (frames ++ frames') = payloadsOf ids frames ++ payloadsOf ids frames' := by
  unfold payloadsOf
  rw [List.filter_append, List.map_append]

theorem payloadsOf_blank (frames : List Written) :
    payloadsOf ["APIC".toList] (frames.map Written.blank) = [] := by
  rw [List.eq_nil_iff_forall_not_mem]
  intro data hdata
  obtain ⟨f, hf, hid, -⟩ := mem_payloadsOf.mp hdata
  obtain ⟨g, -, rfl⟩ := List.mem_map.mp hf
  have hne : (Written.blank g).frame.id ≠ "APIC".toList := by
    show latin1 (List.replicate 4 0xFF) ≠ "APIC".toList
    decide
  exact hne (List.mem_singleton.mp hid)

/-! ## No picture behind -/

/-- A string of bytes has no picture frame in it, wherever it is read from. -/
def NoPicture (data : Bytes) : Prop := ∀ m, (data.drop m).take 4 ≠ [0x41, 0x50, 0x49, 0x43]

theorem NoPicture.cons {data : Bytes} (h : NoPicture data) {b : UInt8} (hb : b ≠ 0x41) :
    NoPicture (b :: data) := by
  intro m
  cases m with
  | zero =>
    intro heq
    exact hb (List.cons.inj heq).1
  | succ m => exact h m

theorem NoPicture.replicate_append {data : Bytes} (h : NoPicture data) (n : ℕ) {b : UInt8} (hb : b ≠ 0x41) :
    NoPicture (List.replicate n b ++ data) := by
  induction n with
  | zero => exact h
  | succ n ih => exact ih.cons hb

theorem noPicture_nil : NoPicture [] := by
  intro m h
  rw [List.drop_nil] at h
  cases h

/-- The last two septets of a size may begin like one, but the flags behind them do not go on so. -/
theorem noPicture_size {data : Bytes} (h : NoPicture data) {n : ℕ} (hn : n ≤ 1000000) :
    NoPicture (synchsafe n ++ (0xFF :: 0xFF :: data)) := by
  have htail : NoPicture (0xFF :: 0xFF :: data) := (h.cons (by decide)).cons (by decide)
  have hlow : ∀ b : UInt8, NoPicture (b :: 0xFF :: 0xFF :: data) := by
    intro b m
    cases m with
    | zero =>
      intro heq
      exact absurd (List.cons.inj (List.cons.inj heq).2).1 (by decide)
    | succ m => exact htail m
  have hseptet : ∀ k, n / 2 ^ k < 65 → UInt8.ofNat (n / 2 ^ k % 128) ≠ 0x41 := by
    intro k hk heq
    have hnat := congrArg UInt8.toNat heq
    rw [toNat_ofNat_mod, Nat.mod_eq_of_lt (by omega)] at hnat
    exact absurd hnat hk.ne
  have hmid : ∀ b c : UInt8, NoPicture (b :: c :: 0xFF :: 0xFF :: data) := by
    intro b c m
    cases m with
    | zero =>
      intro heq
      exact absurd (List.cons.inj (List.cons.inj (List.cons.inj heq).2).2).1 (by decide)
    | succ m => exact hlow c m
  show NoPicture (_ :: _ :: _ :: _ :: 0xFF :: 0xFF :: data)
  refine NoPicture.cons (NoPicture.cons (hmid _ _) (hseptet 14 ?_)) (hseptet 21 ?_)
  · omega
  · omega

/-- Frames of no kind, and padding: there is no picture to be found. -/
theorem noPicture_body {frames : List Written} (h : ∀ f ∈ frames, f.payload.length ≤ 1000000) (padding : ℕ) :
    NoPicture (body .v24 (frames.map Written.blank) padding) := by
  induction frames with
  | nil =>
    have hpadding := noPicture_nil.replicate_append padding (b := 0) (by decide)
    rwa [List.append_nil] at hpadding
  | cons f frames ih =>
    rw [List.forall_mem_cons] at h
    rw [List.map_cons, body_cons]
    have hpayload := (ih h.2).replicate_append f.payload.length (b := 0xFF) (by decide)
    have hsize := noPicture_size hpayload h.1
    have hid := hsize.replicate_append 4 (b := 0xFF) (by decide)
    have hencode : f.blank.encode .v24 ++ body .v24 (frames.map Written.blank) padding =
        List.replicate 4 0xFF ++ (synchsafe f.payload.length ++ (0xFF :: 0xFF ::
          (List.replicate f.payload.length 0xFF ++ body .v24 (frames.map Written.blank) padding))) := by
      unfold Written.encode
      rw [f.length_blank]
      simp only [List.append_assoc]
      rfl
    rwa [hencode]

theorem NoPicture.drop {data : Bytes} (h : NoPicture data) (n : ℕ) : NoPicture (data.drop n) := by
  intro m
  rw [List.drop_drop]
  exact h (n + m)

/-- The parser does not find one either, wherever it begins. -/
theorem NoPicture.chunks {data : Bytes} (h : NoPicture data) :
    ∀ frame ∈ format.chunks data, frame.id ≠ "APIC".toList := by
  refine Format.forall_mem_chunks (fun hnext => ?_) fun hsuffix hnext hid => ?_
  · obtain ⟨-, -, -, -, rfl⟩ := takeFrame_eq_some hnext
    exact List.drop_suffix _ _
  · obtain ⟨-, -, -, rfl, -⟩ := takeFrame_eq_some hnext
    have hapic : latin1 [0x41, 0x50, 0x49, 0x43] = "APIC".toList := by decide
    have hid := latin1_injective (hid.trans hapic.symm)
    rw [List.suffix_iff_eq_drop.mp hsuffix] at hid
    exact h _ hid

/-! ## A picture misread -/

theorem Written.valueOf_pictured (f : Written) (img : Bytes) :
    valueOf ["APIC".toList] (fun data => some (apicImage data))
      ⟨latin1 f.pictured.id, picture [] 3 [] img⟩ = some img := by
  have hid : ["APIC".toList].contains (latin1 f.pictured.id) = true := by
    show ["APIC".toList].contains (latin1 [0x41, 0x50, 0x49, 0x43]) = true
    decide
  unfold valueOf
  rw [if_pos hid]
  show some (apicImage (picture [] 3 [] img)) = some img
  rw [apicImage_picture List.not_mem_nil List.not_mem_nil, if_neg (by decide)]

/-- What is cut where a picture's size is misread: more than its image, and no picture behind it. -/
theorem chunks_misread {f : Written} {pre post : List Written} {padding : ℕ}
    (hpre : ∀ g ∈ pre, g.payload.length < 128) (hf : 128 ≤ f.payload.length)
    (hle : f.payload.length ≤ 1000000) (hpost : ∀ g ∈ post, g.payload.length ≤ 1000000)
    (hend : ¬ (post = [] ∧ padding = 0)) :
    ∃ more behind, more ≠ [] ∧ (∀ frame ∈ behind, frame.id ≠ "APIC".toList) ∧
      format.chunks (body .v24 (pre.map Written.blank ++ f.pictured :: post.map Written.blank) padding) =
        (pre.map Written.blank).map Written.frame ++ ⟨latin1 f.pictured.id,
          picture [] 3 [] (List.replicate (f.payload.length - 4) 1 ++ more)⟩ :: behind := by
  have hlen := Written.length_pictured (f := f) (by omega)
  have hread := le_readSize (v := .v24) (show f.payload.length < 2 ^ 28 by omega)
  have hmisread : Version.v24.readSize f.payload.length ≠ f.payload.length := by
    rw [Ne, readSize_eq_iff (by omega)]
    rintro (hv | hlt)
    · cases hv
    · omega
  have htail : body .v24 (post.map Written.blank) padding ≠ [] := by
    rwa [Ne, body_eq_nil_iff, List.map_eq_nil_iff]
  have hnone := noPicture_body hpost padding
  have hsizes : ∀ g ∈ pre.map Written.blank, Version.v24.readSize g.payload.length = g.payload.length ∧
      g.payload.length < 2 ^ 28 := by
    intro g hg
    obtain ⟨g', hg', rfl⟩ := List.mem_map.mp hg
    have hlt := hpre g' hg'
    rw [g'.length_blank]
    exact ⟨(readSize_eq_iff (by omega)).mpr (Or.inr hlt), by omega⟩
  rw [chunks_body_append hsizes, body_cons,
    Format.chunks_of_some (takeFrame_encode .v24 f.pictured (by omega) _), hlen]
  generalize body .v24 (post.map Written.blank) padding = tail at htail hnone ⊢
  generalize Version.v24.readSize f.payload.length = size at hread hmisread ⊢
  refine ⟨tail.take (size - f.payload.length), format.chunks (tail.drop (size - f.payload.length)),
    ?_, (hnone.drop _).chunks, ?_⟩
  · intro hnil
    rcases List.take_eq_nil_iff.mp hnil with hsub | hnil
    · omega
    · exact htail hnil
  · have htake : (f.pictured.payload ++ tail).take size = picture [] 3 []
        (List.replicate (f.payload.length - 4) 1 ++ tail.take (size - f.payload.length)) := by
      rw [List.take_append, List.take_of_length_le (by omega), hlen]
      rfl
    have hdrop : (f.pictured.payload ++ tail).drop size = tail.drop (size - f.payload.length) := by
      rw [List.drop_append, List.drop_of_length_le (by omega), hlen, List.nil_append]
    rw [htake, hdrop]

/-- What is read there. -/
theorem image_of_misread {u : Numerals} {f : Written} {pre post : List Written} {padding : ℕ}
    (hpre : ∀ g ∈ pre, g.payload.length < 128) (hf : 128 ≤ f.payload.length)
    (hle : f.payload.length ≤ 1000000) (hpost : ∀ g ∈ post, g.payload.length ≤ 1000000)
    (hend : ¬ (post = [] ∧ padding = 0)) {tags : Tags}
    (h : readTags u (format.chunks
      (body .v24 (pre.map Written.blank ++ f.pictured :: post.map Written.blank) padding)) = .ok tags) :
    tags.image ≠ some (List.replicate (f.payload.length - 4) 1) := by
  obtain ⟨more, behind, hmore, hbehind, hchunks⟩ := chunks_misread hpre hf hle hpost hend
  rw [hchunks] at h
  have hnone : behind.filterMap (valueOf ["APIC".toList] fun data => some (apicImage data)) = [] := by
    rw [List.filterMap_eq_nil_iff]
    intro frame hframe
    exact valueOf_eq_none (List.mem_singleton.not.mpr (hbehind frame hframe))
  have himage : tags.image = _ := readTags_field h (fun _ _ => rfl) rfl
    fun _ _ hset => (setTag_fields hset).2.2.2.2
  rw [List.filterMap_append, List.filterMap_cons_some (f.valueOf_pictured _), hnone,
    List.getLast?_concat] at himage
  rw [himage]
  intro heq
  exact hmore (List.append_right_eq_self.mp (Option.some.inj heq))

/-- The first payload that is too long for its size to be read. -/
theorem Tag.exists_long {t : Tag} (h : ¬ t.SizesFit) : t.version = .v24 ∧ ∃ pre f post,
    t.frames = pre ++ f :: post ∧ (∀ g ∈ pre, g.payload.length < 128) ∧ 128 ≤ f.payload.length ∧
      ¬ (post = [] ∧ t.padding = 0) := by
  unfold Tag.SizesFit at h
  rw [not_or] at h
  obtain ⟨hversion, hlong⟩ := h
  have hsome : (t.frames.find? fun f => 128 ≤ f.payload.length).isSome := by
    rw [List.find?_isSome]
    by_contra hnone
    refine hlong fun f hf => ?_
    have hmem : f ∈ t.frames := by
      split at hf
      next => exact List.mem_of_mem_dropLast hf
      next => exact hf
    exact not_le.mp fun hlen => hnone ⟨f, hmem, decide_eq_true hlen⟩
  obtain ⟨f, hfind⟩ := Option.isSome_iff_exists.mp hsome
  obtain ⟨hf, pre, post, hframes, hpre⟩ := List.find?_eq_some_iff_append.mp hfind
  have hpre : ∀ g ∈ pre, g.payload.length < 128 := fun g hg => by simpa using hpre g hg
  refine ⟨?_, pre, f, post, hframes, hpre, of_decide_eq_true hf, ?_⟩
  · cases hv : t.version with
    | v23 => exact absurd hv hversion
    | v24 => rfl
  · rintro ⟨rfl, hpadding⟩
    rw [if_pos hpadding, hframes, List.dropLast_concat] at hlong
    exact hlong hpre

theorem map_length_blank (frames : List Written) :
    (frames.map Written.blank).map (fun f => f.payload.length) = frames.map fun f => f.payload.length := by
  rw [List.map_map]
  exact List.map_congr_left fun f _ => f.length_blank

/-- The only picture among frames of no kind. -/
theorem payloadsOf_pictured (pre post : List Written) (f : Written) :
    payloadsOf ["APIC".toList] (pre.map Written.blank ++ f.pictured :: post.map Written.blank) =
      [f.pictured.payload] := by
  have hcons : f.pictured :: post.map Written.blank = [f.pictured] ++ post.map Written.blank := rfl
  rw [hcons, payloadsOf_append, payloadsOf_append, payloadsOf_blank, payloadsOf_blank]
  rfl

/-- Where a payload is too long for its size to be read, some tag of this shape is not read back. -/
theorem exists_not_readsBack {t : Tag} (h : ¬ t.SizesFit) (u : Numerals) (rest : Bytes) :
    ∃ t' : Tag, t'.version = t.version ∧ t'.padding = t.padding ∧
      t'.frames.map (fun f => f.payload.length) = t.frames.map (fun f => f.payload.length) ∧
      ¬ ReadsBack u t' rest := by
  obtain ⟨hversion, pre, f, post, hframes, hpre, hf, hend⟩ := Tag.exists_long h
  have hle := t.payload_le
  rw [hframes, List.forall_mem_append, List.forall_mem_cons] at hle
  have hlengths : (pre.map Written.blank ++ f.pictured :: post.map Written.blank).map
      (fun f => f.payload.length) = t.frames.map fun f => f.payload.length := by
    rw [hframes, List.map_append, List.map_append, List.map_cons, List.map_cons, map_length_blank,
      map_length_blank, Written.length_pictured (by omega)]
  have hfits : (body t.version (pre.map Written.blank ++ f.pictured :: post.map Written.blank)
      t.padding).length ≤ 1000000 := by
    have hfits := t.fits
    rw [length_body] at hfits ⊢
    rwa [hlengths]
  refine ⟨⟨t.version, t.revision, t.flags, _, t.padding, hfits⟩, rfl, rfl, hlengths, ?_⟩
  rintro ⟨n, tags, hread, hback⟩
  have htags := readTags_eq_of_readId3v2 hread
  unfold frames at htags
  rw [Tag.tagBlob_file] at htags
  have htags : readTags u (format.chunks (body t.version
    (pre.map Written.blank ++ f.pictured :: post.map Written.blank) t.padding)) = .ok tags := htags
  rw [hversion] at htags
  refine image_of_misread hpre hf hle.2.1 hle.2.2 hend htags ?_
  refine hback.image [] 3 [] _ List.not_mem_nil List.not_mem_nil ?_
  rw [payloadsOf_pictured]
  rfl

/-! ## Tags -/

/-- **When a tag is read back**: its frames, where their sizes are read as they are written, and of these
what they say, where track numbers convert, the last track frame has one if any has, and the picture is not of
type 0.  For sizes that are misread there is no telling: some tag of the shape is not read back. -/
theorem readId3v2_readsBack_iff (u : Numerals) (t : Tag) (rest : Bytes) :
    (frames (t.file rest) = t.frames.map Written.frame ∧ ReadsBack u t rest ↔
      t.SizesFit ∧ TracksEnd u t.frames ∧ PictureTyped t.frames) ∧
    (t.SizesFit → (ReadsBack u t rest ↔ TracksEnd u t.frames ∧ PictureTyped t.frames)) ∧
    (¬ t.SizesFit → ∃ t' : Tag, t'.version = t.version ∧ t'.padding = t.padding ∧
      t'.frames.map (fun f => f.payload.length) = t.frames.map (fun f => f.payload.length) ∧
      ¬ ReadsBack u t' rest) := by
  refine ⟨?_, fun h => readsBack_iff_of_sizesFit h rest, fun h => exists_not_readsBack h u rest⟩
  rw [frames_file_iff]
  exact and_congr_right fun h => readsBack_iff_of_sizesFit h rest

/-- ID3v2.4, with a title, a track number and padding. -/
def shortTag : Tag where
  version := .v24
  revision := 0
  flags := 0
  frames := [
    ⟨[0x54, 0x49, 0x54, 0x32], [0, 0], [0, 0x48, 0x69], rfl, by decide, rfl, by decide⟩,
    ⟨[0x54, 0x52, 0x43, 0x4B], [0, 0], [0, 0x37, 0x2F, 0x39], rfl, by decide, rfl, by decide⟩]
  padding := 4
  fits := by decide +kernel

/-- ID3v2.4, with a title of 127 letters and an artist behind it. -/
def longTag : Tag where
  version := .v24
  revision := 0
  flags := 0
  frames := [
    ⟨[0x54, 0x49, 0x54, 0x32], [0, 0], 0 :: List.replicate 127 0x61, rfl, by decide, rfl, by decide⟩,
    ⟨[0x54, 0x50, 0x45, 0x31], [0, 0], [0, 0x62], rfl, by decide, rfl, by decide⟩]
  padding := 0
  fits := by decide +kernel

theorem not_sizesFit_longTag : ¬ longTag.SizesFit := by
  rintro (h | h)
  · cases h
  · have hlt := h _ List.mem_cons_self
    exact absurd hlt (by decide +kernel)

/-- Both tags are ID3v2.4; the sizes of one are read as they are written. -/
theorem shortTag_readsBack : ReadsBack .latin1 shortTag [] ∧
    ∃ t' : Tag, t'.version = .v24 ∧ ¬ ReadsBack .latin1 t' [] := by
  have hfit : shortTag.SizesFit := Or.inr (by decide +kernel)
  have hint : ∀ f ∈ shortTag.frames, f.frame.id = "TRCK".toList →
      (Numerals.latin1.int (numberPart (decodeTextFrame f.payload))).isSome = true := by
    decide +kernel
  have htrack : payloadsOf ["TRCK".toList] shortTag.frames = [[0, 0x37, 0x2F, 0x39]] := by decide +kernel
  have hpicture : payloadsOf ["APIC".toList] shortTag.frames = [] := by decide +kernel
  have htracks : TracksEnd .latin1 shortTag.frames := by
    refine ⟨fun f hf hid _ => Numerals.isSome_int.mp (hint f hf hid), fun _ data hdata => ?_⟩
    rw [htrack] at hdata
    obtain rfl := Option.some.inj hdata
    unfold Numeric
    decide +kernel
  have htyped : PictureTyped shortTag.frames := by
    intro mime pictureType desc img _ _ hlast
    rw [hpicture] at hlast
    cases hlast
  obtain ⟨-, hback, -⟩ := readId3v2_readsBack_iff .latin1 shortTag []
  obtain ⟨-, -, hnot⟩ := readId3v2_readsBack_iff .latin1 longTag []
  obtain ⟨t', hversion, -, -, hnot⟩ := hnot not_sizesFit_longTag
  exact ⟨(hback hfit).mpr ⟨htracks, htyped⟩, t', hversion, hnot⟩

/-- The size of the title is read as 256: the artist is taken for a part of it. -/
theorem longTag_misread : ¬ ∀ (u : Numerals) (t : Tag) (rest : Bytes), ReadsBack u t rest := by
  intro hall
  obtain ⟨n, tags, hread, hback⟩ := hall .latin1 longTag []
  have hartist := hback.artist
  have hb : (payloadsOf ["TPE1".toList, "TPE2".toList] longTag.frames).getLast?.map decodeTextFrame =
      some "b".toList := by
    decide +kernel
  have hnone : (readId3v2 .latin1 2 (longTag.file [])).map (fun r => r.toOption.map Tags.artist) =
      some (some none) := by
    decide +kernel
  obtain ⟨r, hr, hrnone⟩ := Option.map_eq_some_iff.mp hnone
  obtain rfl := (readTags_eq_of_readId3v2 hr).symm.trans (readTags_eq_of_readId3v2 hread)
  rw [hb] at hartist
  have hnone : tags.artist = none := Option.some.inj hrnone
  rw [hnone] at hartist
  cases hartist

end NeoDCT.Id3
