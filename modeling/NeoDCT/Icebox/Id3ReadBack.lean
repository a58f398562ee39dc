import NeoDCT.Icebox.Id3Encoding

/-!
# What is read of a written tag

The frame that comes last of its kind is the one that counts.  A tag whose frames are read back says what
was written, but for track numbers and the type of its picture:

    t.SizesFit → (ReadsBack u t rest ↔ TracksEnd u t.frames ∧ PictureTyped t.frames)
                                                                           (readsBack_iff_of_sizesFit)
-/

namespace NeoDCT.Id3

open PyText PyBytes Chunks

/-! ## Fields -/

/-- What a frame of one of these kinds says. -/
def valueOf {α : Type} (ids : List Text) (value : Bytes → Option α) (frame : Frame) : Option α :=
  if ids.contains frame.id then value frame.data else none

theorem valueOf_eq_none {α : Type} {ids : List Text} {value : Bytes → Option α} {frame : Frame}
    (h : frame.id ∉ ids) : valueOf ids value frame = none := by
  unfold valueOf
  rw [if_neg (by simpa using h)]

/-- The track number of a frame. -/
def trackNumber (u : Numerals) (data : Bytes) : Option ℕ :=
  if u.isdigit (numberPart (decodeTextFrame data)) then u.int (numberPart (decodeTextFrame data)) else none

/-- A track number, and how many tracks there are if that is said. -/
def trackText (track : ℕ) (total : Option ℕ) : Text :=
  Nat.toDigits 10 track ++ total.elim [] fun n => '/' :: Nat.toDigits 10 n

theorem mem_trackText {track : ℕ} {total : Option ℕ} {c : Char} (h : c ∈ trackText track total) :
    c.isDigit = true ∨ c = '/' := by
  have hdigit : ∀ {n}, c ∈ Nat.toDigits 10 n → c.isDigit = true :=
    Nat.isDigit_of_mem_toDigits (by decide) (by decide)
  rcases List.mem_append.mp h with h | h
  · exact Or.inl (hdigit h)
  · cases total with
    | none => cases h
    | some n =>
      rcases List.mem_cons.mp h with h | h
      · exact Or.inr h
      · exact Or.inl (hdigit h)

theorem numberPart_trackText (track : ℕ) (total : Option ℕ) :
    numberPart (trackText track total) = Nat.toDigits 10 track := by
  have hslash : '/' ∉ Nat.toDigits 10 track := by
    intro hmem
    have hdigit := Nat.isDigit_of_mem_toDigits (by decide) (by decide) hmem
    cases hdigit
  unfold numberPart trackText
  cases total with
  | none =>
    rw [Option.elim_none, List.append_nil, if_neg (by simpa using hslash)]
  | some n =>
    rw [Option.elim_some, if_pos (by simp), List.splitOn_append_cons_self, List.splitOn_eq_singleton hslash]
    rfl

/-- **A track number is read back**, in any encoding, if it is not too long to be converted. -/
theorem trackNumber_textFrame {u : Numerals} (encoding : Encoding) {track : ℕ} (total : Option ℕ)
    (h : u.maxStrDigits = 0 ∨ (Nat.toDigits 10 track).length ≤ u.maxStrDigits) :
    trackNumber u (textFrame encoding (trackText track total)) = some track := by
  have hchar : ∀ c ∈ trackText track total, c.toNat < 256 ∧ isSpace c = false := by
    intro c hc
    rcases mem_trackText hc with hdigit | rfl
    · have hbounds := toNat_of_isDigit hdigit
      refine ⟨by omega, ?_⟩
      rw [Bool.eq_false_iff]
      intro hspace
      have hnot := not_isAlphanum_of_space hspace
      unfold Char.isAlphanum at hnot
      rw [hdigit, Bool.or_true] at hnot
      cases hnot
    · decide
  have hnul : '\x00' ∉ trackText track total := by
    intro hmem
    rcases mem_trackText hmem with hdigit | heq
    · cases hdigit
    · exact absurd heq (by decide)
  have hdecode : decodeTextFrame (textFrame encoding (trackText track total)) = trackText track total := by
    refine decodeTextFrame_textFrame (fun _ c hc => (hchar c hc).1) ?_
    rw [stripNul_eq_self hnul]
    exact strip_eq_self (fun c hc => (hchar c (List.mem_of_head? hc)).2)
      fun c hc => (hchar c (List.mem_of_getLast? hc)).2
  unfold trackNumber
  rw [hdecode, numberPart_trackText, if_pos (Numerals.isdigit_toDigits track), Numerals.int_toDigits h]

/-- What is taken for the image of a picture frame. -/
def apicImage (data : Bytes) : Bytes :=
  (data.drop (find data 0 1 + 1).toNat).drop (find (data.drop (find data 0 1 + 1).toNat) 0 0 + 1).toNat

theorem tags_of_trck {u : Numerals} {data : Bytes} {tags : Tags}
    (h : setTag u .empty "TRCK".toList data = .ok tags) :
    tags = { Tags.empty with track := trackNumber u data } := by
  rw [setTag_trck] at h
  unfold trackNumber
  split at h
  next hdigit =>
    rw [if_pos hdigit]
    split at h
    next => cases h
    next track hint =>
      rw [hint]
      exact (Except.ok.inj h).symm
  next hdigit =>
    rw [if_neg hdigit]
    exact (Except.ok.inj h).symm

/-- What a frame sets, field by field. -/
theorem setTag_fields {u : Numerals} {frame : Frame} {tags : Tags}
    (h : setTag u .empty frame.id frame.data = .ok tags) :
    tags.title = valueOf ["TIT2".toList] (fun data => some (decodeTextFrame data)) frame ∧
    tags.artist = valueOf ["TPE1".toList, "TPE2".toList] (fun data => some (decodeTextFrame data)) frame ∧
    tags.album = valueOf ["TALB".toList] (fun data => some (decodeTextFrame data)) frame ∧
    tags.track = valueOf ["TRCK".toList] (trackNumber u) frame ∧
    tags.image = valueOf ["APIC".toList] (fun data => some (apicImage data)) frame := by
  obtain ⟨id, data⟩ := frame
  dsimp only at h
  by_cases htrck : id = "TRCK".toList
  · subst htrck
    rw [tags_of_trck h]
    exact ⟨rfl, rfl, rfl, rfl, rfl⟩
  unfold setTag at h
  rw [if_neg htrck] at h
  split_ifs at h with htit2 htpe htalb hapic
  · obtain rfl := Except.ok.inj h
    subst htit2
    exact ⟨rfl, rfl, rfl, rfl, rfl⟩
  · obtain rfl := Except.ok.inj h
    rcases htpe with rfl | rfl
    · exact ⟨rfl, rfl, rfl, rfl, rfl⟩
    · exact ⟨rfl, rfl, rfl, rfl, rfl⟩
  · obtain rfl := Except.ok.inj h
    subst htalb
    exact ⟨rfl, rfl, rfl, rfl, rfl⟩
  · obtain rfl := Except.ok.inj h
    subst hapic
    exact ⟨rfl, rfl, rfl, rfl, rfl⟩
  · obtain rfl := Except.ok.inj h
    have hone : ∀ {name : Text}, id ≠ name → id ∉ [name] := List.mem_singleton.not.mpr
    have htwo : id ∉ ["TPE1".toList, "TPE2".toList] := by
      rwa [List.mem_cons, List.mem_singleton]
    exact ⟨(valueOf_eq_none (hone htit2)).symm, (valueOf_eq_none htwo).symm,
      (valueOf_eq_none (hone htalb)).symm, (valueOf_eq_none (hone htrck)).symm,
      (valueOf_eq_none (hone hapic)).symm⟩

/-- A field is what the last frame that sets it says. -/
theorem readTags_field {u : Numerals} {frames : List Frame} {tags : Tags}
    (h : readTags u frames = .ok tags) {α : Type} {field : Tags → Option α} {ids : List Text}
    {value : Bytes → Option α} (hupdate : ∀ t u : Tags, field (t.update u) = (field u).or (field t))
    (hempty : field .empty = none)
    (hvalue : ∀ (frame : Frame) t, setTag u .empty frame.id frame.data = .ok t →
      field t = valueOf ids value frame) :
    field tags = (frames.filterMap (valueOf ids value)).getLast? := by
  rw [readTags_eq] at h
  rw [field_of_foldlM hupdate hvalue h, hempty, Option.or_none]

/-- The payloads of the frames of some kinds. -/
def payloadsOf (ids : List Text) (frames : List Written) : List Bytes :=
  (frames.filter fun f => ids.contains f.frame.id).map Written.payload

theorem mem_payloadsOf {ids : List Text} {frames : List Written} {data : Bytes} :
    data ∈ payloadsOf ids frames ↔ ∃ f ∈ frames, f.frame.id ∈ ids ∧ f.payload = data := by
  simp [payloadsOf, and_assoc]

theorem filterMap_valueOf {α : Type} (ids : List Text) (value : Bytes → Option α) (frames : List Written) :
    (frames.map Written.frame).filterMap (valueOf ids value) = (payloadsOf ids frames).filterMap value := by
  unfold payloadsOf
  induction frames with
  | nil => rfl
  | cons f frames ih =>
    rw [List.map_cons, List.filterMap_cons, List.filter_cons, ih]
    by_cases h : ids.contains f.frame.id
    · rw [valueOf, if_pos h, if_pos h, List.map_cons, List.filterMap_cons]
      rfl
    · rw [valueOf, if_neg h, if_neg h]

/-- **What is read**: of each kind what its last frame says, but for track numbers the last that is one. -/
theorem readTags_fields {u : Numerals} {frames : List Written} {tags : Tags}
    (h : readTags u (frames.map Written.frame) = .ok tags) :
    tags.title = (payloadsOf ["TIT2".toList] frames).getLast?.map decodeTextFrame ∧
    tags.artist = (payloadsOf ["TPE1".toList, "TPE2".toList] frames).getLast?.map decodeTextFrame ∧
    tags.album = (payloadsOf ["TALB".toList] frames).getLast?.map decodeTextFrame ∧
    tags.track = ((payloadsOf ["TRCK".toList] frames).filterMap (trackNumber u)).getLast? ∧
    tags.image = (payloadsOf ["APIC".toList] frames).getLast?.map apicImage := by
  have hfield : ∀ {α : Type} (field : Tags → Option α) (ids : List Text) (value : Bytes → Option α),
      (∀ t u : Tags, field (t.update u) = (field u).or (field t)) → field .empty = none →
      (∀ (frame : Frame) t, setTag u .empty frame.id frame.data = .ok t →
        field t = valueOf ids value frame) →
      field tags = ((payloadsOf ids frames).filterMap value).getLast? := by
    intro α field ids value hupdate hempty hvalue
    rw [readTags_field h hupdate hempty hvalue, filterMap_valueOf]
  refine ⟨?_, ?_, ?_, ?_, ?_⟩
  · rw [hfield Tags.title _ _ (fun _ _ => rfl) rfl fun _ _ hset => (setTag_fields hset).1,
      List.filterMap_eq_map', List.getLast?_map]
  · rw [hfield Tags.artist _ _ (fun _ _ => rfl) rfl fun _ _ hset => (setTag_fields hset).2.1,
      List.filterMap_eq_map', List.getLast?_map]
  · rw [hfield Tags.album _ _ (fun _ _ => rfl) rfl fun _ _ hset => (setTag_fields hset).2.2.1,
      List.filterMap_eq_map', List.getLast?_map]
  · exact hfield Tags.track _ _ (fun _ _ => rfl) rfl fun _ _ hset => (setTag_fields hset).2.2.2.1
  · rw [hfield Tags.image _ _ (fun _ _ => rfl) rfl fun _ _ hset => (setTag_fields hset).2.2.2.2,
      List.filterMap_eq_map', List.getLast?_map]

/-! ## Pictures -/

/-- The payload of a picture frame, in Latin-1. -/
def picture (mime : Bytes) (pictureType : UInt8) (desc img : Bytes) : Bytes :=
  0 :: (mime ++ 0 :: pictureType :: (desc ++ 0 :: img))

/-- What is behind the MIME type. -/
theorem drop_picture {mime : Bytes} (hmime : 0 ∉ mime) (pictureType : UInt8) (desc img : Bytes) :
    (picture mime pictureType desc img).drop (find (picture mime pictureType desc img) 0 1 + 1).toNat =
      pictureType :: (desc ++ 0 :: img) :=
  drop_find [0] hmime

/-- A picture of type 0 is taken to have no description. -/
theorem apicImage_picture {mime desc : Bytes} (hmime : 0 ∉ mime) (hdesc : 0 ∉ desc) (pictureType : UInt8)
    (img : Bytes) : apicImage (picture mime pictureType desc img) =
      if pictureType = 0 then desc ++ 0 :: img else img := by
  unfold apicImage
  rw [drop_picture hmime]
  split
  next htype =>
    rw [htype]
    exact drop_find [] List.not_mem_nil
  next htype =>
    have hnot : 0 ∉ pictureType :: desc := List.not_mem_cons_of_ne_of_not_mem (Ne.symm htype) hdesc
    exact drop_find [] hnot

theorem append_cons_ne_self {α : Type} (xs ys : List α) (a : α) : xs ++ a :: ys ≠ ys := by
  intro h
  have hlen := congrArg List.length h
  rw [List.length_append, List.length_cons] at hlen
  omega

/-! ## Reading back -/

/-- What was written: of each kind what its last frame says, and of a picture in Latin-1 its image. -/
structure BringsBack (u : Numerals) (frames : List Written) (tags : Tags) : Prop where
  title : tags.title = (payloadsOf ["TIT2".toList] frames).getLast?.map decodeTextFrame
  artist : tags.artist = (payloadsOf ["TPE1".toList, "TPE2".toList] frames).getLast?.map decodeTextFrame
  album : tags.album = (payloadsOf ["TALB".toList] frames).getLast?.map decodeTextFrame
  track : tags.track = (payloadsOf ["TRCK".toList] frames).getLast?.bind (trackNumber u)
  image : ∀ mime pictureType desc img, 0 ∉ mime → 0 ∉ desc →
    (payloadsOf ["APIC".toList] frames).getLast? = some (picture mime pictureType desc img) →
      tags.image = some img

/-- `read_id3v2` returns what was written, whatever is behind the tag. -/
def ReadsBack (u : Numerals) (t : Tag) (rest : Bytes) : Prop :=
  ∃ n tags, readId3v2 u n (t.file rest) = some (.ok tags) ∧ BringsBack u t.frames tags

/-- The payload has a track number. -/
def Numeric (u : Numerals) (data : Bytes) : Prop := u.isdigit (numberPart (decodeTextFrame data)) = true

/-- Every track number converts, and the last track frame has one if any has. -/
def TracksEnd (u : Numerals) (frames : List Written) : Prop :=
  (∀ f ∈ frames, TrackConverts u f.frame) ∧
  ((∃ data ∈ payloadsOf ["TRCK".toList] frames, Numeric u data) →
    ∀ data ∈ (payloadsOf ["TRCK".toList] frames).getLast?, Numeric u data)

/-- The last picture, if it is one in Latin-1, is of another type than 0. -/
def PictureTyped (frames : List Written) : Prop :=
  ∀ mime pictureType desc img, 0 ∉ mime → 0 ∉ desc →
    (payloadsOf ["APIC".toList] frames).getLast? = some (picture mime pictureType desc img) → pictureType ≠ 0

/-- The last value is the value of the last. -/
theorem getLast?_filterMap_iff {α β : Type} {xs : List α} {g : α → Option β} :
    (xs.filterMap g).getLast? = xs.getLast?.bind g ↔
      ((∃ x ∈ xs, (g x).isSome) → ∀ x ∈ xs.getLast?, (g x).isSome) := by
  induction xs using List.reverseRecOn with
  | nil => simp
  | append_singleton xs y _ =>
    rw [List.filterMap_append, List.getLast?_concat, Option.bind_some]
    simp only [Option.mem_def, Option.some.injEq, forall_eq']
    cases hy : g y with
    | some b =>
      refine iff_of_true ?_ fun _ => rfl
      rw [List.filterMap_cons_some hy, List.filterMap_nil, List.getLast?_concat]
    | none =>
      rw [List.filterMap_cons_none hy, List.filterMap_nil, List.append_nil, List.getLast?_eq_none_iff,
        List.filterMap_eq_nil_iff]
      constructor
      · rintro hnone ⟨x, hx, hsome⟩
        rcases List.mem_append.mp hx with hx | hx
        · rw [hnone x hx] at hsome
          cases hsome
        · rw [List.mem_singleton.mp hx, hy] at hsome
          cases hsome
      · intro h x hx
        by_contra hne
        have hsome := h ⟨x, List.mem_append_left _ hx, Option.isSome_iff_ne_none.mpr hne⟩
        cases hsome

theorem numeric_of_trackNumber {u : Numerals} {data : Bytes} {track : ℕ} (h : trackNumber u data = some track) :
    Numeric u data ∧ u.Converts (numberPart (decodeTextFrame data)) := by
  unfold trackNumber at h
  split at h
  next hdigit => exact ⟨hdigit, Numerals.isSome_int.mp (by rw [h]; rfl)⟩
  next => cases h

theorem isSome_trackNumber {u : Numerals} {frames : List Written}
    (h : ∀ f ∈ frames, TrackConverts u f.frame) :
    ∀ data ∈ payloadsOf ["TRCK".toList] frames, (trackNumber u data).isSome ↔ Numeric u data := by
  intro data hdata
  obtain ⟨f, hf, hid, rfl⟩ := mem_payloadsOf.mp hdata
  have hconv := h f hf (List.mem_singleton.mp hid)
  unfold trackNumber Numeric
  split
  next hdigit => exact iff_of_true (Numerals.isSome_int.mpr (hconv hdigit)) hdigit
  next hdigit => exact iff_of_false (by simp) hdigit

/-- Where the frames are read back, it depends on track numbers and the type of the picture. -/
theorem bringsBack_iff {u : Numerals} {frames : List Written} {tags : Tags}
    (h : readTags u (frames.map Written.frame) = .ok tags) :
    BringsBack u frames tags ↔ TracksEnd u frames ∧ PictureTyped frames := by
  obtain ⟨htitle, hartist, halbum, htrack, himage⟩ := readTags_fields h
  have hconv : ∀ f ∈ frames, TrackConverts u f.frame := by
    have hworks := works_readTags_iff.mp ⟨tags, h⟩
    intro f hf
    exact hworks f.frame (List.mem_map_of_mem hf)
  have hends : tags.track = (payloadsOf ["TRCK".toList] frames).getLast?.bind (trackNumber u) ↔
      TracksEnd u frames := by
    have hsome := isSome_trackNumber hconv
    rw [htrack, getLast?_filterMap_iff]
    unfold TracksEnd
    rw [and_iff_right hconv]
    refine imp_congr ⟨?_, ?_⟩ (forall₂_congr fun data hdata => hsome data (List.mem_of_getLast? hdata))
    · rintro ⟨data, hdata, hs⟩
      exact ⟨data, hdata, (hsome data hdata).mp hs⟩
    · rintro ⟨data, hdata, hs⟩
      exact ⟨data, hdata, (hsome data hdata).mpr hs⟩
  constructor
  · intro hback
    refine ⟨hends.mp hback.track, fun mime pictureType desc img hmime hdesc hlast htype => ?_⟩
    have himg := hback.image mime pictureType desc img hmime hdesc hlast
    rw [himage, hlast, Option.map_some, apicImage_picture hmime hdesc, if_pos htype] at himg
    exact append_cons_ne_self desc img 0 (Option.some.inj himg)
  · rintro ⟨htracks, hpicture⟩
    refine ⟨htitle, hartist, halbum, hends.mpr htracks, fun mime pictureType desc img hmime hdesc hlast => ?_⟩
    rw [himage, hlast, Option.map_some, apicImage_picture hmime hdesc,
      if_neg (hpicture mime pictureType desc img hmime hdesc hlast)]

/-- **When a tag is read back**, of those whose frames are. -/
theorem readsBack_iff_of_sizesFit {u : Numerals} {t : Tag} (h : t.SizesFit) (rest : Bytes) :
    ReadsBack u t rest ↔ TracksEnd u t.frames ∧ PictureTyped t.frames := by
  have hframes := (frames_file_iff t rest).mpr h
  constructor
  · rintro ⟨n, tags, hread, hback⟩
    have htags := readTags_eq_of_readId3v2 hread
    rw [hframes] at htags
    exact (bringsBack_iff htags).mp hback
  · intro hcond
    have hworks : Interactive.Works (readTags u (t.frames.map Written.frame)) := by
      rw [works_readTags_iff, List.forall_mem_map]
      exact hcond.1.1
    obtain ⟨tags, htags⟩ := hworks
    refine ⟨(t.file rest).length + 1, tags, ?_, (bringsBack_iff htags).mpr hcond⟩
    rw [readId3v2_eq u (Nat.lt_succ_self _), hframes, htags]

end NeoDCT.Id3
