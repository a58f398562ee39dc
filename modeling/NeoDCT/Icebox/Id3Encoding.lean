import NeoDCT.Icebox.Id3

/-!
# ID3 tags, written and read back

Tags as ID3v2.3 and ID3v2.4 write them.  The versions differ in how the size of a frame is written: in bytes
of eight bits, or of seven.  The parser reads both as the former, so of an ID3v2.4 tag the frames are read
back while

    every payload is shorter than 128 bytes, but for the last one of a tag without padding   (`SizesFit`)
-/

namespace NeoDCT.Id3

open PyText PyBytes Chunks

/-! ## Sizes -/

inductive Version where
  | v23
  | v24
deriving DecidableEq

/-- Four bytes of eight bits, the high one first. -/
def bigEndian (n : ℕ) : Bytes := (Struct.toBytes 4 n).reverse

/-- Four bytes of seven bits, the high one first. -/
def synchsafe (n : ℕ) : Bytes :=
  [.ofNat (n / 2 ^ 21 % 128), .ofNat (n / 2 ^ 14 % 128), .ofNat (n / 2 ^ 7 % 128), .ofNat (n % 128)]

/-- The size of a frame. -/
def Version.size : Version → ℕ → Bytes
  | .v23, n => bigEndian n
  | .v24, n => synchsafe n

theorem length_size (v : Version) (n : ℕ) : (v.size n).length = 4 := by
  cases v with
  | v23 => exact List.length_reverse.trans (Struct.length_toBytes 4 n)
  | v24 => rfl

theorem toNat_ofNat_mod (n : ℕ) : (UInt8.ofNat (n % 128)).toNat = n % 128 := by
  rw [UInt8.toNat_ofNat']
  omega

/-- A number from its septets. -/
theorem septets {n : ℕ} (h : n < 2 ^ 28) :
    n % 128 + 128 * (n / 2 ^ 7 % 128 + 128 * (n / 2 ^ 14 % 128 + 128 * (n / 2 ^ 21 % 128))) = n := by
  have h₁ : n / 2 ^ 14 = n / 2 ^ 7 / 128 := (Nat.div_div_eq_div_mul n (2 ^ 7) 128).symm
  have h₂ : n / 2 ^ 21 = n / 2 ^ 14 / 128 := (Nat.div_div_eq_div_mul n (2 ^ 14) 128).symm
  have h₃ : n / 2 ^ 21 < 128 := Nat.div_lt_of_lt_mul (by omega)
  omega

/-- `parse_synchsafe` inverts the writing of the size of a tag. -/
theorem parseSynchsafe_synchsafe {n : ℕ} (h : n < 2 ^ 28) : parseSynchsafe (synchsafe n) = n := by
  have hseptets := septets h
  unfold synchsafe parseSynchsafe
  simp only [toNat_ofNat_mod]
  -- from the low byte up: the bits of each are above those of the bytes behind it
  rw [Nat.or_assoc, Nat.or_assoc, ← Nat.shiftLeft_add_eq_or_of_lt (i := 7) (by omega),
    ← Nat.shiftLeft_add_eq_or_of_lt (i := 14) (by rw [Nat.shiftLeft_eq]; omega),
    ← Nat.shiftLeft_add_eq_or_of_lt (i := 21) (by rw [Nat.shiftLeft_eq, Nat.shiftLeft_eq]; omega)]
  simp only [Nat.shiftLeft_eq]
  omega

/-- What the parser takes the size of a frame for. -/
def Version.readSize (v : Version) (n : ℕ) : ℕ := intFromBytesBig (v.size n)

theorem readSize_v23 {n : ℕ} (h : n < 256 ^ 4) : Version.v23.readSize n = n := by
  unfold Version.readSize Version.size bigEndian intFromBytesBig
  rw [List.reverse_reverse, Struct.ofBytes_toBytes h]

theorem readSize_v24 (n : ℕ) : Version.v24.readSize n =
    n % 128 + 256 * (n / 2 ^ 7 % 128 + 256 * (n / 2 ^ 14 % 128 + 256 * (n / 2 ^ 21 % 128))) := by
  show Struct.ofBytes [.ofNat (n % 128), .ofNat (n / 2 ^ 7 % 128), .ofNat (n / 2 ^ 14 % 128),
    .ofNat (n / 2 ^ 21 % 128)] = _
  simp only [Struct.ofBytes_cons, toNat_ofNat_mod]
  rfl

/-- A size is never read too small. -/
theorem le_readSize {v : Version} {n : ℕ} (h : n < 2 ^ 28) : n ≤ v.readSize n := by
  cases v with
  | v23 => rw [readSize_v23 (by omega)]
  | v24 =>
    have hseptets := septets h
    rw [readSize_v24]
    omega

/-- It is read as it is in ID3v2.3, and below 128. -/
theorem readSize_eq_iff {v : Version} {n : ℕ} (h : n < 2 ^ 28) :
    v.readSize n = n ↔ v = .v23 ∨ n < 128 := by
  cases v with
  | v23 => exact iff_of_true (readSize_v23 (by omega)) (Or.inl rfl)
  | v24 =>
    have hseptets := septets h
    rw [readSize_v24]
    refine ⟨fun heq => Or.inr (by omega), fun hlt => ?_⟩
    have hlt := hlt.resolve_left (by decide)
    omega

/-! ## Texts -/

/-- The encodings that `decode_text_frame` knows; UTF-16 in either byte order. -/
inductive Encoding where
  | latin1
  | utf16 (big : Bool)
  | utf8
deriving DecidableEq

/-- The payload of a text frame. -/
def textFrame : Encoding → Text → Bytes
  | .latin1, text => 0 :: encodeLatin1 text
  | .utf16 big, text => 1 :: encodeUtf16 big text
  | .utf8, text => 3 :: encodeUtf8 text

theorem textFrame_ne_nil (encoding : Encoding) (text : Text) : textFrame encoding text ≠ [] := by
  cases encoding <;> exact List.cons_ne_nil _ _

/-- **A text is read back**, if it has no blanks or NULs at its ends, and Latin-1 has its characters. -/
theorem decodeTextFrame_textFrame {encoding : Encoding} {text : Text}
    (hlatin1 : encoding = .latin1 → ∀ c ∈ text, c.toNat < 256) (hends : strip (stripNul text) = text) :
    decodeTextFrame (textFrame encoding text) = text := by
  unfold decodeTextFrame
  cases encoding with
  | latin1 =>
    show strip (stripNul (latin1 (encodeLatin1 text))) = text
    rw [latin1_encodeLatin1 (hlatin1 rfl), hends]
  | utf16 big =>
    dsimp only [textFrame]
    rw [if_neg (by decide), if_pos rfl, utf16_encodeUtf16]
    exact hends
  | utf8 =>
    dsimp only [textFrame]
    rw [if_neg (by decide), if_neg (by decide), if_pos rfl, utf8_encodeUtf8]
    exact hends

/-! ## Frames -/

/-- A frame to be written. -/
structure Written where
  id : Bytes
  flags : Bytes
  payload : Bytes
  length_id : id.length = 4
  id_ne : ¬ ∀ b ∈ id, b = 0
  length_flags : flags.length = 2
  payload_ne : payload ≠ []

namespace Written

def encode (v : Version) (f : Written) : Bytes := f.id ++ (v.size f.payload.length ++ (f.flags ++ f.payload))

/-- The frame that should be read. -/
def frame (f : Written) : Frame := ⟨latin1 f.id, f.payload⟩

theorem length_encode (v : Version) (f : Written) : (f.encode v).length = 10 + f.payload.length := by
  unfold encode
  simp only [List.length_append, f.length_id, length_size, f.length_flags]
  omega

theorem payload_pos (f : Written) : 0 < f.payload.length := List.length_pos_of_ne_nil f.payload_ne

end Written

/-- **What is read of a frame**: as much behind its header as its size is taken for. -/
theorem takeFrame_encode (v : Version) (f : Written) (h : f.payload.length < 2 ^ 28) (rest : Bytes) :
    takeFrame (f.encode v ++ rest) =
      some (⟨latin1 f.id, (f.payload ++ rest).take (v.readSize f.payload.length)⟩,
        (f.payload ++ rest).drop (v.readSize f.payload.length)) := by
  have hid : (f.encode v ++ rest).take 4 = f.id := by
    unfold Written.encode
    rw [List.append_assoc]
    exact List.take_left' f.length_id
  have hdrop : (f.encode v ++ rest).drop 10 = f.payload ++ rest := by
    unfold Written.encode
    rw [← List.append_assoc, ← List.append_assoc, List.append_assoc]
    refine List.drop_left' ?_
    simp only [List.length_append, f.length_id, length_size, f.length_flags]
  have hsize : intFromBytesBig (slice (f.encode v ++ rest) 4 8) = v.readSize f.payload.length := by
    unfold Written.encode slice Version.readSize
    rw [List.append_assoc, List.drop_left' f.length_id, List.append_assoc,
      List.take_left' (length_size v _)]
  have hpos := f.payload_pos
  have hle := le_readSize (v := v) h
  have hlen := f.length_encode v
  unfold takeFrame
  rw [hsize, hid, if_neg, ← List.drop_drop, hdrop]
  rw [not_or, not_or, not_lt, List.length_append]
  exact ⟨by omega, f.id_ne, by omega⟩

/-! ## Tags -/

/-- The frames of a tag, and the zeros behind them. -/
def body (v : Version) (frames : List Written) (padding : ℕ) : Bytes :=
  frames.flatMap (Written.encode v) ++ List.replicate padding 0

/-- A tag to be written. -/
structure Tag where
  version : Version
  revision : UInt8
  flags : UInt8
  frames : List Written
  padding : ℕ
  fits : (body version frames padding).length ≤ 1000000

namespace Tag

def body (t : Tag) : Bytes := Id3.body t.version t.frames t.padding

/-- The tag at the front of a file, and the rest of the file behind it. -/
def file (t : Tag) (rest : Bytes) : Bytes :=
  [0x49, 0x44, 0x33] ++ [match t.version with | .v23 => 3 | .v24 => 4, t.revision, t.flags] ++
    synchsafe t.body.length ++ (t.body ++ rest)

/-- Every payload whose size is not read as it is written ends the tag. -/
def SizesFit (t : Tag) : Prop :=
  t.version = .v23 ∨ ∀ f ∈ if t.padding = 0 then t.frames.dropLast else t.frames, f.payload.length < 128

/-- The parser takes the body of the tag out of the file. -/
theorem tagBlob_file (t : Tag) (rest : Bytes) : tagBlob (t.file rest) = some t.body := by
  have hfits : t.body.length ≤ 1000000 := t.fits
  have hheader : (t.file rest).take 10 =
      [0x49, 0x44, 0x33] ++ [match t.version with | .v23 => 3 | .v24 => 4, t.revision, t.flags] ++
        synchsafe t.body.length := rfl
  have hbody : (t.file rest).drop 10 = t.body ++ rest := rfl
  have hsize : parseSynchsafe (slice ((t.file rest).take 10) 6 10) = t.body.length :=
    parseSynchsafe_synchsafe (by omega)
  unfold tagBlob
  dsimp only
  rw [hsize, hbody, min_eq_left hfits, List.take_left, hheader, if_neg]
  rintro (h | h)
  · exact Nat.lt_irrefl 10 h
  · exact h rfl

end Tag

theorem body_eq_nil_iff {v : Version} {frames : List Written} {padding : ℕ} :
    body v frames padding = [] ↔ frames = [] ∧ padding = 0 := by
  unfold body
  rw [List.append_eq_nil_iff, List.replicate_eq_nil_iff]
  refine and_congr_left fun _ => ⟨fun h => ?_, fun h => by rw [h]; rfl⟩
  cases frames with
  | nil => rfl
  | cons f frames =>
    have hlen := congrArg List.length h
    rw [List.flatMap_cons, List.length_append, f.length_encode, List.length_nil] at hlen
    omega

theorem body_cons (v : Version) (f : Written) (frames : List Written) (padding : ℕ) :
    body v (f :: frames) padding = f.encode v ++ body v frames padding := List.append_assoc _ _ _

/-- Padding ends the reading. -/
theorem takeFrame_replicate_zero (n : ℕ) : takeFrame (List.replicate n 0) = none := by
  unfold takeFrame
  refine if_pos (Or.inr (Or.inl fun b hb => ?_))
  exact List.eq_of_mem_replicate (List.mem_of_mem_take hb)

/-- A frame is read back when its size is read as it is written, or when it ends the tag. -/
theorem chunks_body_cons {v : Version} {f : Written} (h : f.payload.length < 2 ^ 28) (frames : List Written)
    (padding : ℕ) :
    format.chunks (body v (f :: frames) padding) = (f :: frames).map Written.frame ↔
      ((v = .v23 ∨ f.payload.length < 128) ∨ (frames = [] ∧ padding = 0)) ∧
        format.chunks (body v frames padding) = frames.map Written.frame := by
  rw [← readSize_eq_iff h, ← body_eq_nil_iff (v := v), body_cons,
    Format.chunks_of_some (takeFrame_encode v f h _), List.map_cons, List.cons.injEq]
  have hle := le_readSize (v := v) h
  generalize body v frames padding = tail
  generalize v.readSize f.payload.length = size at hle ⊢
  have htake : (f.payload ++ tail).take size = f.payload ++ tail.take (size - f.payload.length) := by
    rw [List.take_append, List.take_of_length_le hle]
  have hframe : (⟨latin1 f.id, (f.payload ++ tail).take size⟩ : Frame) = f.frame ↔
      size = f.payload.length ∨ tail = [] := by
    unfold Written.frame
    rw [Frame.mk.injEq, htake, List.append_right_eq_self, List.take_eq_nil_iff]
    constructor
    · rintro ⟨-, hsub | hnil⟩
      · exact Or.inl (by omega)
      · exact Or.inr hnil
    · rintro (heq | hnil)
      · exact ⟨rfl, Or.inl (by omega)⟩
      · exact ⟨rfl, Or.inr hnil⟩
  rw [hframe]
  refine and_congr_right ?_
  rintro (rfl | rfl)
  · rw [List.drop_left]
  · rw [List.append_nil, List.drop_of_length_le hle]

theorem chunks_body_nil (v : Version) (padding : ℕ) : format.chunks (body v [] padding) = [] :=
  Format.chunks_of_none (takeFrame_replicate_zero padding)

theorem chunks_body_iff {v : Version} {frames : List Written} (h : ∀ f ∈ frames, f.payload.length < 2 ^ 28)
    (padding : ℕ) :
    format.chunks (body v frames padding) = frames.map Written.frame ↔
      v = .v23 ∨ ∀ f ∈ if padding = 0 then frames.dropLast else frames, f.payload.length < 128 := by
  induction frames with
  | nil =>
    rw [chunks_body_nil]
    exact iff_of_true rfl (Or.inr (by simp))
  | cons f frames ih =>
    rw [List.forall_mem_cons] at h
    rw [chunks_body_cons h.1, ih h.2]
    by_cases hv : v = .v23
    · simp [hv]
    by_cases hpadding : padding = 0
    · cases frames with
      | nil => simp [hpadding]
      | cons g frames => simp [hv, hpadding]
    · simp [hv, hpadding]

/-- Frames whose sizes are read as they are written are read back, whatever is behind them. -/
theorem chunks_body_append {v : Version} {frames : List Written}
    (h : ∀ f ∈ frames, v.readSize f.payload.length = f.payload.length ∧ f.payload.length < 2 ^ 28)
    (frames' : List Written) (padding : ℕ) :
    format.chunks (body v (frames ++ frames') padding) =
      frames.map Written.frame ++ format.chunks (body v frames' padding) := by
  unfold body
  rw [List.flatMap_append, List.append_assoc]
  refine Format.chunks_flatMap_append (fun f hf rest => ?_) _
  obtain ⟨hsize, hlt⟩ := h f hf
  have htake := takeFrame_encode v f hlt rest
  rw [hsize, List.take_left, List.drop_left] at htake
  exact htake

/-- How long a tag is: as long as its payloads make it. -/
theorem length_body (v : Version) (frames : List Written) (padding : ℕ) :
    (body v frames padding).length = ((frames.map fun f => f.payload.length).map (10 + ·)).sum + padding := by
  induction frames with
  | nil => simp [body]
  | cons f frames ih =>
    rw [body_cons, List.length_append, f.length_encode, ih, List.map_cons, List.map_cons, List.sum_cons]
    omega

theorem Tag.payload_le (t : Tag) : ∀ f ∈ t.frames, f.payload.length ≤ 1000000 := by
  intro f hf
  have hfits := t.fits
  have hmem : 10 + f.payload.length ∈ (t.frames.map fun f => f.payload.length).map (10 + ·) :=
    List.mem_map_of_mem (List.mem_map_of_mem hf)
  have hle := List.le_sum_of_mem hmem
  rw [length_body] at hfits
  omega

/-- **When the frames of a tag are read back.** -/
theorem frames_file_iff (t : Tag) (rest : Bytes) :
    frames (t.file rest) = t.frames.map Written.frame ↔ t.SizesFit := by
  unfold frames
  rw [t.tagBlob_file]
  refine chunks_body_iff (fun f hf => ?_) t.padding
  have hle := t.payload_le f hf
  omega

end NeoDCT.Id3
