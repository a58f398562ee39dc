import NeoDCT.Lib.Memo
import NeoDCT.Lib.PySplit

/-!
# Images by their paths

`get_image` (core/main.py): a path of a desktop, as the layout composer writes it, is made one of the phone,
and an image that was opened is kept.  The disk may change between two calls; `Image` is what Pillow makes of
a file.

An image is the first one that its file ever was (`images_first`), and a path below a desktop's `NeoDCT` is
that of the phone's file if it has `System` in it, and no further `NeoDCT` (`desktop_path_iff`).
-/

namespace NeoDCT.Images

open PyText Memo

def home : Text := "/home".toList

def neodct : Text := "NeoDCT".toList

def system : Text := "System".toList

/-- `clean_path`. -/
def cleanPath (path : Text) : Text :=
  if home.isPrefixOf path then
    if system <:+: path then
      let relPath := (splitBy neodct path).getLastD []
      '/' :: neodct ++ relPath
    else path
  else path

variable {Image : Type}

/-- `get_image`, where `disk` opens what can be opened; it leaves the cache too. -/
def getImage (disk : Text → Option Image) (imageCache : List (Text × Image)) (path : Text) :
    Option Image × List (Text × Image) :=
  let cleanPath := cleanPath path
  match imageCache.lookup cleanPath with
  | some img => (some img, imageCache)
  | none =>
    match disk cleanPath with
    | some img => (some img, imageCache ++ [(cleanPath, img)])
    | none => (none, imageCache)

/-- A call, with the disk that there is then. -/
structure Call (Image : Type) where
  disk : Text → Option Image
  path : Text

/-- Calls from boot on. -/
def getImages : List (Text × Image) → List (Call Image) → List (Option Image)
  | _, [] => []
  | imageCache, call :: calls =>
    (getImage call.disk imageCache call.path).1 :: getImages (getImage call.disk imageCache call.path).2 calls

/-! ## The cache -/

/-- What the cache is asked. -/
def Call.asked (call : Call Image) : (Text → Option Image) × Text := (call.disk, cleanPath call.path)

theorem getImage_eq (disk : Text → Option Image) (imageCache : List (Text × Image)) (path : Text) :
    getImage disk imageCache path = look disk imageCache (cleanPath path) := by
  cases hkept : imageCache.lookup (cleanPath path) with
  | some img => simp only [getImage, look, hkept]
  | none =>
    cases hfound : disk (cleanPath path) with
    | some img => simp only [getImage, look, hkept, hfound]
    | none => simp only [getImage, look, hkept, hfound]

theorem getImages_eq (imageCache : List (Text × Image)) (calls : List (Call Image)) :
    getImages imageCache calls = looks imageCache (calls.map Call.asked) := by
  induction calls generalizing imageCache with
  | nil => rfl
  | cons call calls ih =>
    rw [getImages, ih, getImage_eq]
    rfl

/-- The image of a path, by the first of these calls that opened its file. -/
def firstOpened (calls : List (Call Image)) (path : Text) : Option Image :=
  calls.findSome? fun call => if cleanPath call.path = cleanPath path then call.disk (cleanPath path) else none

theorem firstOpened_eq (calls : List (Call Image)) (path : Text) :
    firstOpened calls path = firstFound (cleanPath path) (calls.map Call.asked) := by
  unfold firstOpened firstFound
  rw [List.findSome?_map]
  congr 1
  funext call
  by_cases h : cleanPath call.path = cleanPath path
  · simp [Call.asked, h]
  · simp [Call.asked, h]

/-- **An image stays what its file was first**: every call gives what the first call for that file found that
found one, itself included; so with files that stay the cache is not seen. -/
theorem images_first (calls : List (Call Image)) (n : ℕ) :
    (getImages [] calls)[n]? = calls[n]?.map (fun call => firstOpened (calls.take (n + 1)) call.path) ∧
      ∀ disk, (∀ call ∈ calls, call.disk = disk) →
        (getImages [] calls)[n]? = calls[n]?.map fun call => disk (cleanPath call.path) := by
  have hfirst : (getImages [] calls)[n]? =
      calls[n]?.map fun call => firstOpened (calls.take (n + 1)) call.path := by
    rw [getImages_eq, looks_eq, List.getElem?_map, Option.map_map]
    congr 1
    funext call
    rw [firstOpened_eq, List.map_take]
    rfl
  refine ⟨hfirst, fun disk hdisk => ?_⟩
  rw [hfirst]
  cases hcall : calls[n]? with
  | none => rfl
  | some call =>
    have hasked : (calls.take (n + 1)).map Call.asked =
        ((calls.take (n + 1)).map fun call => cleanPath call.path).map fun k => (disk, k) := by
      rw [List.map_map]
      refine List.map_congr_left fun call hmem => ?_
      rw [Call.asked, hdisk call (List.mem_of_mem_take hmem)]
      rfl
    have hmem : call ∈ calls.take (n + 1) := by
      obtain ⟨hlt, rfl⟩ := List.getElem?_eq_some_iff.mp hcall
      exact List.mem_take_iff_getElem.mpr ⟨n, by omega, rfl⟩
    have hkey : cleanPath call.path ∈ (calls.take (n + 1)).map fun call => cleanPath call.path :=
      List.mem_map.mpr ⟨call, hmem, rfl⟩
    rw [Option.map_some, Option.map_some, firstOpened_eq, hasked, firstFound_const disk hkey]

/-- A file that is gone, and one that has changed. -/
theorem images_first_gone :
    (getImages [] [⟨fun _ => some 1, ['a']⟩, ⟨fun _ => none, ['a']⟩, ⟨fun _ => some 2, ['a']⟩])[2]? =
      some (some 1) :=
  (images_first [⟨fun _ => some 1, ['a']⟩, ⟨fun _ => none, ['a']⟩, ⟨fun _ => some 2, ['a']⟩] 2).1

/-! ## Paths of a desktop -/

theorem neodct_unbordered : Unbordered neodct := by decide

theorem neodct_ne_nil : neodct ≠ [] := List.cons_ne_nil _ _

/-- **A desktop's file is found on the phone**, where `b` is what follows a `NeoDCT` in its path, if and only if
the path names `System`, and `b` no further `NeoDCT`. -/
theorem desktop_path_iff (a b : Text) :
    cleanPath (home ++ (a ++ (neodct ++ b))) = '/' :: neodct ++ b ↔
      system <:+: home ++ (a ++ (neodct ++ b)) ∧ ¬ neodct <:+: b := by
  generalize hpath : home ++ (a ++ (neodct ++ b)) = path
  have hhome : home.isPrefixOf path = true := by
    rw [List.isPrefixOf_iff_prefix, ← hpath]
    exact List.prefix_append _ _
  have hlonger : path ≠ '/' :: neodct ++ b := by
    intro h
    have hlen := congrArg List.length (hpath.trans h)
    simp only [home, neodct, List.length_append, List.cons_append, List.length_cons] at hlen
    have hhomeLength : "/home".toList.length = 5 := rfl
    omega
  unfold cleanPath
  rw [if_pos hhome]
  by_cases hsystem : system <:+: path
  · rw [if_pos hsystem, and_iff_right hsystem, List.getLastD_eq_getLast?]
    constructor
    · intro h
      have hlast := List.append_cancel_left h
      cases hparts : (splitBy neodct path).getLast? with
      | none => exact absurd (List.getLast?_eq_none_iff.mp hparts) (splitFrom_ne_nil 0 [] path)
      | some p =>
        rw [hparts, Option.getD_some] at hlast
        rw [← hlast]
        exact not_infix_of_mem_splitBy neodct_ne_nil (List.mem_of_getLast? hparts)
    · intro hb
      have hlast : (splitBy neodct path).getLast? = some b := by
        rw [← hpath, ← List.append_assoc]
        exact getLast?_splitBy neodct_ne_nil neodct_unbordered hb
      rw [hlast]
      rfl
  · rw [if_neg hsystem]
    exact iff_of_false hlonger fun h => hsystem h.1

end NeoDCT.Images
