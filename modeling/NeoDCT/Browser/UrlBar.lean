import NeoDCT.Browser.Status

/-!
# The URL bar

What `on_go` (neodct-browser/main.py) makes of the text that is typed, and what `_load_url_smart` then
asks of the web view.  A host `h` with a suffix `s` is loaded as `https://` + `h` + `s` and shown as `h`

    ↔  '://' is not in s, and s does not begin with '#'                 (onGo_iff)

since `on_go` takes any `://` for a scheme's, and `host_from_url` ends a host at `/` and `?` alone.
-/

namespace NeoDCT.Browser

open PyText

/-- What the web view is asked to load. -/
inductive WebCall where
  | loadHtml (html url : Text)
  | loadUri (url : Text)
deriving DecidableEq, Repr

/-- `_load_url_smart`, as the web view sees it; `localFile` is what can be read of the local file that a
URL names. -/
def webCall (localFile : Text → Option Text) (url : Text) : WebCall :=
  if "file://".toList <+: url then
    match localFile url with
    | some html => .loadHtml html url
    | none => .loadUri url
  else .loadUri url

/-- The URL that `on_go` makes of the entry's text. -/
def typedUrl (text : Text) : Text :=
  let url := strip text
  if url ≠ [] ∧ ¬ "://".toList <:+: url then "https://".toList ++ url else url

/-- `on_go`. -/
def StatusBar.onGo (self : StatusBar) (localFile : Text → Option Text) (text : Text) :
    StatusBar × WebCall :=
  let url := typedUrl text
  (self.loadUrlSmart url (localFile url).isSome, webCall localFile url)

/-! ## Hosts -/

/-- A host name: letters, digits, dots, hyphens, and whatever else is neither whitespace nor one of the
characters that may end a host or a scheme. -/
structure HostName (h : Text) : Prop where
  ne_nil : h ≠ []
  chars : ∀ c ∈ h, isSpace c = false ∧ c ∉ ":/?#".toList

/-- What may follow a host name. -/
structure Suffix (s : Text) : Prop where
  head : ∀ c ∈ s.head?, c ∈ "/?#".toList
  chars : ∀ c ∈ s, isSpace c = false

section
variable {h s : Text}

theorem strip_typed (hh : HostName h) (hs : Suffix s) : strip (h ++ s) = h ++ s := by
  have hall : ∀ c ∈ h ++ s, isSpace c = false :=
    List.forall_mem_append.mpr ⟨fun c hc => (hh.chars c hc).1, hs.chars⟩
  exact strip_eq_self (fun c hc => hall c (List.mem_of_head? hc))
    fun c hc => hall c (List.mem_of_getLast? hc)

/-- A host name has no colon, so a separator is one of the suffix. -/
theorem separator_infix_iff (hh : HostName h) : "://".toList <:+: h ++ s ↔ "://".toList <:+: s := by
  constructor
  · rintro ⟨left, right, heq⟩
    rw [List.append_assoc] at heq
    rcases List.append_eq_append_iff.mp heq with ⟨rest, rfl, hrest⟩ | ⟨rest, rfl, hrest⟩
    · cases rest with
      | nil => exact ⟨[], right, hrest⟩
      | cons c rest =>
        have hcolon : c = ':' := (List.cons.inj hrest).1.symm
        have hmem : ':' ∈ left ++ c :: rest := by simp [hcolon]
        exact absurd (by decide) (hh.chars ':' hmem).2
    · exact ⟨rest, right, by rw [hrest, List.append_assoc]⟩
  · exact fun hs => hs.trans (List.suffix_append h s).isInfix

/-- What `host_from_url` takes for the host. -/
theorem hostFromUrl_https (hh : HostName h) (hs : Suffix s) :
    hostFromUrl ("https://".toList ++ (h ++ s)) =
      h ++ (s.takeWhile (· ≠ '/')).takeWhile (· ≠ '?') := by
  have hall : ∀ c ∈ "https://".toList ++ (h ++ s), isSpace c = false := by
    refine List.forall_mem_append.mpr ⟨by simp [isSpace], ?_⟩
    exact List.forall_mem_append.mpr ⟨fun c hc => (hh.chars c hc).1, hs.chars⟩
  have hstrip : strip ("https://".toList ++ (h ++ s)) = "https://".toList ++ (h ++ s) :=
    strip_eq_self (fun c hc => hall c (List.mem_of_head? hc))
      fun c hc => hall c (List.mem_of_getLast? hc)
  have hafter : afterFirst "://".toList ("https://".toList ++ (h ++ s)) = some (h ++ s) := by
    simp [afterFirst]
  have hslash : ∀ c ∈ h, decide (c ≠ '/') = true := by
    intro c hc
    have hnot := (hh.chars c hc).2
    simp_all
  have hquery : ∀ c ∈ h, decide (c ≠ '?') = true := by
    intro c hc
    have hnot := (hh.chars c hc).2
    simp_all
  unfold hostFromUrl
  simp only [hstrip, hafter, Option.getD_some]
  rw [List.takeWhile_append_of_pos hslash, List.takeWhile_append_of_pos hquery]
  exact if_pos (List.append_ne_nil_of_left_ne_nil hh.ne_nil _)

/-- The host ends where the suffix begins, unless that is a fragment. -/
theorem hostFromUrl_eq_iff (hh : HostName h) (hs : Suffix s) :
    hostFromUrl ("https://".toList ++ (h ++ s)) = h ↔ s.head? ≠ some '#' := by
  rw [hostFromUrl_https hh hs, List.append_right_eq_self]
  cases s with
  | nil => simp
  | cons c s =>
    have hc : c ∈ ['/', '?', '#'] := hs.head c rfl
    simp only [List.mem_cons, List.not_mem_nil, or_false] at hc
    rcases hc with rfl | rfl | rfl <;> simp

/-- Without a separator the URL is given a scheme, and with one it is left alone. -/
theorem typedUrl_host (hh : HostName h) (hs : Suffix s) : typedUrl (h ++ s) =
    if "://".toList <:+: s then h ++ s else "https://".toList ++ (h ++ s) := by
  have hne : h ++ s ≠ [] := List.append_ne_nil_of_left_ne_nil hh.ne_nil s
  unfold typedUrl
  simp only [strip_typed hh hs, separator_infix_iff hh]
  by_cases hsep : "://".toList <:+: s
  · rw [if_neg fun h => h.2 hsep, if_pos hsep]
  · rw [if_pos ⟨hne, hsep⟩, if_neg hsep]

/-- The web view is asked for the URL it is given. -/
theorem eq_of_webCall {localFile : Text → Option Text} {url url' : Text}
    (hcall : webCall localFile url = .loadUri url') : url = url' := by
  unfold webCall at hcall
  split at hcall
  · split at hcall
    · cases hcall
    · exact WebCall.loadUri.inj hcall
  · exact WebCall.loadUri.inj hcall

theorem not_file_https (url : Text) : ¬ "file://".toList <+: "https://".toList ++ url := by
  simp

/-- **What a typed host becomes**: it is loaded over HTTPS and shown as it was typed, unless there is a
separator in its suffix or the suffix is a fragment. -/
theorem onGo_iff (b : StatusBar) (localFile : Text → Option Text) (h s : Text) (hh : HostName h)
    (hs : Suffix s) :
    ((b.onGo localFile (h ++ s)).2 = .loadUri ("https://".toList ++ (h ++ s)) ∧
      hostFromUrl ("https://".toList ++ (h ++ s)) = h ∧
      (b.onGo localFile (h ++ s)).1.statusText =
        ("Waiting for ".toList ++ h ++ "...".toList).take 80) ↔
      ¬ "://".toList <:+: s ∧ s.head? ≠ some '#' := by
  rw [hostFromUrl_eq_iff hh hs]
  unfold StatusBar.onGo
  simp only [typedUrl_host hh hs]
  by_cases hsep : "://".toList <:+: s
  · rw [if_pos hsep]
    constructor
    · rintro ⟨hcall, -⟩
      have hlen := congrArg List.length (eq_of_webCall hcall)
      have hadd : ("https://".toList ++ (h ++ s)).length = 8 + (h ++ s).length := List.length_append
      omega
    · exact fun hnot => absurd hsep hnot.1
  · rw [if_neg hsep]
    constructor
    · exact fun hall => ⟨hsep, hall.2.1⟩
    · rintro ⟨-, hhead⟩
      refine ⟨if_neg (not_file_https _), hhead, ?_⟩
      unfold StatusBar.loadUrlSmart
      rw [if_neg fun hfile => not_file_https _ hfile.1]
      show ("Waiting for ".toList ++ hostFromUrl _ ++ "...".toList).take 80 = _
      rw [(hostFromUrl_eq_iff hh hs).mpr hhead]

end

/-- Letters, digits, dots and hyphens make a host name. -/
theorem hostName_of_alphanum {h : Text} (hne : h ≠ [])
    (hchars : ∀ c ∈ h, c.isAlphanum = true ∨ c = '.' ∨ c = '-') : HostName h := by
  refine ⟨hne, fun c hc => ?_⟩
  rcases hchars c hc with halnum | rfl | rfl
  · refine ⟨?_, ?_⟩
    · rw [Bool.eq_false_iff]
      intro hspace
      rw [not_isAlphanum_of_space hspace] at halnum
      cases halnum
    · intro hmem
      have hmem : c ∈ [':', '/', '?', '#'] := hmem
      simp only [List.mem_cons, List.not_mem_nil, or_false] at hmem
      rcases hmem with rfl | rfl | rfl | rfl <;> revert halnum <;> decide
  · decide
  · decide

/-- `example.com/a?b`. -/
theorem onGo_iff_path : (StatusBar.onGo (.init []) (fun _ => none) "example.com/a?b".toList).2 =
    .loadUri "https://example.com/a?b".toList := by
  have hh : HostName "example.com".toList := hostName_of_alphanum (by simp) (by simp [Char.isAlphanum])
  have hs : Suffix "/a?b".toList := ⟨by simp, by simp [isSpace]⟩
  exact ((onGo_iff (.init []) (fun _ => none) "example.com".toList "/a?b".toList hh hs).mpr
    ⟨by decide, by decide⟩).1

/-- A URL in the query. -/
theorem onGo_not_host : ¬ ∀ h s : Text, HostName h → Suffix s →
    (StatusBar.onGo (.init []) (fun _ => none) (h ++ s)).2 = .loadUri ("https://".toList ++ (h ++ s)) ∧
    hostFromUrl ("https://".toList ++ (h ++ s)) = h := by
  intro hall
  have hh : HostName "example.com".toList := hostName_of_alphanum (by simp) (by simp [Char.isAlphanum])
  have hs : Suffix "?u=http://x".toList := ⟨by simp, by simp [isSpace]⟩
  have hcall := (hall "example.com".toList "?u=http://x".toList hh hs).1
  revert hcall
  decide

end NeoDCT.Browser
