import NeoDCT.Lib.JsLiteral
import NeoDCT.Lib.PyText

/-!
# The browser's input popup

The browser (neodct-browser/main.py) lets the user edit the focused page element in a popup of its
own, and writes the text back by running a script that holds it as a string literal.
`on_input_complete` escapes the quotes of the text, but not its backslashes, nor the line breaks a
prefilled text may have:

    el.value = "…";     holds the text  ↔  every backslash of it precedes a ',
                                           and it has no line break    (injects_iff)

The escape of a backslash swallows what follows it.  No escape sequence is longer than what it takes
(`escapeSequence_inert`), so from the first swallowed character on the value stays too short
(`literal_short`).
-/

namespace NeoDCT.Browser

open PyText JsLiteral

/-! ## The popup -/

/-- `self.entry.get_text()` and the popup's visibility. -/
structure InputPopupWidget where
  text : Text
  visible : Bool

/-- `open`. -/
def InputPopupWidget.open (self : InputPopupWidget) (existingText : Text) : InputPopupWidget :=
  { self with text := existingText, visible := true }

/-- `close`; it returns the text. -/
def InputPopupWidget.close (self : InputPopupWidget) : InputPopupWidget × Text :=
  ({ self with visible := false }, self.text)

/-- The part of `NeoDCTBrowser` that the popup uses; `scripts` are the scripts given to
`run_javascript`, in order. -/
structure NeoDCTBrowser where
  inputWidget : InputPopupWidget
  inputVisible : Bool
  softkeyVisible : Bool
  softkeyText : Text
  scripts : List Text

namespace NeoDCTBrowser

/-- `toggle_input_popup`. -/
def toggleInputPopup (self : NeoDCTBrowser) (text : Text) : NeoDCTBrowser :=
  if self.inputVisible then
    { self with
      inputVisible := false
      inputWidget := self.inputWidget.close.1
      softkeyVisible := false }
  else
    { self with
      inputVisible := true
      inputWidget := self.inputWidget.open text
      softkeyVisible := true
      softkeyText := "Accept".toList }

/-- The callback of `fetch_and_open_input_popup`, on what `run_javascript_finish` gave: an error,
nothing, or the value of the element. -/
def fetched (self : NeoDCTBrowser) : Except Unit (Option Text) → NeoDCTBrowser
  | .ok (some val) => self.toggleInputPopup val
  | .ok none => self.toggleInputPopup []
  | .error () => self.toggleInputPopup []

end NeoDCTBrowser

/-! ## The script -/

/-- `safe_text`. -/
def safeText (text : Text) : Text := replace '"' ['\\', '"'] (replace '\'' ['\\', '\''] text)

/-- The script up to the opening quote of the literal. -/
def scriptBefore : Text := "
        var el = document.activeElement;
        if(el && (el.tagName == 'INPUT' || el.tagName == 'TEXTAREA')) \x7b
            el.value = ".toList

/-- The script from the closing quote on. -/
def scriptAfter : Text := ";
            el.dispatchEvent(new Event('input', \x7b bubbles: true \x7d));
            el.dispatchEvent(new Event('change', \x7b bubbles: true \x7d));
            
            // Only submit if it's an INPUT field (searches, etc)
            // But we also check if it's inside a FORM, in which case direct submit is safest
            if (el.form) \x7b
                el.form.submit();
            \x7d else if (el.tagName == 'INPUT') \x7b
                // Fallback for JS-driven inputs without a FORM tag
                var ev = new KeyboardEvent('keydown', \x7b
                    bubbles: true, cancelable: true, keyCode: 13, which: 13, key: 'Enter'
                \x7d);
                el.dispatchEvent(ev);
                
                var ev2 = new KeyboardEvent('keypress', \x7b
                    bubbles: true, cancelable: true, keyCode: 13, which: 13, key: 'Enter'
                \x7d);
                el.dispatchEvent(ev2);
                
                var ev3 = new KeyboardEvent('keyup', \x7b
                    bubbles: true, cancelable: true, keyCode: 13, which: 13, key: 'Enter'
                \x7d);
                el.dispatchEvent(ev3);
            \x7d
        \x7d
        ".toList

/-- `on_input_complete`. -/
def NeoDCTBrowser.onInputComplete (self : NeoDCTBrowser) : NeoDCTBrowser :=
  let (inputWidget, text) := self.inputWidget.close
  let script := scriptBefore ++ '"' :: (safeText text ++ '"' :: scriptAfter)
  { self with
    inputWidget := inputWidget
    inputVisible := false
    softkeyVisible := false
    scripts := self.scripts ++ [script] }

/-! ## What is escaped -/

/-- The text without its quotes is escaped as it is. -/
theorem safeText_cons (c : Char) (text : Text) : safeText (c :: text) =
    if c = '\'' ∨ c = '"' then '\\' :: c :: safeText text else c :: safeText text := by
  unfold safeText replace
  by_cases h' : c = '\''
  · simp [h']
  by_cases h : c = '"'
  · simp [h]
  · simp [h', h]

theorem safeText_inert {c : Char} (h : Inert c) (text : Text) :
    safeText (c :: text) = c :: safeText text := by
  rw [safeText_cons, if_neg fun hc => hc.elim h.2.1 h.2.2]

/-- Inert characters at the head of the escaped text and its closing quote are characters of the
text. -/
theorem takes_safeText {text rest r p : Text} (h : Takes (safeText text ++ '"' :: rest) r p) :
    ∃ text', text = p ++ text' ∧ r = safeText text' ++ '"' :: rest := by
  obtain ⟨heq, hp⟩ := h
  induction p generalizing text with
  | nil => exact ⟨text, rfl, heq.symm⟩
  | cons c p ih =>
    obtain ⟨hc, hp⟩ := List.forall_mem_cons.mp hp
    cases text with
    | nil => exact absurd (List.cons.inj heq).1.symm hc.2.2
    | cons d text =>
      rw [safeText_cons] at heq
      split at heq
      · exact absurd (List.cons.inj heq).1.symm hc.1
      · rw [List.cons_append, List.cons_append, List.cons.injEq] at heq
        obtain ⟨text', rfl, hr⟩ := ih heq.2 hp
        exact ⟨text', by rw [heq.1, List.cons_append], hr⟩

/-! ## Which texts survive -/

/-- Every backslash precedes a single quote, and there is no line break. -/
structure Injectable (text : Text) : Prop where
  backslash : ∀ rest, '\\' :: rest <:+ text → rest.head? = some '\''
  lf : '\n' ∉ text
  cr : '\r' ∉ text

theorem injectable_nil : Injectable [] :=
  ⟨fun rest h => by simp at h, List.not_mem_nil, List.not_mem_nil⟩

theorem injectable_cons (c : Char) (text : Text) : Injectable (c :: text) ↔
    (c = '\\' → text.head? = some '\'') ∧ ¬ (c = '\n' ∨ c = '\r') ∧ Injectable text := by
  constructor
  · rintro ⟨hslash, hlf, hcr⟩
    rw [List.mem_cons, not_or] at hlf hcr
    refine ⟨?_, fun h => h.elim (fun h => hlf.1 h.symm) fun h => hcr.1 h.symm, ?_⟩
    · rintro rfl
      exact hslash text List.suffix_rfl
    · exact ⟨fun rest h => hslash rest (h.trans (List.suffix_cons c text)), hlf.2, hcr.2⟩
  · rintro ⟨hslash, hbreak, h⟩
    rw [not_or] at hbreak
    refine ⟨fun rest hrest => ?_, ?_, ?_⟩
    · rcases List.suffix_cons_iff.mp hrest with heq | hrest
      · obtain ⟨rfl, rfl⟩ := List.cons.inj heq
        exact hslash rfl
      · exact h.backslash rest hrest
    · exact List.not_mem_cons_of_ne_of_not_mem (Ne.symm hbreak.1) h.lf
    · exact List.not_mem_cons_of_ne_of_not_mem (Ne.symm hbreak.2) h.cr

/-- An escaped quote is that quote. -/
theorem escapeSequence_quote {c : Char} (hc : c = '\'' ∨ c = '"' ∨ c = '\\') (s : Text) :
    escapeSequence c s = some (utf16 c.toNat, s) := by
  rcases hc with rfl | rfl | rfl <;> rfl

/-- The literal of an escaped text, up to the closing quote and on. -/
def literal (text rest : Text) : Option (List Nat × Text) :=
  stringLiteral (safeText text ++ '"' :: rest)

theorem literal_nil (rest : Text) : literal [] rest = some ([], rest) := stringLiteral_quote rest

theorem literal_quote {c : Char} (hc : c = '\'' ∨ c = '"') (text rest : Text) :
    literal (c :: text) rest = prepend (utf16 c.toNat) (literal text rest) := by
  unfold literal
  rw [safeText_cons, if_pos hc]
  exact stringLiteral_escape (escapeSequence_quote (or_assoc.mp (Or.inl hc)) _)

theorem literal_inert {c : Char} (hc : Inert c) (text rest : Text) : literal (c :: text) rest =
    if c = '\n' ∨ c = '\r' then none else prepend (utf16 c.toNat) (literal text rest) := by
  unfold literal
  rw [safeText_inert hc]
  exact stringLiteral_char hc.2.2 hc.1 _

/-- A backslash takes the backslash that escapes the single quote after it. -/
theorem literal_backslash_quote (text rest : Text) : literal ('\\' :: '\'' :: text) rest =
    prepend (utf16 '\\'.toNat) (prepend (utf16 '\''.toNat) (literal text rest)) := by
  have hesc := escapeSequence_quote (Or.inr (Or.inr rfl)) ('\'' :: (safeText text ++ '"' :: rest))
  unfold literal
  rw [safeText_cons, if_neg (by decide), safeText_cons, if_pos (Or.inl rfl)]
  exact (stringLiteral_escape hesc).trans
    (congrArg _ ((stringLiteral_char (by decide) (by decide) _).trans (if_neg (by decide))))

/-- At the end of the text a backslash takes the closing quote. -/
theorem literal_backslash_end (rest : Text) (value : List Nat) :
    literal ['\\'] rest ≠ some (value, rest) := by
  intro h
  have hesc := stringLiteral_escape (escapeSequence_quote (Or.inr (Or.inl rfl)) rest)
  obtain ⟨u, hu, -⟩ := prepend_eq_some (hesc.symm.trans h)
  exact absurd (stringLiteral_length hu) (lt_irrefl _)

/-- Before a double quote a backslash takes the one that escapes it: the literal ends there, and
the rest of the text is script. -/
theorem literal_backslash_dquote (text rest : Text) : literal ('\\' :: '"' :: text) rest =
    some (utf16 '\\'.toNat, safeText text ++ '"' :: rest) := by
  have hesc := stringLiteral_escape (escapeSequence_quote (Or.inr (Or.inr rfl))
    ('"' :: (safeText text ++ '"' :: rest)))
  rw [stringLiteral_quote] at hesc
  unfold literal
  rw [safeText_cons, if_neg (by decide), safeText_cons, if_pos (Or.inr rfl)]
  exact hesc

/-- Before another character a backslash takes inert characters of the text with it. -/
theorem literal_backslash_other {c : Char} (hc : ¬ (c = '\'' ∨ c = '"')) {text rest : Text}
    {value : List Nat} (h : literal ('\\' :: c :: text) rest = some (value, rest)) :
    ∃ v p text' u, text = p ++ text' ∧ literal text' rest = some (u, rest) ∧ value = v ++ u ∧
      v.length ≤ (utf16 c.toNat).length + p.length := by
  unfold literal at h
  rw [safeText_cons, if_neg (by decide), safeText_cons, if_neg hc] at h
  obtain ⟨v, r, hesc, h⟩ := stringLiteral_backslash h
  obtain ⟨u, hu, rfl⟩ := prepend_eq_some h
  obtain ⟨p, htakes, hle⟩ := escapeSequence_inert hesc
  obtain ⟨text', rfl, rfl⟩ := takes_safeText htakes
  exact ⟨v, p, text', u, rfl, hu, rfl, hle⟩

/-- The literal of an injectable text is worth the text. -/
theorem Injectable.literal_eq {text : Text} (h : Injectable text) (rest : Text) :
    literal text rest = some (units text, rest) := by
  induction hn : text.length using Nat.strong_induction_on generalizing text with
  | _ n ih =>
    cases text with
    | nil => exact literal_nil rest
    | cons c text =>
      obtain ⟨hslash, hbreak, htext⟩ := (injectable_cons c text).mp h
      rw [List.length_cons] at hn
      by_cases hc : c = '\\'
      · obtain ⟨text', rfl⟩ := List.head?_eq_some_iff.mp (hslash hc)
        obtain ⟨-, -, htext'⟩ := (injectable_cons _ _).mp htext
        rw [List.length_cons] at hn
        rw [hc, literal_backslash_quote, ih text'.length (by omega) htext' rfl]
        rfl
      have hlit := ih text.length (by omega) htext rfl
      by_cases hquote : c = '\'' ∨ c = '"'
      · rw [literal_quote hquote, hlit]
        rfl
      · rw [literal_inert ⟨hc, not_or.mp hquote⟩, if_neg hbreak, hlit]
        rfl

/-- A value no longer than the text, and shorter unless the text is injectable. -/
def Short (text : Text) (value : List Nat) : Prop :=
  value.length ≤ (units text).length ∧ (value.length = (units text).length → Injectable text)

theorem Short.cons {c : Char} (hc : c ≠ '\\') (hbreak : ¬ (c = '\n' ∨ c = '\r')) {text : Text}
    {value : List Nat} (h : Short text value) : Short (c :: text) (utf16 c.toNat ++ value) := by
  obtain ⟨hle, heq⟩ := h
  unfold Short
  rw [units_cons, List.length_append, List.length_append, injectable_cons]
  constructor
  · omega
  · intro h
    have htext : Injectable text := heq (by omega)
    exact ⟨fun hc' => absurd hc' hc, hbreak, htext⟩

theorem Short.quoted {text : Text} {value : List Nat} (h : Short text value) :
    Short ('\\' :: '\'' :: text) (utf16 '\\'.toNat ++ (utf16 '\''.toNat ++ value)) := by
  obtain ⟨hle, heq⟩ := h
  unfold Short
  simp only [units_cons, List.length_append]
  constructor
  · omega
  · intro h
    have htext : Injectable text := heq (by omega)
    rw [injectable_cons, injectable_cons]
    exact ⟨fun _ => rfl, by decide, fun hc => absurd hc (by decide), by decide, htext⟩

/-- A backslash and what it takes have a shorter value. -/
theorem Short.taken {c : Char} {p text : Text} {v value : List Nat}
    (hv : v.length ≤ (utf16 c.toNat).length + p.length) (h : Short text value) :
    Short ('\\' :: c :: (p ++ text)) (v ++ value) := by
  have hle := h.1
  have hslash := length_utf16_pos '\\'.toNat
  have hp := length_le_units p
  unfold Short
  simp only [units_cons, units_append, List.length_append]
  constructor
  · omega
  · intro h
    omega

/-- The value of a literal that ends at the closing quote is no longer than the text, and shorter
unless the text is injectable. -/
theorem literal_short (text rest : Text) {value : List Nat}
    (h : literal text rest = some (value, rest)) : Short text value := by
  induction hn : text.length using Nat.strong_induction_on generalizing text value with
  | _ n ih =>
    cases text with
    | nil =>
      obtain ⟨rfl, -⟩ := Prod.mk.inj (Option.some.inj ((literal_nil rest).symm.trans h))
      exact ⟨le_refl _, fun _ => injectable_nil⟩
    | cons c text =>
      rw [List.length_cons] at hn
      by_cases hc : c = '\\'
      · subst hc
        cases text with
        | nil => exact absurd h (literal_backslash_end rest value)
        | cons d text =>
          rw [List.length_cons] at hn
          by_cases hd : d = '\'' ∨ d = '"'
          · rcases hd with rfl | rfl
            · rw [literal_backslash_quote] at h
              obtain ⟨u, hu, rfl⟩ := prepend_eq_some h
              obtain ⟨u', hu', rfl⟩ := prepend_eq_some hu
              exact (ih text.length (by omega) text hu' rfl).quoted
            · rw [literal_backslash_dquote] at h
              have hrest := congrArg List.length (Prod.mk.inj (Option.some.inj h)).2
              simp only [List.length_append, List.length_cons] at hrest
              omega
          · obtain ⟨v, p, text', u, rfl, hu, rfl, hv⟩ := literal_backslash_other hd h
            rw [List.length_append] at hn
            exact (ih text'.length (by omega) text' hu rfl).taken hv
      by_cases hquote : c = '\'' ∨ c = '"'
      · rw [literal_quote hquote] at h
        obtain ⟨u, hu, rfl⟩ := prepend_eq_some h
        refine (ih text.length (by omega) text hu rfl).cons hc ?_
        rcases hquote with rfl | rfl <;> decide
      · rw [literal_inert ⟨hc, not_or.mp hquote⟩] at h
        split at h
        next => cases h
        next hbreak =>
          obtain ⟨u, hu, rfl⟩ := prepend_eq_some h
          exact (ih text.length (by omega) text hu rfl).cons hc hbreak

theorem literal_iff (text rest : Text) :
    literal text rest = some (units text, rest) ↔ Injectable text :=
  ⟨fun h => (literal_short text rest h).2 rfl, fun h => h.literal_eq rest⟩

theorem onInputComplete_scripts (self : NeoDCTBrowser) : self.onInputComplete.scripts =
    self.scripts ++
      [scriptBefore ++ '"' :: (safeText self.inputWidget.text ++ '"' :: scriptAfter)] := rfl

/-- **Accepting the popup** runs one script; its literal ends at the closing quote and is worth the
text of the popup exactly if that text is injectable. -/
theorem injects_iff (self : NeoDCTBrowser) :
    ∃ source, self.onInputComplete.scripts = self.scripts ++ [scriptBefore ++ '"' :: source] ∧
      (stringLiteral source = some (units self.inputWidget.text, scriptAfter) ↔
        Injectable self.inputWidget.text) :=
  ⟨_, onInputComplete_scripts self, literal_iff _ _⟩

/-- The popup, opened on a text. -/
def prefilled (text : Text) : NeoDCTBrowser :=
  NeoDCTBrowser.fetched ⟨⟨[], false⟩, false, false, [], []⟩ (.ok (some text))

/-- A single backslash takes the closing quote. -/
theorem injects_not : ¬ ∃ source,
    (prefilled ['\\']).onInputComplete.scripts = [scriptBefore ++ '"' :: source] ∧
      stringLiteral source = some (units ['\\'], scriptAfter) := by
  rintro ⟨source, hscript, hlit⟩
  rw [onInputComplete_scripts] at hscript
  have hsource := List.append_cancel_left (List.singleton_inj.mp hscript)
  rw [← (List.cons.inj hsource).2] at hlit
  exact literal_backslash_end scriptAfter _ hlit

end NeoDCT.Browser
