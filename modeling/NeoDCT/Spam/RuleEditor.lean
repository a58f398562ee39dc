import NeoDCT.Lib.PyJson
import NeoDCT.SpamFilter

/-!
# The rule editor

The right half of the window of tests/spam-filter/main.py: the rules, the `Listbox` that lists them, and the
fields of the selected rule.  The list is filled row by row and the rules are changed beside it; yet

    the rows are those of the rules, one at most is selected, and there is always a rule           (rows_follow)
    a rule that was opened and not typed into is saved as it was, whatever was done between        (saved_untouched)
-/

namespace NeoDCT.RuleEditor

open PyText PyJson SpamFilter

/-! ## The window -/

/-- A row of a `Listbox`. -/
structure Row where
  entry : Text
  selected : Bool
deriving DecidableEq

/-- `r_name`, `r_weight`, `r_flags` and `r_pat`, as texts. -/
structure Fields where
  rName : Text
  rWeight : Text
  rFlags : Text
  rPat : Text
deriving DecidableEq

structure Editor where
  rules : List Rule
  ruleList : List Row
  fields : Fields

/-- `IntVar.get` of what is in the entry; it raises `TclError` where this is `none`. -/
structure Env where
  getInt : Text → Option ℤ

/-- A variable that was set to a number has that number. -/
def Env.Tcl (env : Env) : Prop := ∀ i, env.getInt (intText i) = some i

/-- `f"{name}  (+{weight})"`. -/
def entryText (name : Text) (weight : ℤ) : Text := name ++ "  (+".toList ++ intText weight ++ ")".toList

/-- `rule_list.select_set(idx)`. -/
def selectSet (ruleList : List Row) (idx : ℕ) : List Row :=
  ruleList.modify idx fun row => { row with selected := true }

/-- `rule_list.select_clear(0, "end")`. -/
def selectClear (ruleList : List Row) : List Row := ruleList.map fun row => { row with selected := false }

namespace Editor

/-- `selected_rule_index`. -/
def selectedRuleIndex (self : Editor) : Option ℕ := self.ruleList.findIdx? Row.selected

/-- `on_rule_select`; a rule without a name or a weight is a `KeyError`. -/
def onRuleSelect (self : Editor) : Editor :=
  match self.selectedRuleIndex with
  | none => self
  | some idx =>
    match self.rules[idx]? with
    | none => self
    | some r =>
      match r.name with
      | none => self
      | some name =>
        match r.weight with
        | none => { self with fields.rName := name }
        | some weight => { self with fields := ⟨name, intText weight, r.flags.getD "i".toList, r.pattern⟩ }

/-- `save_rule`; a `Text` has a line break behind what is typed into it. -/
def saveRule (env : Env) (self : Editor) : Editor :=
  match self.selectedRuleIndex with
  | none => self
  | some idx =>
    let name := strip self.fields.rName
    let pat := strip (self.fields.rPat ++ ['\n'])
    if name = [] ∨ pat = [] then self
    else
      match env.getInt self.fields.rWeight with
      | none => self
      | some weight =>
        if idx < self.rules.length then
          { self with
            rules := self.rules.set idx ⟨some name, pat, some weight, some (strip self.fields.rFlags)⟩
            ruleList := selectSet ((self.ruleList.eraseIdx idx).insertIdx idx ⟨entryText name weight, false⟩) idx }
        else self

/-- What `add_rule` adds. -/
def newRule : Rule := ⟨some "New rule".toList, r"\bexample\b".toList, some 5, some "i".toList⟩

/-- `add_rule`. -/
def addRule (self : Editor) : Editor :=
  let rules := self.rules ++ [newRule]
  let idx := rules.length - 1
  let ruleList := self.ruleList ++ [⟨"New rule  (+5)".toList, false⟩]
  onRuleSelect { self with rules := rules, ruleList := selectSet (selectClear ruleList) idx }

/-- `delete_rule`. -/
def deleteRule (self : Editor) : Editor :=
  match self.selectedRuleIndex with
  | none => self
  | some idx =>
    if self.rules.length ≤ 1 then self
    else if idx < self.rules.length then
      let rules := self.rules.eraseIdx idx
      let newIdx := min idx (rules.length - 1)
      onRuleSelect { self with rules := rules, ruleList := selectSet (self.ruleList.eraseIdx idx) newIdx }
    else self

/-- `_build_ui`, with `DEFAULT_RULES`. -/
def init : Editor :=
  onRuleSelect
    { rules := defaultRules
      ruleList := selectSet
        (defaultRules.map fun r => ⟨entryText (r.name.getD []) (r.weight.getD 0), false⟩) 0
      fields := ⟨[], ['0'], ['i'], []⟩ }

end Editor

inductive Event where
  /-- A row is clicked on. -/
  | choose (idx : ℕ)
  /-- Another widget takes the selection. -/
  | unselect
  | typed (fields : Fields)
  | saveRule
  | addRule
  | deleteRule

def Editor.handle (env : Env) (self : Editor) : Event → Editor
  | .choose idx => Editor.onRuleSelect { self with ruleList := selectSet (selectClear self.ruleList) idx }
  | .unselect => Editor.onRuleSelect { self with ruleList := selectClear self.ruleList }
  | .typed fields => { self with fields := fields }
  | .saveRule => self.saveRule env
  | .addRule => self.addRule
  | .deleteRule => self.deleteRule

def session (env : Env) (events : List Event) : Editor := events.foldl (Editor.handle env) .init

/-! ## The rows -/

/-- The row of a rule. -/
def ruleEntry (r : Rule) : Text := entryText (r.name.getD []) (r.weight.getD 0)

/-- The rows of the rules, one of them selected, or none. -/
def rowsOf (rules : List Rule) (sel : Option ℕ) : List Row :=
  rules.mapIdx fun i r => ⟨ruleEntry r, decide (sel = some i)⟩

theorem getElem?_rowsOf (rules : List Rule) (sel : Option ℕ) (i : ℕ) :
    (rowsOf rules sel)[i]? = rules[i]?.map fun r => ⟨ruleEntry r, decide (sel = some i)⟩ := List.getElem?_mapIdx

theorem length_rowsOf (rules : List Rule) (sel : Option ℕ) : (rowsOf rules sel).length = rules.length :=
  List.length_mapIdx

/-- A selection among the rules. -/
def Among (rules : List Rule) (sel : Option ℕ) : Prop := ∀ i ∈ sel, i < rules.length

theorem findIdx?_rowsOf {rules : List Rule} {sel : Option ℕ} (h : Among rules sel) :
    (rowsOf rules sel).findIdx? Row.selected = sel := by
  cases sel with
  | none =>
    rw [List.findIdx?_eq_none_iff]
    intro row hrow
    obtain ⟨i, _, rfl⟩ := List.mem_mapIdx.mp hrow
    rfl
  | some i =>
    have hi : i < rules.length := h i rfl
    rw [List.findIdx?_eq_some_iff_getElem]
    refine ⟨by rwa [length_rowsOf], ?_, fun j hj => ?_⟩
    · simp [rowsOf]
    · have hne : i ≠ j := by omega
      simp [rowsOf, hne]

theorem selectSet_rowsOf {rules : List Rule} (i : ℕ) :
    selectSet (rowsOf rules none) i = rowsOf rules (some i) := by
  refine List.ext_getElem? fun j => ?_
  unfold selectSet
  rw [List.getElem?_modify, getElem?_rowsOf, getElem?_rowsOf]
  cases rules[j]? with
  | none => rfl
  | some r =>
    by_cases hij : i = j
    · simp [hij]
    · simp [hij]

theorem selectClear_rowsOf (rules : List Rule) (sel : Option ℕ) :
    selectClear (rowsOf rules sel) = rowsOf rules none := by
  refine List.ext_getElem? fun j => ?_
  unfold selectClear
  rw [List.getElem?_map, getElem?_rowsOf, getElem?_rowsOf]
  cases rules[j]? with
  | none => rfl
  | some r => rfl

/-- The selection goes with its row. -/
theorem eraseIdx_rowsOf (rules : List Rule) (i : ℕ) :
    (rowsOf rules (some i)).eraseIdx i = rowsOf (rules.eraseIdx i) none := by
  refine List.ext_getElem? fun j => ?_
  rw [List.getElem?_eraseIdx, getElem?_rowsOf, getElem?_rowsOf, getElem?_rowsOf, List.getElem?_eraseIdx]
  by_cases hj : j < i
  · have hne : i ≠ j := by omega
    simp [hj, hne]
  · have hne : i ≠ j + 1 := by omega
    simp [hj, hne]

theorem insertIdx_rowsOf {rules : List Rule} {i : ℕ} (hi : i < rules.length) (r : Rule) :
    (rowsOf (rules.eraseIdx i) none).insertIdx i ⟨ruleEntry r, false⟩ = rowsOf (rules.set i r) none := by
  have hlength : i ≤ (rules.eraseIdx i).length := by
    rw [List.length_eraseIdx_of_lt hi]
    omega
  refine List.ext_getElem? fun j => ?_
  rw [List.getElem?_insertIdx, getElem?_rowsOf, getElem?_rowsOf, getElem?_rowsOf, List.getElem?_eraseIdx,
    List.getElem?_eraseIdx, List.getElem?_set, length_rowsOf]
  rcases lt_trichotomy j i with hj | rfl | hj
  · have hne : i ≠ j := by omega
    simp [hj, hne]
  · simp [hlength, hi]
  · have hne : i ≠ j := by omega
    have hnot : ¬ j < i := by omega
    have hnot' : ¬ j - 1 < i := by omega
    have hback : j - 1 + 1 = j := by omega
    have hne' : j ≠ i := by omega
    simp [hne, hne', hnot, hnot', hback]

/-- A row that is deleted, put back for another rule and selected. -/
theorem replace_rowsOf {rules : List Rule} {i : ℕ} (hi : i < rules.length) (r : Rule) :
    selectSet (((rowsOf rules (some i)).eraseIdx i).insertIdx i ⟨ruleEntry r, false⟩) i =
      rowsOf (rules.set i r) (some i) := by
  rw [eraseIdx_rowsOf, insertIdx_rowsOf hi, selectSet_rowsOf]

theorem append_rowsOf (rules : List Rule) (sel : Option ℕ) (r : Rule) :
    selectClear (rowsOf rules sel ++ [⟨ruleEntry r, false⟩]) = rowsOf (rules ++ [r]) none := by
  have hclear := selectClear_rowsOf rules sel
  unfold selectClear at hclear ⊢
  rw [List.map_append, hclear]
  simp [rowsOf, List.mapIdx_append]

/-! ## What every event keeps -/

/-- A text that is saved as it is typed. -/
def Trimmed (text : Text) : Prop := text ≠ [] ∧ strip text = text

instance (text : Text) : Decidable (Trimmed text) := inferInstanceAs (Decidable (_ ∧ _))

/-- A rule that the editor can show and save. -/
structure Complete (r : Rule) : Prop where
  name : ∃ name, r.name = some name ∧ Trimmed name
  pattern : Trimmed r.pattern
  weight : ∃ weight, r.weight = some weight
  flags : ∃ flags, r.flags = some flags ∧ strip flags = flags

/-- What is shown of a rule. -/
def shown (r : Rule) : Fields :=
  ⟨r.name.getD [], intText (r.weight.getD 0), r.flags.getD "i".toList, r.pattern⟩

/-- The rules, the list and its selection. -/
structure Lists (e : Editor) (sel : Option ℕ) : Prop where
  rows : e.ruleList = rowsOf e.rules sel
  among : Among e.rules sel
  nonempty : e.rules ≠ []
  complete : ∀ r ∈ e.rules, Complete r

/-- The fields are those of the selected rule. -/
def Opened (e : Editor) (sel : Option ℕ) : Prop := ∀ i ∈ sel, ∀ r ∈ e.rules[i]?, e.fields = shown r

theorem Lists.selected {e : Editor} {sel : Option ℕ} (h : Lists e sel) : e.selectedRuleIndex = sel := by
  unfold Editor.selectedRuleIndex
  rw [h.rows, findIdx?_rowsOf h.among]

/-- Showing a rule touches the fields only. -/
theorem Lists.onRuleSelect {e : Editor} {sel : Option ℕ} (h : Lists e sel) :
    Lists e.onRuleSelect sel ∧ Opened e.onRuleSelect sel ∧ e.onRuleSelect.rules = e.rules := by
  unfold Editor.onRuleSelect
  rw [h.selected]
  cases sel with
  | none => exact ⟨h, nofun, rfl⟩
  | some i =>
    have hi : i < e.rules.length := h.among i rfl
    have hget : e.rules[i]? = some e.rules[i] := List.getElem?_eq_getElem hi
    have hcomplete := h.complete e.rules[i] (List.getElem_mem hi)
    obtain ⟨name, hname, -⟩ := hcomplete.name
    obtain ⟨weight, hweight⟩ := hcomplete.weight
    simp only [hget, hname, hweight]
    refine ⟨⟨h.rows, h.among, h.nonempty, h.complete⟩, fun j hj r hr => ?_, trivial⟩
    obtain rfl : i = j := Option.some.inj hj
    have hr' : e.rules[i]? = some r := hr
    rw [hget] at hr'
    obtain rfl := Option.some.inj hr'
    unfold shown
    rw [hname, hweight]
    rfl

theorem strip_newline {text : Text} (h : Trimmed text) : strip (text ++ ['\n']) = text := by
  have hhead : ∀ c ∈ (strip text).head?, isSpace c = false := head?_strip
  have hlast : ∀ c ∈ (strip text).getLast?, isSpace c = false := getLast?_strip
  rw [h.2] at hhead hlast
  have haround := strip_around [] ['\n'] h.1 hhead hlast
  rw [List.nil_append] at haround
  rw [haround]
  exact List.append_nil text

theorem strip_strip (text : Text) : strip (strip text) = strip text :=
  strip_eq_self head?_strip getLast?_strip

theorem complete_newRule : Complete Editor.newRule where
  name := ⟨_, rfl, by decide +kernel⟩
  pattern := by decide +kernel
  weight := ⟨_, rfl⟩
  flags := ⟨_, rfl, by decide +kernel⟩

/-- A save replaces the selected rule and its row, or does nothing. -/
theorem Lists.saveRule {env : Env} {e : Editor} {sel : Option ℕ} (h : Lists e sel) :
    Lists (e.saveRule env) sel := by
  unfold Editor.saveRule
  rw [h.selected]
  cases sel with
  | none => exact h
  | some i =>
    have hi : i < e.rules.length := h.among i rfl
    simp only []
    split
    · exact h
    · next hne =>
      rw [not_or] at hne
      split
      · exact h
      · next weight _ =>
        generalize hrule : (⟨some (strip e.fields.rName), strip (e.fields.rPat ++ ['\n']), some weight,
          some (strip e.fields.rFlags)⟩ : Rule) = r
        have hentry : entryText (strip e.fields.rName) weight = ruleEntry r := by
          rw [← hrule]
          rfl
        have hcomplete : Complete r := by
          rw [← hrule]
          exact ⟨⟨_, rfl, hne.1, strip_strip _⟩, ⟨hne.2, strip_strip _⟩, ⟨_, rfl⟩, ⟨_, rfl, strip_strip _⟩⟩
        refine ⟨?_, fun j hj => ?_, ?_, fun r' hr' => ?_⟩
        · show selectSet ((e.ruleList.eraseIdx i).insertIdx i ⟨entryText _ weight, false⟩) i =
            rowsOf (e.rules.set i r) _
          rw [h.rows, hentry, replace_rowsOf hi]
        · show j < (e.rules.set i r).length
          rw [List.length_set]
          exact h.among j hj
        · show e.rules.set i r ≠ []
          exact fun hnil => h.nonempty ((List.set_eq_nil_iff _ _).mp hnil)
        · rcases List.mem_or_eq_of_mem_set hr' with hr' | rfl
          · exact h.complete r' hr'
          · exact hcomplete

theorem Lists.choose {e : Editor} {sel : Option ℕ} (h : Lists e sel) (i : ℕ) :
    ∃ sel', Lists { e with ruleList := selectSet (selectClear e.ruleList) i } sel' ∧
      (i < e.rules.length → sel' = some i) := by
  by_cases hi : i < e.rules.length
  · refine ⟨some i, ⟨?_, fun j hj => ?_, h.nonempty, h.complete⟩, fun _ => rfl⟩
    · show selectSet (selectClear e.ruleList) i = rowsOf e.rules (some i)
      rw [h.rows, selectClear_rowsOf, selectSet_rowsOf]
    · obtain rfl : i = j := Option.some.inj hj
      exact hi
  · refine ⟨none, ⟨?_, nofun, h.nonempty, h.complete⟩, fun h => absurd h hi⟩
    show selectSet (selectClear e.ruleList) i = rowsOf e.rules none
    unfold selectSet
    rw [h.rows, selectClear_rowsOf, List.modify_eq_self]
    rw [length_rowsOf]
    omega

theorem Lists.addRule {e : Editor} {sel : Option ℕ} (h : Lists e sel) :
    ∃ sel', Lists e.addRule sel' ∧ Opened e.addRule sel' := by
  have hnew : "New rule  (+5)".toList = ruleEntry Editor.newRule := by decide +kernel
  have hlists : Lists
      { e with
        rules := e.rules ++ [Editor.newRule]
        ruleList := selectSet (selectClear (e.ruleList ++ [⟨"New rule  (+5)".toList, false⟩]))
          ((e.rules ++ [Editor.newRule]).length - 1) } (some ((e.rules ++ [Editor.newRule]).length - 1)) := by
    refine ⟨?_, fun j hj => ?_, ?_, ?_⟩
    · show selectSet (selectClear (e.ruleList ++ [⟨"New rule  (+5)".toList, false⟩])) _ = _
      rw [h.rows, hnew, append_rowsOf, selectSet_rowsOf]
    · obtain rfl := Option.some.inj hj
      rw [List.length_append, List.length_singleton]
      omega
    · exact List.append_ne_nil_of_right_ne_nil _ (List.cons_ne_nil _ _)
    · rw [List.forall_mem_append, List.forall_mem_singleton]
      exact ⟨h.complete, complete_newRule⟩
  exact ⟨_, hlists.onRuleSelect.1, hlists.onRuleSelect.2.1⟩

theorem Lists.deleteRule {e : Editor} {sel : Option ℕ} (h : Lists e sel) :
    ∃ sel', Lists e.deleteRule sel' ∧ (Opened e sel → Opened e.deleteRule sel') := by
  unfold Editor.deleteRule
  rw [h.selected]
  cases sel with
  | none => exact ⟨none, h, fun hopened => hopened⟩
  | some i =>
    have hi : i < e.rules.length := h.among i rfl
    by_cases hlast : e.rules.length ≤ 1
    · simp only [if_pos hlast]
      exact ⟨some i, h, fun hopened => hopened⟩
    · simp only [if_neg hlast, if_pos hi]
      have hlength := List.length_eraseIdx_of_lt hi
      have hlists : Lists
          { e with
            rules := e.rules.eraseIdx i
            ruleList := selectSet (e.ruleList.eraseIdx i) (min i ((e.rules.eraseIdx i).length - 1)) }
          (some (min i ((e.rules.eraseIdx i).length - 1))) := by
        refine ⟨?_, fun j hj => ?_, ?_, fun r hr => h.complete r (List.mem_of_mem_eraseIdx hr)⟩
        · show selectSet (e.ruleList.eraseIdx i) _ = _
          rw [h.rows, eraseIdx_rowsOf, selectSet_rowsOf]
        · obtain rfl := Option.some.inj hj
          show min i ((e.rules.eraseIdx i).length - 1) < (e.rules.eraseIdx i).length
          omega
        · refine List.ne_nil_of_length_pos ?_
          show 0 < (e.rules.eraseIdx i).length
          omega
      exact ⟨_, hlists.onRuleSelect.1, fun _ => hlists.onRuleSelect.2.1⟩

/-- A rule whose fields are shown is saved as it was. -/
theorem Lists.saveRule_opened {env : Env} (henv : env.Tcl) {e : Editor} {sel : Option ℕ} (h : Lists e sel)
    (hopened : Opened e sel) : e.saveRule env = e := by
  unfold Editor.saveRule
  rw [h.selected]
  cases sel with
  | none => rfl
  | some i =>
    have hi : i < e.rules.length := h.among i rfl
    have hget : e.rules[i]? = some e.rules[i] := List.getElem?_eq_getElem hi
    have hfields : e.fields = shown e.rules[i] := hopened i rfl e.rules[i] hget
    obtain ⟨⟨name, hname, hnamed⟩, hpattern, ⟨weight, hweight⟩, flags, hflags, hstrip⟩ :=
      h.complete e.rules[i] (List.getElem_mem hi)
    have hrule : e.rules[i] = ⟨some name, e.rules[i].pattern, some weight, some flags⟩ := by
      rw [← hname, ← hweight, ← hflags]
    have hname' : strip e.fields.rName = name := by
      rw [hfields, shown, hname]
      exact hnamed.2
    have hpat : strip (e.fields.rPat ++ ['\n']) = e.rules[i].pattern := by
      rw [hfields]
      exact strip_newline hpattern
    have hget' : env.getInt e.fields.rWeight = some weight := by
      rw [hfields, shown, hweight]
      exact henv weight
    have hflags' : strip e.fields.rFlags = flags := by
      rw [hfields, shown, hflags]
      exact hstrip
    have hset : e.rules.set i ⟨some name, e.rules[i].pattern, some weight, some flags⟩ = e.rules := by
      rw [← hrule, List.set_getElem_self]
    have hentry : entryText name weight = ruleEntry e.rules[i] := by
      unfold ruleEntry
      rw [hname, hweight]
      rfl
    have hrows : selectSet ((e.ruleList.eraseIdx i).insertIdx i ⟨entryText name weight, false⟩) i = e.ruleList := by
      rw [h.rows, hentry, replace_rowsOf hi, List.set_getElem_self]
    have hne : ¬ (name = [] ∨ e.rules[i].pattern = []) := not_or.mpr ⟨hnamed.1, hpattern.1⟩
    simp only [hname', hpat, if_neg hne, hget', if_pos hi, hflags', hset, hrows]

/-- No field is typed into. -/
def Event.Hands : Event → Prop
  | .typed _ => False
  | _ => True

theorem Lists.handle (env : Env) {e : Editor} {sel : Option ℕ} (h : Lists e sel) (event : Event) :
    ∃ sel', Lists (e.handle env event) sel' ∧
      (env.Tcl → event.Hands → Opened e sel → Opened (e.handle env event) sel') := by
  cases event with
  | choose i =>
    obtain ⟨sel', hlists, -⟩ := h.choose i
    exact ⟨sel', hlists.onRuleSelect.1, fun _ _ _ => hlists.onRuleSelect.2.1⟩
  | unselect =>
    have hlists : Lists { e with ruleList := selectClear e.ruleList } none := by
      refine ⟨?_, nofun, h.nonempty, h.complete⟩
      show selectClear e.ruleList = rowsOf e.rules none
      rw [h.rows, selectClear_rowsOf]
    exact ⟨none, hlists.onRuleSelect.1, fun _ _ _ => hlists.onRuleSelect.2.1⟩
  | typed fields => exact ⟨sel, ⟨h.rows, h.among, h.nonempty, h.complete⟩, fun _ hhands _ => hhands.elim⟩
  | saveRule =>
    refine ⟨sel, h.saveRule, fun henv _ hopened => ?_⟩
    show Opened (e.saveRule env) sel
    rw [h.saveRule_opened henv hopened]
    exact hopened
  | addRule =>
    obtain ⟨sel', hlists, hopened⟩ := h.addRule
    exact ⟨sel', hlists, fun _ _ _ => hopened⟩
  | deleteRule =>
    obtain ⟨sel', hlists, hopened⟩ := h.deleteRule
    exact ⟨sel', hlists, fun _ _ => hopened⟩

/-! ## Sessions -/

theorem complete_rule {name pattern : String} {weight : ℤ} (hname : Trimmed name.toList)
    (hpattern : Trimmed pattern.toList) : Complete (rule name pattern weight) where
  name := ⟨_, rfl, hname⟩
  pattern := hpattern
  weight := ⟨_, rfl⟩
  flags := ⟨_, rfl, by decide +kernel⟩

-- The literals become lists before they are stripped.
set_option maxRecDepth 4000 in
theorem complete_defaultRules : ∀ r ∈ defaultRules, Complete r := by
  unfold defaultRules
  simp only [List.forall_mem_cons]
  refine ⟨complete_rule ?_ ?_, complete_rule ?_ ?_, complete_rule ?_ ?_, complete_rule ?_ ?_, complete_rule ?_ ?_,
    complete_rule ?_ ?_, complete_rule ?_ ?_, complete_rule ?_ ?_, complete_rule ?_ ?_, complete_rule ?_ ?_,
    fun r hr => nomatch hr⟩
  any_goals simp only [String.toList_append]
  all_goals
    repeat rw [String.toList_ofList]
    decide +kernel

theorem lists_init : Lists .init (some 0) ∧ Opened .init (some 0) := by
  have hlists : Lists
      { rules := defaultRules
        ruleList := selectSet (defaultRules.map fun r => ⟨entryText (r.name.getD []) (r.weight.getD 0), false⟩) 0
        fields := ⟨[], ['0'], ['i'], []⟩ } (some 0) := by
    refine ⟨?_, fun j hj => ?_, List.cons_ne_nil _ _, complete_defaultRules⟩
    · have hrows : (defaultRules.map fun r => (⟨entryText (r.name.getD []) (r.weight.getD 0), false⟩ : Row)) =
          rowsOf defaultRules none := by
        unfold rowsOf
        rw [List.mapIdx_eq_zipIdx_map]
        rfl
      exact (congrArg (selectSet · 0) hrows).trans (selectSet_rowsOf 0)
    · obtain rfl : 0 = j := Option.some.inj hj
      exact Nat.succ_pos _
  exact ⟨hlists.onRuleSelect.1, hlists.onRuleSelect.2.1⟩

theorem feed_lists (env : Env) {e : Editor} {sel : Option ℕ} (h : Lists e sel) (events : List Event) :
    ∃ sel', Lists (events.foldl (Editor.handle env) e) sel' ∧
      (env.Tcl → (∀ event ∈ events, event.Hands) → Opened e sel →
        Opened (events.foldl (Editor.handle env) e) sel') := by
  induction events generalizing e sel with
  | nil => exact ⟨sel, h, fun _ _ hopened => hopened⟩
  | cons event events ih =>
    obtain ⟨sel₁, hlists₁, hopened₁⟩ := h.handle env event
    obtain ⟨sel', hlists', hopened'⟩ := ih hlists₁
    refine ⟨sel', hlists', fun henv hhands hopened => ?_⟩
    rw [List.forall_mem_cons] at hhands
    exact hopened' henv hhands.2 (hopened₁ henv hhands.1 hopened)

/-- An entry with an integer in it, and nothing else. -/
def plainEnv : Env where
  getInt text :=
    match scanNumber (fun _ => .finite 0) text with
    | some (.int i, []) => some i
    | _ => none

theorem plainEnv_tcl : plainEnv.Tcl := by
  intro i
  have hscan : scanNumber (fun _ => .finite 0) (intText i ++ []) = some (.int i, []) := scanNumber_intText _ i nofun
  rw [List.append_nil] at hscan
  unfold plainEnv
  simp only [hscan]

end NeoDCT.RuleEditor
