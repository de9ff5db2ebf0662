import ModuleAssembly.Proofs.Results
import ModuleAssembly.Settings

/-!
# Parameter strings

An option sets a field to a value of its own, or is refused, whatever the settings are. So a
parameter string comes down to a set of changes that can be made to any settings: every field gets
the last value that it is set to in front of the first option that is refused (`Settings.apply_eq`).
Making the same changes once more changes nothing, and a comma between two strings puts the options
of the one behind those of the other. So parameter strings compose (`Settings.composes`).
-/

set_option autoImplicit false

namespace ModuleAssembly.Settings

/-! ## Changes -/

/-- What options change: the values of the fields that they set. -/
structure Changes where
  keepEmptyFiles : Option Bool := none
  tsNocheck : Option Bool := none
  eslintDisable : Option Bool := none
  importExtension : Option String := none
  target : Option String := none

namespace Changes

/-- The settings after the changes. -/
def on (c : Changes) (s : Settings) : Settings :=
  { s with
    keepEmptyFiles := c.keepEmptyFiles.getD s.keepEmptyFiles
    tsNocheck := c.tsNocheck.getD s.tsNocheck
    eslintDisable := c.eslintDisable.getD s.eslintDisable
    importExtension := c.importExtension.getD s.importExtension
    target := c.target.or s.target }

/-- The changes and others behind them; the last value of a field counts. -/
def followedBy (c d : Changes) : Changes where
  keepEmptyFiles := d.keepEmptyFiles.or c.keepEmptyFiles
  tsNocheck := d.tsNocheck.or c.tsNocheck
  eslintDisable := d.eslintDisable.or c.eslintDisable
  importExtension := d.importExtension.or c.importExtension
  target := d.target.or c.target

theorem on_followedBy (c d : Changes) (s : Settings) : (c.followedBy d).on s = d.on (c.on s) := by
  simp only [on, followedBy, Option.getD_or, Option.or_assoc]

/-- Changes that are made already change nothing. -/
theorem on_on (c : Changes) (s : Settings) : c.on (c.on s) = c.on s := by
  rw [← on_followedBy]
  simp only [on, followedBy, Option.or_self]

theorem empty_followedBy (c : Changes) : followedBy {} c = c := by
  simp only [followedBy, Option.or_none]

theorem followedBy_assoc (c d e : Changes) :
    (c.followedBy d).followedBy e = c.followedBy (d.followedBy e) := by
  simp only [followedBy, Option.or_assoc]

/-! ### Changes of options -/

/-- What an option changes, or why it is refused. -/
def ofOption (key value : String) : Except ParameterError Changes :=
  if key = "keep_empty_files" then (readSwitch key value).map fun b => { keepEmptyFiles := some b }
  else if key = "ts_nocheck" then (readSwitch key value).map fun b => { tsNocheck := some b }
  else if key = "eslint_disable" then (readSwitch key value).map fun b => { eslintDisable := some b }
  else if key = "import_extension" then
    .ok { importExtension := some (if value = "none" then "" else value) }
  else if key = "target" then
    if value = "" then .error .missingTarget else .ok { target := some value }
  else .error (.unknownOption key)

/-- What a list of options changes, and the error that ended it. -/
def ofOptions : List (List Char) → Changes × Option ParameterError
  | [] => ({}, none)
  | option :: rest =>
    match ofOption (keyAndValue option).1 (keyAndValue option).2 with
    | .ok c => (c.followedBy (ofOptions rest).1, (ofOptions rest).2)
    | .error e => ({}, some e)

/-- Behind options that are accepted the others have their effect. -/
theorem ofOptions_append_of_accepted {front : List (List Char)} (h : (ofOptions front).2 = none)
    (back : List (List Char)) : ofOptions (front ++ back)
      = ((ofOptions front).1.followedBy (ofOptions back).1, (ofOptions back).2) := by
  induction front with
  | nil =>
      rw [List.nil_append, ofOptions, empty_followedBy]
  | cons option rest ih =>
      simp only [List.cons_append, ofOptions] at h ⊢
      cases hoption : ofOption (keyAndValue option).1 (keyAndValue option).2 with
      | error e =>
          rw [hoption] at h
          cases h
      | ok c =>
          rw [hoption] at h
          simp only [ih h, followedBy_assoc]

/-- Behind one that is refused they have none. -/
theorem ofOptions_append_of_refused {front : List (List Char)} {e : ParameterError}
    (h : (ofOptions front).2 = some e) (back : List (List Char)) :
    ofOptions (front ++ back) = ofOptions front := by
  induction front with
  | nil => cases h
  | cons option rest ih =>
      simp only [List.cons_append, ofOptions] at h ⊢
      cases hoption : ofOption (keyAndValue option).1 (keyAndValue option).2 with
      | error e' => rfl
      | ok c =>
          rw [hoption] at h
          simp only [ih h]

/-- What a parameter string changes, and why it is refused. -/
def ofParameter (parameter : String) : Changes × Option ParameterError :=
  ofOptions (options parameter)

end Changes

/-! ## Options -/

/-- An option does to all settings the same. -/
theorem withOption_eq (s : Settings) (key value : String) :
    s.withOption key value = (Changes.ofOption key value).map fun c => c.on s := by
  unfold withOption Changes.ofOption
  split_ifs
  · cases readSwitch key value <;> rfl
  · cases readSwitch key value <;> rfl
  · cases readSwitch key value <;> rfl
  · rfl
  · rfl
  · rfl
  · rfl
  · rfl

/-- **Options as changes.** So does a list of options. -/
theorem withOptions_eq (s : Settings) (options : List (List Char)) :
    s.withOptions options = ((Changes.ofOptions options).1.on s, (Changes.ofOptions options).2) := by
  induction options generalizing s with
  | nil => rfl
  | cons option rest ih =>
      simp only [withOptions, Changes.ofOptions, withOption_eq]
      cases Changes.ofOption (keyAndValue option).1 (keyAndValue option).2 with
      | error e => rfl
      | ok c => simp only [except_map_ok, ih, Changes.on_followedBy]

/-- A comma puts the options of two strings one behind the other, blanks and empty options
included. -/
theorem options_append (p q : String) : options (p ++ "," ++ q) = options p ++ options q := by
  have hcomma : (p ++ "," ++ q).toList = p.toList ++ ',' :: q.toList := by
    rw [String.toList_append, String.toList_append, List.append_assoc]
    rfl
  unfold options
  rw [hcomma, List.splitOn_append_cons_self, List.map_append, List.filter_append]

/-! ## Parameter strings -/

/-- The settings with another string kept for the banner. -/
def keeping (s : Settings) (parameter : Option String) : Settings := { s with parameter }

@[simp] theorem keeping_keeping (s : Settings) (p q : Option String) :
    (s.keeping p).keeping q = s.keeping q := rfl

/-- No option is about the string that is kept. -/
theorem Changes.on_keeping (c : Changes) (s : Settings) (parameter : Option String) :
    c.on (s.keeping parameter) = (c.on s).keeping parameter := rfl

/-- **A parameter string makes its changes to all settings**, and is kept if it is accepted and not
empty. -/
theorem apply_eq (s : Settings) (p : String) :
    s.apply p = (((Changes.ofParameter p).1.on s).keeping
      (if (Changes.ofParameter p).2 = none ∧ p ≠ "" then some p else s.parameter),
      (Changes.ofParameter p).2) := by
  unfold apply Changes.ofParameter
  rw [withOptions_eq]
  cases (Changes.ofOptions (options p)).2 with
  | some e => rfl
  | none =>
      by_cases hp : p = ""
      · simp only [hp, if_true, ne_eq, not_true_eq_false, and_false, if_false]
        rfl
      · simp only [hp, if_false, ne_eq, not_false_eq_true, and_self, if_true]
        rfl

/-- Options in front of the refused one are in effect, and those behind it are not. -/
example : ({} : Settings).apply " target=a=b ,,keep_empty_files=yes, ts_nocheck=0"
    = ({ target := some "a=b" }, some (.notBoolean "keep_empty_files" "yes")) := by
  decide +kernel

/-- A parameter that is accepted makes its changes and is kept. -/
theorem applied_eq_ok_iff {s t : Settings} {p : String} :
    s.applied p = .ok t ↔ s.apply p = (t, none) := by
  unfold applied
  split
  · next e he => simp [he]
  · next t' ht => simp [ht]

/-- No option is about the runtime package. -/
theorem applied_runtimePackage {s t : Settings} {p : String} (h : s.applied p = .ok t) :
    t.runtimePackage = s.runtimePackage := by
  rw [applied_eq_ok_iff, apply_eq, Prod.mk.injEq] at h
  rw [← h.1]
  rfl

/-- **Parameter strings compose.** What it means for two strings, and settings that they are applied
to. -/
structure Composes (s : Settings) (p q : String) : Prop where
  /-- Behind a string that is accepted, another one has the effect that it has on the settings after
  the first one: it is accepted or refused alike, and only the string that is kept may differ. -/
  after_accepted : ∀ t, s.apply p = (t, none) →
    (s.apply (p ++ "," ++ q)).2 = (t.apply q).2 ∧
      (s.apply (p ++ "," ++ q)).1.keeping none = (t.apply q).1.keeping none
  /-- Behind a string that is refused, another one has no effect. -/
  after_refused : ∀ t e, s.apply p = (t, some e) → s.apply (p ++ "," ++ q) = (t, some e)
  /-- To apply a string once more changes nothing, whether it is accepted or refused. -/
  again : (s.apply p).1.apply p = s.apply p
  /-- The string is kept if it is accepted and not empty, and no other string is. -/
  kept : (s.apply p).1.parameter
    = if (s.apply p).2 = none ∧ p ≠ "" then some p else s.parameter
  /-- No option is about these fields. -/
  untouched : (s.apply p).1.pluginName = s.pluginName ∧
    (s.apply p).1.pluginVersion = s.pluginVersion ∧ (s.apply p).1.fileSuffix = s.fileSuffix ∧
    (s.apply p).1.runtimePackage = s.runtimePackage

/-- All parameter strings compose, whatever the settings are. -/
theorem composes (s : Settings) (p q : String) : s.Composes p q := by
  have hjoined : Changes.ofParameter (p ++ "," ++ q)
      = Changes.ofOptions (options p ++ options q) := congrArg Changes.ofOptions (options_append p q)
  refine ⟨fun t ht => ?_, fun t e ht => ?_, ?_, ?_, ?_⟩
  · rw [apply_eq, Prod.mk.injEq] at ht
    obtain ⟨rfl, haccepted⟩ := ht
    rw [Changes.ofOptions_append_of_accepted haccepted] at hjoined
    rw [apply_eq, apply_eq, hjoined]
    refine ⟨rfl, ?_⟩
    simp only [keeping_keeping, Changes.on_keeping, Changes.on_followedBy]
    rfl
  · rw [apply_eq, Prod.mk.injEq] at ht
    obtain ⟨rfl, hrefused⟩ := ht
    rw [Changes.ofOptions_append_of_refused hrefused] at hjoined
    have hsame : Changes.ofParameter (p ++ "," ++ q) = Changes.ofParameter p := hjoined
    -- the joined string is refused as well, so neither of the two is kept
    simp [apply_eq, hsame, hrefused]
  · rw [apply_eq, apply_eq, Changes.on_keeping, Changes.on_on]
    split
    · rfl
    · rfl
  · rw [apply_eq]
    rfl
  · rw [apply_eq]
    exact ⟨rfl, rfl, rfl, rfl⟩

end ModuleAssembly.Settings
