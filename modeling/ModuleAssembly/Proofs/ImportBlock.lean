import ModuleAssembly.Proofs.Identifiers

/-!
# The import block

The statements of a resolution, read as one list of imported names, are a rearrangement of the
identifiers given to the foreign symbols: the parts by home and by use are put together again
(`imported_perm`). So entries and foreign symbols correspond one to one (`ImportsForeign`), and
since the identifiers differ, so do the names that the block binds.
-/

set_option autoImplicit false

namespace ModuleAssembly

/-! ## The names of a block -/

/-- A name that a block imports: an entry, with what its statement says of it. -/
structure ImportedName where
  typeOnly : Bool
  source : String
  entry : ImportEntry
deriving DecidableEq

/-- The names that a statement imports. -/
def ImportStatement.imported (st : ImportStatement) : List ImportedName :=
  st.names.map fun n => ⟨st.typeOnly, st.source, n⟩

namespace ImportEntry

theorem insert_perm (lower : String → String) (n : ImportEntry) (names : List ImportEntry) :
    (insert lower n names).Perm (n :: names) := by
  induction names with
  | nil => exact List.Perm.refl _
  | cons m rest ih =>
      unfold insert
      split
      · exact List.Perm.refl _
      · exact (ih.cons m).trans (List.Perm.swap n m rest)

/-- Sorting the names of a statement neither loses nor doubles one. -/
theorem sort_perm (lower : String → String) (names : List ImportEntry) :
    (sort lower names).Perm names := by
  induction names with
  | nil => exact List.Perm.refl _
  | cons n rest ih => exact (insert_perm lower n (sort lower rest)).trans (ih.cons n)

theorem sort_eq_nil_iff {lower : String → String} {names : List ImportEntry} :
    sort lower names = [] ↔ names = [] := by
  rw [← List.length_eq_zero_iff, (sort_perm lower names).length_eq, List.length_eq_zero_iff]

end ImportEntry

namespace Resolution

/-- The names that the block imports, statement by statement. -/
def imported (r : Resolution) : List ImportedName := r.statements.flatMap ImportStatement.imported

/-- The names that the block binds. -/
def boundNames (r : Resolution) : List String := r.imported.map fun n => n.entry.bound

/-- The body uses a symbol that is at home in another module than the one at `path`. -/
def IsForeign (path : String) (tokens : List Token) (key : SymbolKey) : Prop :=
  key.home ≠ path ∧ ∃ s ∈ symbols tokens, s.key = key

/-- The entry `n` of the block of `r` is the import of the symbol `key`. -/
structure IsImportOf (path : String) (tokens : List Token) (r : Resolution) (key : SymbolKey)
    (n : ImportedName) : Prop where
  name : n.entry.name = key.name
  source : n.source = ImportPath.relativeTo path key.home
  bound : r.identifiers.lookup key = some n.entry.bound
  renamed : n.entry.renamed ≠ none → n.entry.bound ≠ key.name
  typeOnly_iff : n.typeOnly = true ↔ ∀ s ∈ symbols tokens, s.key = key → s.typeOnly = true

/-! ## From identifiers to entries -/

/-- The name that is imported for a symbol with its identifier. -/
def importedAs (path : String) (ss : List Symbol) (e : SymbolKey × String) : ImportedName :=
  ⟨!isValue ss e.1, ImportPath.relativeTo path e.1.home, importEntry e⟩

@[simp] theorem bound_importEntry (e : SymbolKey × String) : (importEntry e).bound = e.2 := by
  by_cases h : e.2 = e.1.name
  · simp [importEntry, ImportEntry.bound, h]
  · simp [importEntry, ImportEntry.bound, h]

theorem isValue_eq_false_iff {ss : List Symbol} {key : SymbolKey} :
    isValue ss key = false ↔ ∀ s ∈ ss, s.key = key → s.typeOnly = true := by
  simp [isValue, List.any_eq_false]

/-- A statement imports the symbols it is made for. -/
theorem imported_statement? (lower : String → String) (typeOnly : Bool) (source : String)
    (entries : List (SymbolKey × String)) :
    ((statement? lower typeOnly source entries).toList.flatMap ImportStatement.imported).Perm
      (entries.map fun e => ⟨typeOnly, source, importEntry e⟩) := by
  unfold statement?
  split
  · next hempty =>
      rw [List.isEmpty_iff.mp hempty]
      exact List.Perm.refl _
  · simp only [Option.toList_some, List.flatMap_singleton, ImportStatement.imported]
    refine ((ImportEntry.sort_perm lower _).map _).trans ?_
    rw [List.map_map]
    exact List.Perm.refl _

/-- A statement is only made for symbols. -/
theorem names_ne_nil_of_mem_statement? {lower : String → String} {typeOnly : Bool}
    {source : String} {entries : List (SymbolKey × String)} {st : ImportStatement}
    (h : st ∈ (statement? lower typeOnly source entries).toList) : st.names ≠ [] := by
  unfold statement? at h
  split at h
  · simp at h
  · next hempty =>
      simp only [Option.toList_some, List.mem_singleton] at h
      subst h
      intro hnil
      have hentries := List.map_eq_nil_iff.mp (ImportEntry.sort_eq_nil_iff.mp hnil)
      exact hempty (List.isEmpty_iff.mpr hentries)

/-- The statements for one home import the symbols of that home, each as it is used. -/
theorem imported_statementsFor (lower : String → String) (path : String) (ss : List Symbol)
    (entries : List (SymbolKey × String)) (home : String) :
    ((statementsFor lower path ss entries home).flatMap ImportStatement.imported).Perm
      ((entries.filter fun e => e.1.home == home).map (importedAs path ss)) := by
  simp only [statementsFor, List.flatMap_append]
  refine ((imported_statement? ..).append (imported_statement? ..)).trans ?_
  -- the two halves are the entries by use, and each half is marked as it is used
  have htypes : ((entries.filter fun e => e.1.home == home).filter fun e => !isValue ss e.1).map
        (fun e => (⟨true, ImportPath.relativeTo path home, importEntry e⟩ : ImportedName))
      = ((entries.filter fun e => e.1.home == home).filter fun e => !isValue ss e.1).map
        (importedAs path ss) := by
    refine List.map_congr_left fun e he => ?_
    simp only [List.mem_filter, beq_iff_eq] at he
    rw [importedAs, he.2, he.1.2]
  have hvalues : ((entries.filter fun e => e.1.home == home).filter fun e => isValue ss e.1).map
        (fun e => (⟨false, ImportPath.relativeTo path home, importEntry e⟩ : ImportedName))
      = ((entries.filter fun e => e.1.home == home).filter fun e => isValue ss e.1).map
        (importedAs path ss) := by
    refine List.map_congr_left fun e he => ?_
    simp only [List.mem_filter, beq_iff_eq] at he
    rw [importedAs, he.2, he.1.2, Bool.not_true]
  rw [htypes, hvalues, ← List.map_append]
  refine List.Perm.map _ (List.perm_append_comm.trans ?_)
  exact List.filter_append_perm (fun e : SymbolKey × String => isValue ss e.1) _

section

variable {lower : String → String} {path : String} {tokens : List Token} {r : Resolution}

/-- **The block imports the foreign symbols.** Its names are those of the foreign symbols with
their identifiers, in some order. -/
theorem imported_perm (h : ofTokensWith lower path tokens = .ok r) :
    ∃ entries : List (SymbolKey × String),
      entries.map Prod.fst = foreignKeys path (symbols tokens) ∧
      (∀ e ∈ entries, r.identifiers.lookup e.1 = some e.2) ∧
      (entries.map Prod.snd).Nodup ∧
      r.imported.Perm (entries.map (importedAs path (symbols tokens))) := by
  obtain ⟨entries, ha, hi, hst⟩ := ofTokensWith_eq_ok h
  refine ⟨entries, assign_keys ha, ?_, (assign_fresh ha).2, ?_⟩
  · intro e he
    rw [lookup_identifiers h, hi]
    exact List.mem_append_right _ he
  · have hlabel : ∀ e ∈ entries,
        e.1.home ∈ ((foreignKeys path (symbols tokens)).map SymbolKey.home).eraseDups := by
      intro e he
      rw [List.mem_eraseDups, ← assign_keys ha, List.map_map]
      exact List.mem_map.mpr ⟨e, he, rfl⟩
    have hparts := flatMap_filter_perm (fun e : SymbolKey × String => e.1.home) _ entries
      (nodup_eraseDups ((foreignKeys path (symbols tokens)).map SymbolKey.home)) hlabel
    rw [imported, hst, List.flatMap_assoc]
    refine (List.Perm.flatMap_left _ fun home _ =>
      imported_statementsFor lower path (symbols tokens) entries home).trans ?_
    rw [← List.map_flatMap]
    exact hparts.map _

/-- The names that the block binds differ. -/
theorem boundNames_nodup (h : ofTokensWith lower path tokens = .ok r) : r.boundNames.Nodup := by
  obtain ⟨entries, -, -, hnodup, hperm⟩ := imported_perm h
  refine ((hperm.map fun n : ImportedName => n.entry.bound).nodup_iff).mpr ?_
  rw [List.map_map]
  simpa [Function.comp_def, importedAs] using hnodup

/-- The import of a symbol with its identifier. -/
theorem isImportOf_importedAs {e : SymbolKey × String}
    (hl : r.identifiers.lookup e.1 = some e.2) :
    IsImportOf path tokens r e.1 (importedAs path (symbols tokens) e) where
  name := rfl
  source := rfl
  bound := by rw [hl, importedAs, bound_importEntry]
  renamed := by
    intro hne
    rw [importedAs, bound_importEntry]
    intro heq
    exact hne (if_pos heq)
  typeOnly_iff := by
    rw [importedAs, Bool.not_eq_true', isValue_eq_false_iff]

/-- Every foreign symbol has an import in the block. -/
theorem exists_isImportOf (h : ofTokensWith lower path tokens = .ok r) {key : SymbolKey}
    (hkey : IsForeign path tokens key) : ∃ n ∈ r.imported, IsImportOf path tokens r key n := by
  obtain ⟨entries, hkeys, hl, -, hperm⟩ := imported_perm h
  have hmem : key ∈ entries.map Prod.fst := by
    rw [hkeys]
    exact mem_foreignKeys.mpr hkey
  obtain ⟨e, he, rfl⟩ := List.mem_map.mp hmem
  exact ⟨_, hperm.mem_iff.mpr (List.mem_map_of_mem he), isImportOf_importedAs (hl e he)⟩

/-- Every entry of the block is the import of a foreign symbol. -/
theorem exists_isForeign (h : ofTokensWith lower path tokens = .ok r) {n : ImportedName}
    (hn : n ∈ r.imported) :
    ∃ key, IsForeign path tokens key ∧ IsImportOf path tokens r key n := by
  obtain ⟨entries, hkeys, hl, -, hperm⟩ := imported_perm h
  obtain ⟨e, he, rfl⟩ := List.mem_map.mp (hperm.mem_iff.mp hn)
  refine ⟨e.1, mem_foreignKeys.mp ?_, isImportOf_importedAs (hl e he)⟩
  rw [← hkeys]
  exact List.mem_map_of_mem he

/-- A name that the module declares itself is not bound by the block. -/
theorem name_not_mem_boundNames (h : ofTokensWith lower path tokens = .ok r) {s : Symbol}
    (hs : s ∈ symbols tokens) (hhome : s.home = path) : s.name ∉ r.boundNames := by
  intro hmem
  obtain ⟨n, hn, hbound⟩ := List.mem_map.mp hmem
  obtain ⟨key, hkey, himp⟩ := exists_isForeign h hn
  -- the local and the foreign symbol would have one identifier
  have hlocal := (lookup_identifiers h).mp (lookup_identifiers_of_local h hs hhome)
  have hforeign := (lookup_identifiers h).mp (hbound ▸ himp.bound)
  have heq := List.inj_on_of_nodup_map (identifiers_nodup h) hforeign hlocal rfl
  have hkeys : key = s.key := congrArg Prod.fst heq
  exact hkey.1 (by rw [hkeys, ← hhome]; rfl)

/-- No statement of the block is without names. -/
theorem names_ne_nil (h : ofTokensWith lower path tokens = .ok r) {st : ImportStatement}
    (hst : st ∈ r.statements) : st.names ≠ [] := by
  obtain ⟨entries, -, -, hstatements⟩ := ofTokensWith_eq_ok h
  rw [hstatements, List.mem_flatMap] at hst
  obtain ⟨home, -, hst⟩ := hst
  rcases List.mem_append.mp hst with hst | hst
  · exact names_ne_nil_of_mem_statement? hst
  · exact names_ne_nil_of_mem_statement? hst

end

/-! ## The correspondence -/

/-- **The block imports the foreign symbols and nothing else.** What it means that the statements
of a resolution suit the body of the module at `path`. -/
structure ImportsForeign (path : String) (tokens : List Token) (r : Resolution) : Prop where
  /-- Every foreign symbol is imported by exactly one entry. -/
  once : ∀ key, IsForeign path tokens key →
    ∃! i : Fin r.imported.length, IsImportOf path tokens r key r.imported[i]
  /-- Every entry is the import of exactly one foreign symbol. -/
  only : ∀ n ∈ r.imported, ∃! key, IsForeign path tokens key ∧ IsImportOf path tokens r key n
  /-- No entry is the import of a symbol that the module declares itself. -/
  local_not_imported : ∀ s ∈ symbols tokens, s.home = path →
    ∀ n ∈ r.imported, ¬ IsImportOf path tokens r s.key n
  /-- Every statement has names. -/
  names_ne_nil : ∀ st ∈ r.statements, st.names ≠ []
  /-- The names that the block binds differ from each other. -/
  bound_nodup : r.boundNames.Nodup
  /-- They differ from the names that the module declares itself. -/
  local_not_bound : ∀ s ∈ symbols tokens, s.home = path → s.name ∉ r.boundNames

/-- The block of every resolution imports the foreign symbols and nothing else, however the
references to them are ordered and mixed. -/
theorem ofTokens_importsForeign {path : String} {tokens : List Token} {r : Resolution}
    (h : ofTokens path tokens = .ok r) : ImportsForeign path tokens r := by
  have h' : ofTokensWith Text.lowercase path tokens = .ok r := h
  refine ⟨?_, ?_, ?_, fun st hst => names_ne_nil h' hst, boundNames_nodup h',
    fun s hs hhome => name_not_mem_boundNames h' hs hhome⟩
  · intro key hkey
    obtain ⟨n, hn, himp⟩ := exists_isImportOf h' hkey
    obtain ⟨i, hi, rfl⟩ := List.mem_iff_getElem.mp hn
    refine ⟨⟨i, hi⟩, himp, ?_⟩
    rintro ⟨j, hj⟩ hother
    -- both entries bind the identifier of the symbol
    have hbound : (r.imported[j]).entry.bound = (r.imported[i]).entry.bound :=
      Option.some.inj (hother.bound.symm.trans himp.bound)
    have hij := List.inj_on_of_nodup_map (boundNames_nodup h') (List.getElem_mem hj)
      (List.getElem_mem hi) hbound
    have hdistinct : r.imported.Nodup := List.Nodup.of_map _ (boundNames_nodup h')
    exact Fin.ext (hdistinct.getElem_inj_iff.mp hij)
  · intro n hn
    obtain ⟨key, hkey, himp⟩ := exists_isForeign h' hn
    refine ⟨key, ⟨hkey, himp⟩, ?_⟩
    rintro other ⟨-, hother⟩
    have heq := List.inj_on_of_nodup_map (identifiers_nodup h')
      ((lookup_identifiers h').mp hother.bound) ((lookup_identifiers h').mp himp.bound) rfl
    exact congrArg Prod.fst heq
  · intro s hs hhome n hn himp
    have hbound : s.name = n.entry.bound :=
      Option.some.inj ((lookup_identifiers_of_local h' hs hhome).symm.trans himp.bound)
    exact name_not_mem_boundNames h' hs hhome (hbound ▸ List.mem_map_of_mem hn)

theorem contested_importsForeign : ofTokens "./m.js" contested = .ok contestedResolution ∧
    ImportsForeign "./m.js" contested contestedResolution :=
  ⟨ofTokens_contested, ofTokens_importsForeign ofTokens_contested⟩

end Resolution

end ModuleAssembly
