import Mathlib.Data.Prod.Lex
import Mathlib.Data.String.Basic
import ModuleAssembly.Proofs.ImportBlock

/-!
# The order of the import block

A block consists of groups, one for each home that the module imports from, in the order in which
the homes first occur in the body. A group has a statement for the names that are used as types
only, and behind it one for the others (`ImportGroup.statements`). Within a statement the names are
compared by their lower-case forms, and by themselves where these agree. This is a total order
whatever lower-casing does, since different names are never equal in it. So there is only one order
for the names of a statement, in whichever order they were collected (`ImportEntry.InOrder`).
-/

set_option autoImplicit false

namespace ModuleAssembly

/-! ## The order of names -/

namespace ImportEntry

/-- A name comes before another one in a statement: its lower-case form is smaller, or these forms
agree and the name itself is smaller. -/
def Precedes (lower : String → String) (a b : ImportEntry) : Prop :=
  lower a.name < lower b.name ∨ lower a.name = lower b.name ∧ a.name < b.name

/-- What names are compared by. -/
def rank (lower : String → String) (n : ImportEntry) : String ×ₗ String :=
  toLex (lower n.name, n.name)

variable {lower : String → String}

theorem precedes_iff {a b : ImportEntry} : Precedes lower a b ↔ rank lower a < rank lower b := by
  rw [rank, rank, Prod.Lex.toLex_lt_toLex, Precedes]

/-- Only equal names are equal in the order. -/
theorem rank_inj {a b : ImportEntry} : rank lower a = rank lower b ↔ a.name = b.name := by
  constructor
  · intro h
    exact congrArg (fun x => (ofLex x).2) h
  · intro h
    rw [rank, rank, h]

theorem before_iff {a b : ImportEntry} :
    a.before lower b = true ↔ rank lower a ≤ rank lower b := by
  unfold before rank
  rw [Prod.Lex.toLex_le_toLex]
  split
  · next heq => simp [heq]
  · next hne =>
      have hle : lower a.name ≤ lower b.name ↔ lower a.name < lower b.name :=
        ⟨fun h => lt_of_le_of_ne h hne, le_of_lt⟩
      simp [hne, hle]

/-- Putting a name in its place keeps the order. -/
theorem sorted_insert {names : List ImportEntry}
    (h : names.Pairwise fun a b => rank lower a ≤ rank lower b) (n : ImportEntry) :
    (insert lower n names).Pairwise fun a b => rank lower a ≤ rank lower b := by
  induction names with
  | nil => exact List.pairwise_singleton _ _
  | cons m rest ih =>
      obtain ⟨hm, hrest⟩ := List.pairwise_cons.mp h
      unfold insert
      split
      · next hbefore =>
          have hnm : rank lower n ≤ rank lower m := before_iff.mp hbefore
          refine List.pairwise_cons.mpr ⟨?_, h⟩
          intro b hb
          rcases List.mem_cons.mp hb with rfl | hb
          · exact hnm
          · exact hnm.trans (hm b hb)
      · next hbefore =>
          have hmn : rank lower m ≤ rank lower n := le_of_not_ge (mt before_iff.mpr hbefore)
          refine List.pairwise_cons.mpr ⟨?_, ih hrest⟩
          intro b hb
          rcases List.mem_cons.mp ((insert_perm lower n rest).mem_iff.mp hb) with rfl | hb
          · exact hmn
          · exact hm b hb

theorem sorted_sort (lower : String → String) (names : List ImportEntry) :
    (sort lower names).Pairwise fun a b => rank lower a ≤ rank lower b := by
  induction names with
  | nil => exact List.Pairwise.nil
  | cons n rest ih => exact sorted_insert ih n

/-- **The names of a statement are in their order.** -/
structure InOrder (lower : String → String) (names : List ImportEntry) : Prop where
  /-- Every name comes before those behind it. -/
  increasing : names.Pairwise (Precedes lower)
  /-- No name is imported twice. -/
  distinct : (names.map ImportEntry.name).Nodup
  /-- In whichever order the names are collected, they are put in this one. -/
  canonical : ∀ collected : List ImportEntry, collected.Perm names → sort lower collected = names

/-- Different names are put in their order. -/
theorem inOrder_sort {names : List ImportEntry} (h : (names.map ImportEntry.name).Nodup) :
    InOrder lower (sort lower names) := by
  have hdistinct : ((sort lower names).map ImportEntry.name).Nodup :=
    ((sort_perm lower names).map ImportEntry.name).nodup_iff.mpr h
  refine ⟨?_, hdistinct, ?_⟩
  · -- names of equal rank would be equal
    have hne : (sort lower names).Pairwise fun a b => a.name ≠ b.name :=
      List.pairwise_map.mp hdistinct
    refine (hne.and (sorted_sort lower names)).imp ?_
    rintro a b ⟨hname, hle⟩
    exact precedes_iff.mpr (lt_of_le_of_ne hle (mt rank_inj.mp hname))
  · intro collected hperm
    have hboth : (sort lower collected).Perm (sort lower names) :=
      (sort_perm lower collected).trans hperm
    refine hboth.eq_of_pairwise ?_ (sorted_sort lower collected) (sorted_sort lower names)
    intro a b ha hb hab hba
    exact List.inj_on_of_nodup_map hdistinct (hboth.mem_iff.mp ha) hb
      (rank_inj.mp (le_antisymm hab hba))

end ImportEntry

/-! ## Groups -/

/-- What a module imports from one home: the names that it uses as types only, and the others. -/
structure ImportGroup where
  home : String
  types : List ImportEntry
  values : List ImportEntry

/-- The statements of a group in the module at `path`: types first, and none without names. -/
def ImportGroup.statements (path : String) (g : ImportGroup) : List ImportStatement :=
  (if g.types = [] then [] else [⟨true, ImportPath.relativeTo path g.home, g.types⟩])
    ++ if g.values = [] then [] else [⟨false, ImportPath.relativeTo path g.home, g.values⟩]

namespace Resolution

/-- The homes of the symbols that the module at `path` has to import, in the order of the body. -/
def foreignHomes (path : String) (tokens : List Token) : List String :=
  ((symbols tokens).filter fun s => !s.isLocalTo path).map Symbol.home

/-- **A block consists of groups.** The block of a resolution of the module at `path` consists of
these groups. -/
structure ConsistsOf (path : String) (tokens : List Token) (r : Resolution)
    (groups : List ImportGroup) : Prop where
  /-- The statements of a group stand together. -/
  statements : r.statements = groups.flatMap (ImportGroup.statements path)
  /-- There is a group for each home that the module imports from. -/
  mem_homes : ∀ home, home ∈ groups.map ImportGroup.home ↔
    home ≠ path ∧ ∃ s ∈ symbols tokens, s.home = home
  /-- The groups are in the order in which their homes first occur, so no home has two groups. -/
  homes_order : (groups.map ImportGroup.home).Pairwise fun a b =>
    (foreignHomes path tokens).idxOf a < (foreignHomes path tokens).idxOf b
  /-- The names for types are those of the symbols that are used as types only. -/
  mem_types : ∀ g ∈ groups, ∀ name, name ∈ g.types.map ImportEntry.name ↔
    IsForeign path tokens ⟨g.home, name⟩ ∧
      ∀ s ∈ symbols tokens, s.key = ⟨g.home, name⟩ → s.typeOnly = true
  /-- The other names are those of the symbols that are used as values somewhere. -/
  mem_values : ∀ g ∈ groups, ∀ name, name ∈ g.values.map ImportEntry.name ↔
    IsForeign path tokens ⟨g.home, name⟩ ∧
      ∃ s ∈ symbols tokens, s.key = ⟨g.home, name⟩ ∧ s.typeOnly = false

/-- **The order of a block is canonical.** -/
def InCanonicalOrder (lower : String → String) (path : String) (tokens : List Token)
    (r : Resolution) : Prop :=
  ∃ groups, ConsistsOf path tokens r groups ∧
    ∀ g ∈ groups, ImportEntry.InOrder lower g.types ∧ ImportEntry.InOrder lower g.values

/-- The group of a home, from the symbols with their identifiers. -/
def groupOf (lower : String → String) (ss : List Symbol) (entries : List (SymbolKey × String))
    (home : String) : ImportGroup :=
  let here := entries.filter fun e => e.1.home == home
  ⟨home, ImportEntry.sort lower ((here.filter fun e => !isValue ss e.1).map importEntry),
    ImportEntry.sort lower ((here.filter fun e => isValue ss e.1).map importEntry)⟩

/-- The groups of a body whose foreign symbols have these identifiers. -/
def groupsOf (lower : String → String) (path : String) (tokens : List Token)
    (entries : List (SymbolKey × String)) : List ImportGroup :=
  (foreignHomes path tokens).eraseDups.map (groupOf lower (symbols tokens) entries)

theorem toList_statement? (lower : String → String) (typeOnly : Bool) (source : String)
    (entries : List (SymbolKey × String)) :
    (statement? lower typeOnly source entries).toList
      = if ImportEntry.sort lower (entries.map importEntry) = [] then []
        else [⟨typeOnly, source, ImportEntry.sort lower (entries.map importEntry)⟩] := by
  have hempty : ImportEntry.sort lower (entries.map importEntry) = [] ↔ entries.isEmpty = true := by
    rw [ImportEntry.sort_eq_nil_iff, List.map_eq_nil_iff, List.isEmpty_iff]
  unfold statement?
  simp only [hempty]
  split
  · rfl
  · rfl

/-- The statements for a home are those of its group. -/
theorem statementsFor_eq (lower : String → String) (path : String) (ss : List Symbol)
    (entries : List (SymbolKey × String)) (home : String) :
    statementsFor lower path ss entries home
      = (groupOf lower ss entries home).statements path := by
  simp only [statementsFor, toList_statement?]
  rfl

section

variable {lower : String → String} {path : String} {tokens : List Token} {r : Resolution}

theorem mem_foreignHomes {home : String} :
    home ∈ foreignHomes path tokens ↔ home ≠ path ∧ ∃ s ∈ symbols tokens, s.home = home := by
  simp only [foreignHomes, List.mem_map, List.mem_filter, Symbol.isLocalTo, Bool.not_eq_true',
    beq_eq_false_iff_ne]
  constructor
  · rintro ⟨s, ⟨hs, hhome⟩, rfl⟩
    exact ⟨hhome, s, hs, rfl⟩
  · rintro ⟨hhome, s, hs, rfl⟩
    exact ⟨s, ⟨hs, hhome⟩, rfl⟩

/-- The homes of the foreign symbols first occur where these do. -/
theorem homes_foreignKeys (path : String) (tokens : List Token) :
    ((foreignKeys path (symbols tokens)).map SymbolKey.home).eraseDups
      = (foreignHomes path tokens).eraseDups := by
  rw [foreignKeys, eraseDups_map_eraseDups, List.map_map]
  rfl

/-- The names that a statement gets from some of the symbols of one home. -/
theorem mem_names_sort {entries : List (SymbolKey × String)} {home : String}
    (p : SymbolKey → Bool) (name : String) :
    name ∈ (ImportEntry.sort lower (((entries.filter fun e => e.1.home == home).filter fun e =>
        p e.1).map importEntry)).map ImportEntry.name
      ↔ (⟨home, name⟩ : SymbolKey) ∈ entries.map Prod.fst ∧ p ⟨home, name⟩ = true := by
  rw [((ImportEntry.sort_perm lower _).map ImportEntry.name).mem_iff, List.map_map]
  simp only [List.mem_map, List.mem_filter, beq_iff_eq, Function.comp_apply, importEntry]
  constructor
  · rintro ⟨⟨key, ident⟩, ⟨⟨he, rfl⟩, hp⟩, rfl⟩
    exact ⟨⟨_, he, rfl⟩, hp⟩
  · rintro ⟨⟨⟨key, ident⟩, he, rfl⟩, hp⟩
    exact ⟨_, ⟨⟨he, rfl⟩, hp⟩, rfl⟩

/-- Symbols of one home have different names. -/
theorem nodup_names {entries : List (SymbolKey × String)} (h : (entries.map Prod.fst).Nodup)
    (home : String) (p : SymbolKey → Bool) :
    ((((entries.filter fun e => e.1.home == home).filter fun e => p e.1).map importEntry).map
      ImportEntry.name).Nodup := by
  rw [List.map_map]
  have hentries : ((entries.filter fun e => e.1.home == home).filter fun e => p e.1).Nodup :=
    ((h.of_map Prod.fst).filter _).filter _
  refine hentries.map_on ?_
  rintro ⟨⟨home₁, name₁⟩, ident₁⟩ ha ⟨⟨home₂, name₂⟩, ident₂⟩ hb hname
  simp only [List.mem_filter, beq_iff_eq] at ha hb
  refine List.inj_on_of_nodup_map h ha.1.1 hb.1.1 ?_
  simp only [SymbolKey.mk.injEq]
  exact ⟨ha.1.2.trans hb.1.2.symm, hname⟩

/-- The types of a group are the names that are used as types only. -/
theorem mem_types_groupOf {entries : List (SymbolKey × String)}
    (hkeys : entries.map Prod.fst = foreignKeys path (symbols tokens)) (home name : String) :
    name ∈ (groupOf lower (symbols tokens) entries home).types.map ImportEntry.name ↔
      IsForeign path tokens ⟨home, name⟩ ∧
        ∀ s ∈ symbols tokens, s.key = ⟨home, name⟩ → s.typeOnly = true := by
  refine (mem_names_sort (fun key => !isValue (symbols tokens) key) name).trans ?_
  rw [hkeys, mem_foreignKeys, Bool.not_eq_true', isValue_eq_false_iff]
  rfl

/-- The values of a group are the other names. -/
theorem mem_values_groupOf {entries : List (SymbolKey × String)}
    (hkeys : entries.map Prod.fst = foreignKeys path (symbols tokens)) (home name : String) :
    name ∈ (groupOf lower (symbols tokens) entries home).values.map ImportEntry.name ↔
      IsForeign path tokens ⟨home, name⟩ ∧
        ∃ s ∈ symbols tokens, s.key = ⟨home, name⟩ ∧ s.typeOnly = false := by
  refine (mem_names_sort (isValue (symbols tokens)) name).trans ?_
  rw [hkeys, mem_foreignKeys]
  simp [isValue, IsForeign]

/-- The names of a group are in their order. -/
theorem inOrder_groupOf {entries : List (SymbolKey × String)} (h : (entries.map Prod.fst).Nodup)
    (ss : List Symbol) (home : String) :
    ImportEntry.InOrder lower (groupOf lower ss entries home).types ∧
      ImportEntry.InOrder lower (groupOf lower ss entries home).values :=
  ⟨ImportEntry.inOrder_sort (nodup_names h home fun key => !isValue ss key),
    ImportEntry.inOrder_sort (nodup_names h home (isValue ss))⟩

/-- The groups are listed in the order of the first occurrences of their homes. -/
theorem map_home_groupsOf (lower : String → String) (path : String) (tokens : List Token)
    (entries : List (SymbolKey × String)) :
    (groupsOf lower path tokens entries).map ImportGroup.home
      = (foreignHomes path tokens).eraseDups := by
  rw [groupsOf, List.map_map]
  exact List.map_id _

/-- Every resolution consists of groups. -/
theorem exists_consistsOf (h : ofTokensWith lower path tokens = .ok r) :
    ∃ entries : List (SymbolKey × String), (entries.map Prod.fst).Nodup ∧
      ConsistsOf path tokens r (groupsOf lower path tokens entries) := by
  obtain ⟨entries, ha, -, hst⟩ := ofTokensWith_eq_ok h
  have hkeys : entries.map Prod.fst = foreignKeys path (symbols tokens) := assign_keys ha
  refine ⟨entries, ?_, ?_, ?_, ?_, ?_, ?_⟩
  · rw [hkeys]
    exact nodup_foreignKeys path (symbols tokens)
  · rw [hst, homes_foreignKeys, groupsOf, List.flatMap_map]
    exact List.flatMap_congr fun home _ =>
      statementsFor_eq lower path (symbols tokens) entries home
  · intro home
    rw [map_home_groupsOf, List.mem_eraseDups, mem_foreignHomes]
  · rw [map_home_groupsOf]
    exact pairwise_idxOf_eraseDups _
  · intro g hg name
    obtain ⟨home, -, rfl⟩ := List.mem_map.mp hg
    exact mem_types_groupOf hkeys home name
  · intro g hg name
    obtain ⟨home, -, rfl⟩ := List.mem_map.mp hg
    exact mem_values_groupOf hkeys home name

end

/-- The block of every resolution is in the canonical order, for any lower-casing of names. -/
theorem ofTokensWith_inCanonicalOrder {lower : String → String} {path : String}
    {tokens : List Token} {r : Resolution} (h : ofTokensWith lower path tokens = .ok r) :
    InCanonicalOrder lower path tokens r := by
  obtain ⟨entries, hnodup, hgroups⟩ := exists_consistsOf h
  refine ⟨groupsOf lower path tokens entries, hgroups, ?_⟩
  intro g hg
  obtain ⟨home, -, rfl⟩ := List.mem_map.mp hg
  exact inOrder_groupOf hnodup (symbols tokens) home

/-- A body that uses the symbols of two homes by turns, as types and as values. Two names have one
lower-case form. -/
def interleaved : List Token :=
  [.symbol ⟨"proto3", "runtime", false⟩, .symbol ⟨"value", "./a.js", true⟩,
    .symbol ⟨"Timestamp", "runtime", true⟩, .symbol ⟨"Message", "runtime", true⟩,
    .symbol ⟨"Person", "./m.js", false⟩, .symbol ⟨"Value", "./a.js", true⟩,
    .symbol ⟨"Timestamp", "runtime", false⟩]

/-- The resolution of `interleaved`. -/
def interleavedResolution : Resolution where
  statements :=
    [⟨true, "runtime", [⟨"Message", none⟩]⟩,
      ⟨false, "runtime", [⟨"proto3", none⟩, ⟨"Timestamp", none⟩]⟩,
      ⟨true, "./a.js", [⟨"Value", none⟩, ⟨"value", none⟩]⟩]
  identifiers :=
    [(⟨"./m.js", "Person"⟩, "Person"), (⟨"runtime", "proto3"⟩, "proto3"),
      (⟨"./a.js", "value"⟩, "value"), (⟨"runtime", "Timestamp"⟩, "Timestamp"),
      (⟨"runtime", "Message"⟩, "Message"), (⟨"./a.js", "Value"⟩, "Value")]

theorem interleaved_inCanonicalOrder :
    ofTokensWith Text.lowercase "./m.js" interleaved = .ok interleavedResolution ∧
      InCanonicalOrder Text.lowercase "./m.js" interleaved interleavedResolution := by
  have h : ofTokensWith Text.lowercase "./m.js" interleaved = .ok interleavedResolution := by
    decide +kernel
  exact ⟨h, ofTokensWith_inCanonicalOrder h⟩

end Resolution

end ModuleAssembly
