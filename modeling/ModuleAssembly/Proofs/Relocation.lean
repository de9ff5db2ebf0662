import ModuleAssembly.Plan
import ModuleAssembly.Proofs.FileHistory
import ModuleAssembly.Proofs.Identifiers

/-!
# Moving modules

What a module imports, and under which names, does not depend on where the modules lie, only on
which of them are the same. So when all homes are renamed by an injective function, the importing
module among them, the identifiers stay as they are, and so do the import statements, except for
the places that they import from (`Resolution.ofTokensWith_moved`). Hence a file whose symbols are
moved along with it is finished to the same parts apart from these places
(`OutputFile.parts?_moved`).
-/

set_option autoImplicit false

namespace ModuleAssembly

/-! ## Moved symbols -/

/-- The symbol with its home renamed. -/
def SymbolKey.moved (φ : String → String) (key : SymbolKey) : SymbolKey := ⟨φ key.home, key.name⟩

/-- The reference with the home of its symbol renamed. -/
def Symbol.moved (φ : String → String) (s : Symbol) : Symbol := { s with home := φ s.home }

/-- The token with the home of its symbol renamed, if it is one. -/
def Token.moved (φ : String → String) : Token → Token
  | .text s => .text s
  | .symbol s => .symbol (s.moved φ)

/-- The symbol with its home renamed and its identifier. -/
def movedEntry (φ : String → String) (e : SymbolKey × String) : SymbolKey × String :=
  (e.1.moved φ, e.2)

section

variable {φ : String → String}

theorem Symbol.key_moved (s : Symbol) : (s.moved φ).key = s.key.moved φ := rfl

theorem Symbol.typeOnly_moved (s : Symbol) : (s.moved φ).typeOnly = s.typeOnly := rfl

theorem Symbol.usedAs_moved (s : Symbol) (typeOnly : Bool) :
    (s.moved φ).usedAs typeOnly = (s.usedAs typeOnly).moved φ := by
  cases typeOnly with
  | false => rfl
  | true => rfl

theorem SymbolKey.moved_injective (hφ : Function.Injective φ) :
    Function.Injective (SymbolKey.moved φ) := by
  intro a b h
  obtain ⟨home, name⟩ := a
  obtain ⟨home', name'⟩ := b
  simp only [SymbolKey.moved, SymbolKey.mk.injEq] at h
  rw [hφ h.1, h.2]

theorem Symbol.isLocalTo_moved (hφ : Function.Injective φ) (s : Symbol) (path : String) :
    (s.moved φ).isLocalTo (φ path) = s.isLocalTo path := by
  simp [Symbol.isLocalTo, Symbol.moved, hφ.eq_iff]

/-! ## Moved identifiers -/

/-- Identifiers are given out by the declared names alone. -/
theorem assign_moved (taken : List String) (keys : List SymbolKey) :
    assign taken (keys.map (SymbolKey.moved φ))
      = (assign taken keys).map fun entries => entries.map (movedEntry φ) := by
  induction keys generalizing taken with
  | nil => rfl
  | cons key rest ih =>
      rw [List.map_cons, assign_cons, assign_cons]
      show (identifierFor taken key.name).bind _ = _
      cases identifierFor taken key.name with
      | error e => rfl
      | ok ident =>
          rw [except_bind_ok, except_bind_ok, ih]
          cases assign (ident :: taken) rest with
          | error e => rfl
          | ok more => rfl

namespace Resolution

theorem symbols_moved (tokens : List Token) :
    symbols (tokens.map (Token.moved φ)) = (symbols tokens).map (Symbol.moved φ) := by
  unfold symbols
  rw [List.filterMap_map, List.map_filterMap]
  refine List.filterMap_congr fun t _ => ?_
  cases t with
  | text s => rfl
  | symbol s => rfl

theorem localKeys_moved (hφ : Function.Injective φ) (path : String) (ss : List Symbol) :
    localKeys (φ path) (ss.map (Symbol.moved φ)) = (localKeys path ss).map (SymbolKey.moved φ) := by
  unfold localKeys
  rw [filter_map_eq fun s => Symbol.isLocalTo_moved hφ s path, List.map_map,
    ← eraseDups_map (SymbolKey.moved_injective hφ), List.map_map]
  rfl

theorem foreignKeys_moved (hφ : Function.Injective φ) (path : String) (ss : List Symbol) :
    foreignKeys (φ path) (ss.map (Symbol.moved φ))
      = (foreignKeys path ss).map (SymbolKey.moved φ) := by
  have hforeign : (ss.map (Symbol.moved φ)).filter (fun s => !s.isLocalTo (φ path))
      = (ss.filter fun s => !s.isLocalTo path).map (Symbol.moved φ) :=
    filter_map_eq fun s => by rw [Symbol.isLocalTo_moved hφ]
  unfold foreignKeys
  rw [hforeign, List.map_map, ← eraseDups_map (SymbolKey.moved_injective hφ), List.map_map]
  rfl

theorem isValue_moved (hφ : Function.Injective φ) (ss : List Symbol) (key : SymbolKey) :
    isValue (ss.map (Symbol.moved φ)) (key.moved φ) = isValue ss key := by
  unfold isValue
  rw [List.any_map]
  refine congrArg (List.any ss) (funext fun s => ?_)
  rw [Function.comp_apply, Symbol.key_moved, Symbol.typeOnly_moved,
    (SymbolKey.moved_injective hφ).beq_eq]

end Resolution

/-! ## Statements without their sources -/

/-- The statement with nothing said of where it imports from. -/
def ImportStatement.withoutSource (st : ImportStatement) : ImportStatement :=
  { st with source := "" }

namespace Resolution

/-- A statement names what it is made for, wherever that lies. -/
theorem statement?_moved (lower : String → String) (typeOnly : Bool) (source source' : String)
    (entries : List (SymbolKey × String)) :
    (statement? lower typeOnly source' (entries.map (movedEntry φ))).map
        ImportStatement.withoutSource
      = (statement? lower typeOnly source entries).map ImportStatement.withoutSource := by
  unfold statement?
  rw [List.isEmpty_map, List.map_map]
  split
  · rfl
  · rfl

/-- The statements for one home. -/
theorem statementsFor_moved (hφ : Function.Injective φ) (lower : String → String) (path : String)
    (ss : List Symbol) (entries : List (SymbolKey × String)) (home : String) :
    (statementsFor lower (φ path) (ss.map (Symbol.moved φ)) (entries.map (movedEntry φ))
        (φ home)).map ImportStatement.withoutSource
      = (statementsFor lower path ss entries home).map ImportStatement.withoutSource := by
  -- every choice among the entries is made by a comparison of keys or homes
  have hhome : (entries.map (movedEntry φ)).filter (fun e => e.1.home == φ home)
      = (entries.filter fun e => e.1.home == home).map (movedEntry φ) :=
    filter_map_eq fun e => by rw [movedEntry, SymbolKey.moved, hφ.beq_eq]
  have hvalues : ∀ l : List (SymbolKey × String),
      (l.map (movedEntry φ)).filter (fun e => isValue (ss.map (Symbol.moved φ)) e.1)
        = (l.filter fun e => isValue ss e.1).map (movedEntry φ) :=
    fun l => filter_map_eq fun e => by rw [movedEntry, isValue_moved hφ]
  have htypes : ∀ l : List (SymbolKey × String),
      (l.map (movedEntry φ)).filter (fun e => !isValue (ss.map (Symbol.moved φ)) e.1)
        = (l.filter fun e => !isValue ss e.1).map (movedEntry φ) :=
    fun l => filter_map_eq fun e => by rw [movedEntry, isValue_moved hφ]
  simp only [statementsFor, hhome, hvalues, htypes, List.map_append, ← Option.toList_map]
  rw [statement?_moved, statement?_moved]

/-! ## Moved resolutions -/

/-- The resolution with the homes of its symbols renamed. -/
def moved (φ : String → String) (r : Resolution) : Resolution :=
  { r with identifiers := r.identifiers.map (movedEntry φ) }

/-- The resolution with nothing said of where it imports from. -/
def withoutSources (r : Resolution) : Resolution :=
  { r with statements := r.statements.map ImportStatement.withoutSource }

/-- **Moving all modules.** A body whose symbols are moved along with its module is resolved as it
was before, apart from the sources. -/
theorem ofTokensWith_moved (hφ : Function.Injective φ) (lower : String → String) (path : String)
    (tokens : List Token) :
    (ofTokensWith lower (φ path) (tokens.map (Token.moved φ))).map withoutSources
      = (ofTokensWith lower path tokens).map fun r => (r.moved φ).withoutSources := by
  have hlocal := localKeys_moved hφ path (symbols tokens)
  have hforeign := foreignKeys_moved hφ path (symbols tokens)
  have hnames : ((localKeys path (symbols tokens)).map (SymbolKey.moved φ)).map SymbolKey.name
      = (localKeys path (symbols tokens)).map SymbolKey.name := by
    rw [List.map_map]
    rfl
  have hhomes : (((foreignKeys path (symbols tokens)).map (SymbolKey.moved φ)).map
      SymbolKey.home).eraseDups
      = ((foreignKeys path (symbols tokens)).map SymbolKey.home).eraseDups.map φ := by
    rw [← eraseDups_map hφ, List.map_map, List.map_map]
    rfl
  -- all that is left of the keys in the assignment are their names and their order
  simp only [ofTokensWith, symbols_moved, hlocal, hforeign, hnames, hhomes, assign_moved]
  cases assign ((localKeys path (symbols tokens)).map SymbolKey.name)
      (foreignKeys path (symbols tokens)) with
  | error e => rfl
  | ok entries =>
      have hstatements : ∀ homes : List String,
          ((homes.map φ).flatMap (statementsFor lower (φ path) ((symbols tokens).map
              (Symbol.moved φ)) (entries.map (movedEntry φ)))).map ImportStatement.withoutSource
            = (homes.flatMap (statementsFor lower path (symbols tokens) entries)).map
              ImportStatement.withoutSource := by
        intro homes
        rw [List.flatMap_map, List.map_flatMap, List.map_flatMap]
        exact List.flatMap_congr fun home _ =>
          statementsFor_moved hφ lower path (symbols tokens) entries home
      have hidentifiers : ∀ keys : List SymbolKey,
          (keys.map (SymbolKey.moved φ)).map (fun key => (key, key.name))
              ++ entries.map (movedEntry φ)
            = (keys.map (fun key => (key, key.name)) ++ entries).map (movedEntry φ) := by
        intro keys
        rw [List.map_append, List.map_map, List.map_map]
        rfl
      exact congrArg Except.ok (congrArg₂ Resolution.mk (hstatements _) (hidentifiers _))

/-- A body is written as it was before. -/
theorem body_moved (hφ : Function.Injective φ) (r : Resolution) (tokens : List Token) :
    (r.moved φ).body (tokens.map (Token.moved φ)) = r.body tokens := by
  have hwritten : ∀ t : Token, (r.moved φ).written (t.moved φ) = r.written t := by
    intro t
    cases t with
    | text s => rfl
    | symbol s =>
        have hlookup : (r.moved φ).identifiers.lookup (s.key.moved φ)
            = r.identifiers.lookup s.key :=
          lookup_map_key (SymbolKey.moved_injective hφ) r.identifiers s.key
        exact congrArg (fun ident => Option.getD ident s.name) hlookup
  unfold body
  rw [List.map_map]
  exact congrArg String.join (List.map_congr_left fun t _ => hwritten t)

end Resolution

end

/-! ## The parts of a module -/

/-- What a finished module is put together from. -/
structure ModuleParts where
  name : String
  preamble : Option String
  statements : List ImportStatement
  body : String
deriving DecidableEq

namespace ModuleParts

/-- The module put together. -/
def artifact (m : ModuleParts) : Artifact :=
  ⟨m.name, preambleBlock m.preamble ++ importBlock ⟨m.statements, []⟩ ++ m.body⟩

/-- The parts with nothing said of where the module imports from. -/
def withoutSources (m : ModuleParts) : ModuleParts :=
  { m with statements := m.statements.map ImportStatement.withoutSource }

end ModuleParts

namespace OutputFile

/-- The parts of the module with these imports; there are none for an empty file that is not
kept. -/
def partsWith (f : OutputFile) (r : Resolution) : Option ModuleParts :=
  if r.body f.tokens = "" ∧ f.keepEmpty = false then none
  else some ⟨f.name, f.preamble, r.statements, r.body f.tokens⟩

/-- The parts of the finished module. -/
def parts? (f : OutputFile) : Except Error (Option ModuleParts) := f.resolution.map f.partsWith

/-- A file is finished by putting its parts together. -/
theorem artifact?_eq_parts? (f : OutputFile) :
    f.artifact? = f.parts?.map fun m => m.map ModuleParts.artifact := by
  unfold artifact? parts?
  cases f.resolution with
  | error e => rfl
  | ok r =>
      show Except.ok ((assemble f.preamble r f.tokens f.keepEmpty).map _)
        = Except.ok ((f.partsWith r).map ModuleParts.artifact)
      unfold assemble partsWith
      split
      · rfl
      · rfl

/-- The sources of a module are those of its imports. -/
theorem partsWith_withoutSources (f : OutputFile) (r : Resolution) :
    f.partsWith r.withoutSources = (f.partsWith r).map ModuleParts.withoutSources := by
  have hbody : r.withoutSources.body f.tokens = r.body f.tokens := rfl
  unfold partsWith
  rw [hbody]
  split
  · rfl
  · rfl

/-- The file with the homes of its symbols renamed, and its own import path with them. -/
def moved (φ : String → String) (f : OutputFile) : OutputFile :=
  { f with importPath := φ f.importPath, tokens := f.tokens.map (Token.moved φ) }

theorem partsWith_moved {φ : String → String} (hφ : Function.Injective φ) (f : OutputFile)
    (r : Resolution) : (f.moved φ).partsWith (r.moved φ) = f.partsWith r := by
  have hbody : (r.moved φ).body (f.moved φ).tokens = r.body f.tokens :=
    Resolution.body_moved hφ r f.tokens
  unfold partsWith
  rw [hbody]
  rfl

/-- **Moving a file.** A file that is moved together with its symbols is finished to the same
parts, apart from the sources. -/
theorem parts?_moved {φ : String → String} (hφ : Function.Injective φ) (f : OutputFile) :
    (f.moved φ).parts?.map (fun m => m.map ModuleParts.withoutSources)
      = f.parts?.map fun m => m.map ModuleParts.withoutSources := by
  have hresolution : (f.moved φ).resolution.map Resolution.withoutSources
      = f.resolution.map fun r => (r.moved φ).withoutSources :=
    Resolution.ofTokensWith_moved hφ Text.lowercase f.importPath f.tokens
  have hforget : ∀ g : OutputFile, g.parts?.map (fun m => m.map ModuleParts.withoutSources)
      = (g.resolution.map Resolution.withoutSources).map g.partsWith := by
    intro g
    unfold parts?
    cases g.resolution with
    | error e => rfl
    | ok r => exact congrArg Except.ok (g.partsWith_withoutSources r).symm
  -- without the sources the two resolutions differ in the keys of the identifiers only
  rw [hforget, hforget, hresolution]
  cases f.resolution with
  | error e => rfl
  | ok r =>
      show Except.ok ((f.moved φ).partsWith (r.withoutSources.moved φ))
        = Except.ok (f.partsWith r.withoutSources)
      rw [partsWith_moved hφ]

end OutputFile

/-! ## Moved items -/

/-- Answers about the same names, with the homes of the symbols renamed. -/
def movedAnswer (φ : String → String) (ans : String → Except Error Symbol) (typeName : String) :
    Except Error Symbol := (ans typeName).map (Symbol.moved φ)

/-- A package that is not moved has the same symbols. -/
theorem RuntimeLibrary.moved_symbol {φ : String → String} {lib : RuntimeLibrary}
    (hlib : φ lib.package = lib.package) (name : RuntimeName) :
    (lib.symbol name).moved φ = lib.symbol name := by
  simp only [RuntimeLibrary.symbol, Symbol.moved, hlib]

namespace Item

mutual

/-- The item with the homes of its symbols renamed. -/
def moved (φ : String → String) : Item → Item
  | .symbol s => .symbol (s.moved φ)
  | .seq items => .seq (movedAll φ items)
  | p => p

/-- `moved` on each item. -/
def movedAll (φ : String → String) : List Item → List Item
  | [] => []
  | p :: rest => p.moved φ :: movedAll φ rest

end

theorem int64Tokens_moved {φ : String → String} {lib : RuntimeLibrary}
    (hlib : φ lib.package = lib.package) (n : Int64) :
    int64Tokens lib n = (int64Tokens lib n).map (Token.moved φ) := by
  unfold int64Tokens
  split
  · simp only [List.map_cons, List.map_nil, Token.moved, RuntimeLibrary.moved_symbol hlib]
  · simp only [List.map_cons, List.map_nil, Token.moved, RuntimeLibrary.moved_symbol hlib]

mutual

/-- Moved items are printed as moved tokens. -/
theorem eval_tokens_moved {φ : String → String} {lib : RuntimeLibrary}
    (hlib : φ lib.package = lib.package) (ans : String → Except Error Symbol) : ∀ p : Item,
    ((p.moved φ).tokens lib).eval (movedAnswer φ ans)
      = ((p.tokens lib).eval ans).map fun ts => ts.map (Token.moved φ)
  | .text s => rfl
  | .bool b => rfl
  | .number x => rfl
  | .int64 n => congrArg Except.ok (int64Tokens_moved hlib n)
  | .bytes bs => rfl
  | .symbol s => rfl
  | .entity ref => by
      simp only [moved, tokens, Inquiry.eval_bind]
      unfold Inquiry.resolve Inquiry.eval Inquiry.eval movedAnswer
      cases ans ref.typeName with
      | error e => rfl
      | ok s =>
          show Except.ok [Token.symbol ((s.moved φ).usedAs ref.typeOnly)] = _
          rw [Symbol.usedAs_moved]
          rfl
  | .seq items => eval_tokensOfAll_moved hlib ans items

theorem eval_tokensOfAll_moved {φ : String → String} {lib : RuntimeLibrary}
    (hlib : φ lib.package = lib.package) (ans : String → Except Error Symbol) :
    ∀ items : List Item, (tokensOfAll lib (movedAll φ items)).eval (movedAnswer φ ans)
      = ((tokensOfAll lib items).eval ans).map fun ts => ts.map (Token.moved φ)
  | [] => rfl
  | p :: rest => by
      simp only [movedAll, tokensOfAll, Inquiry.eval_bind, eval_tokens_moved hlib ans p,
        eval_tokensOfAll_moved hlib ans rest]
      cases (p.tokens lib).eval ans with
      | error e => rfl
      | ok front =>
          cases (tokensOfAll lib rest).eval ans with
          | error e => rfl
          | ok back => exact congrArg Except.ok List.map_append.symm

end

/-! ### Items that are read -/

/-- An object is read as a name imported from a given module or package. -/
def namesImport (members : List (String × Json)) : Bool :=
  (Table.find? "int64" members).isNone && (Table.find? "number" members).isNone
    && (Table.find? "bytes" members).isNone
    && ((Table.find? "type" members).bind Json.string?).isNone
    && ((Table.find? "import" members).bind Json.string?).isSome
    && ((Table.find? "from" members).bind Json.string?).getD "" != ""

mutual

/-- A value, or an item of it at any depth, is read as an imported name. -/
def readsImport : Json → Bool
  | .array items => anyReadsImport items
  | .object members => namesImport members
  | _ => false

/-- Some item is or has an imported name. -/
def anyReadsImport : List Json → Bool
  | [] => false
  | v :: rest => readsImport v || anyReadsImport rest

end

/-- What an object can be read as, by whether it names an import: a name of the module itself, an
imported name, an error, or an item without symbols. Only the first depends on the module. -/
inductive Reading : Bool → (String → Except Error Item) → Prop where
  | exported (name : String) : Reading false fun home => .ok (.symbol ⟨name, home, false⟩)
  | imported (s : Symbol) : Reading true fun _ => .ok (.symbol s)
  | failed (e : Error) : Reading false fun _ => .error e
  | plain (p : Item) (hp : ∀ φ, p.moved φ = p) : Reading false fun _ => .ok p

/-- **Reading an object.** The keys are tried in order, and the first one that is there decides. -/
theorem reading_ofMembers (members : List (String × Json)) :
    Reading (namesImport members) fun home => ofMembers home members := by
  unfold namesImport ofMembers
  dsimp only
  cases Table.find? "int64" members with
  | some v =>
      dsimp only
      cases int64Of v with
      | none => exact .failed _
      | some n => exact .plain (.int64 n) fun _ => rfl
  | none =>
  cases Table.find? "number" members with
  | some v =>
      dsimp only
      cases numberOf v with
      | none => exact .failed _
      | some x => exact .plain (.number x) fun _ => rfl
  | none =>
  cases Table.find? "bytes" members with
  | some v =>
      dsimp only
      cases bytesOf v with
      | none => exact .failed _
      | some bs => exact .plain (.bytes bs) fun _ => rfl
  | none =>
  cases (Table.find? "type" members).bind Json.string? with
  | some typeName => exact .plain (.entity _) fun _ => rfl
  | none =>
  cases (Table.find? "import" members).bind Json.string? with
  | some name =>
      dsimp only
      unfold importedSymbol
      by_cases hsource : ((Table.find? "from" members).bind Json.string?).getD "" = ""
      · rw [hsource, if_pos rfl]
        exact .failed _
      · have hgiven : (((Table.find? "from" members).bind Json.string?).getD "" != "") = true :=
          bne_iff_ne.mpr hsource
        rw [hgiven, if_neg hsource]
        exact .imported _
  | none =>
  cases (Table.find? "export" members).bind Json.string? with
  | some name => exact .exported name
  | none =>
  cases Table.find? "jsdoc" members with
  | some v =>
      dsimp only
      cases docTexts v with
      | error e => exact .failed e
      | ok texts => exact .plain (.text _) fun _ => rfl
  | none => exact .failed _

/-- The objects that name an import are those that are read as the same symbol in every module. -/
theorem Reading.eq_true_iff {names : Bool} {read : String → Except Error Item}
    (h : Reading names read) : names = true ↔ ∃ s, ∀ home, read home = .ok (.symbol s) := by
  cases h with
  | exported name =>
      -- two modules export two different symbols
      refine ⟨nofun, fun ⟨s, hs⟩ => ?_⟩
      have hsame := (hs "a").trans (hs "b").symm
      simp at hsame
  | imported s => exact ⟨fun _ => ⟨s, fun _ => rfl⟩, fun _ => rfl⟩
  | failed e => exact ⟨nofun, fun ⟨s, hs⟩ => nomatch hs ""⟩
  | plain p hp =>
      refine ⟨nofun, fun ⟨s, hs⟩ => ?_⟩
      obtain rfl := Except.ok.inj (hs "")
      have hsame := (hp fun _ => "a").trans (hp fun _ => "b").symm
      simp [Item.moved, Symbol.moved] at hsame

theorem namesImport_iff (members : List (String × Json)) :
    namesImport members = true ↔ ∃ s, ∀ home, ofMembers home members = .ok (.symbol s) :=
  (reading_ofMembers members).eq_true_iff

/-- Where an object is read matters to the names of the module itself only. -/
theorem Reading.moved {read : String → Except Error Item} (h : Reading false read)
    (φ : String → String) (home : String) : read (φ home) = (read home).map (Item.moved φ) := by
  cases h with
  | exported name => rfl
  | failed e => rfl
  | plain p hp => rw [except_map_ok, hp]

mutual

/-- In a moved module a value without imported names is read as the moved item. -/
theorem ofJson_moved (φ : String → String) (home : String) : ∀ v : Json, readsImport v = false →
    ofJson (φ home) v = (ofJson home v).map (moved φ)
  | .null, _ => rfl
  | .bool b, _ => rfl
  | .number n, _ => rfl
  | .string s, _ => rfl
  | .array items, h => by
      simp only [ofJson, ofJsonItems_moved φ home items h]
      cases ofJsonItems home items with
      | error e => rfl
      | ok ps => rfl
  | .object members, h => by
      have hreading := reading_ofMembers members
      rw [show namesImport members = false from h] at hreading
      exact hreading.moved φ home

theorem ofJsonItems_moved (φ : String → String) (home : String) : ∀ items : List Json,
    anyReadsImport items = false →
    ofJsonItems (φ home) items = (ofJsonItems home items).map (movedAll φ)
  | [], _ => rfl
  | v :: rest, h => by
      obtain ⟨hv, hrest⟩ := Bool.or_eq_false_iff.mp h
      simp only [ofJsonItems, ofJson_moved φ home v hv, ofJsonItems_moved φ home rest hrest]
      cases ofJson home v with
      | error e => rfl
      | ok p =>
          cases ofJsonItems home rest with
          | error e => rfl
          | ok ps => rfl

end

end Item

/-! ## Moved files that are printed into -/

/-- A line of moved items is printed into a moved file. -/
theorem OutputFile.eval_print_moved {φ : String → String} {lib : RuntimeLibrary}
    (hlib : φ lib.package = lib.package) (ans : String → Except Error Symbol) (f : OutputFile)
    (items : List Item) :
    ((f.moved φ).print lib (Item.movedAll φ items)).eval (movedAnswer φ ans)
      = ((f.print lib items).eval ans).map (moved φ) := by
  have htokens := Item.eval_tokens_moved hlib ans (.seq items)
  rw [Item.moved] at htokens
  rw [eval_print, eval_print, eval_lineTokens, eval_lineTokens, htokens]
  cases ((Item.seq items).tokens lib).eval ans with
  | error e => rfl
  | ok ts =>
      show Except.ok ((f.moved φ).append (ts.map (Token.moved φ) ++ [.text "\n"]))
        = Except.ok ((f.append (ts ++ [.text "\n"])).moved φ)
      simp only [append, moved, List.map_append, List.map_cons, List.map_nil, Token.moved]

namespace PlannedFile

variable {φ : String → String} {lib : RuntimeLibrary}

theorem eval_printLine_moved (hlib : φ lib.package = lib.package)
    (ans : String → Except Error Symbol) (f : OutputFile) {line : Json}
    (h : Item.readsImport line = false) :
    (printLine lib (f.moved φ) line).eval (movedAnswer φ ans)
      = ((printLine lib f line).eval ans).map (OutputFile.moved φ) := by
  have hread : Item.ofJson (f.moved φ).importPath line
      = (Item.ofJson f.importPath line).map (Item.moved φ) :=
    Item.ofJson_moved φ f.importPath line h
  unfold printLine
  rw [Inquiry.eval_bind, Inquiry.eval_bind, Inquiry.eval_ofExcept, Inquiry.eval_ofExcept, hread]
  cases Item.ofJson f.importPath line with
  | error e => rfl
  | ok p => exact f.eval_print_moved hlib ans [p]

/-- **Moving what is printed.** Lines that name no import are printed into a file that is moved as
they were before, and moved with it. -/
theorem eval_printLines_moved (hlib : φ lib.package = lib.package)
    (ans : String → Except Error Symbol) (f : OutputFile) {lines : List Json}
    (h : Item.anyReadsImport lines = false) :
    (printLines lib (f.moved φ) lines).eval (movedAnswer φ ans)
      = ((printLines lib f lines).eval ans).map (OutputFile.moved φ) := by
  induction lines generalizing f with
  | nil => rfl
  | cons line rest ih =>
      obtain ⟨hline, hrest⟩ := Bool.or_eq_false_iff.mp h
      unfold printLines
      rw [Inquiry.eval_bind, Inquiry.eval_bind, eval_printLine_moved hlib ans f hline]
      cases (printLine lib f line).eval ans with
      | error e => rfl
      | ok f' => exact ih f' hrest

end PlannedFile

end ModuleAssembly
