import ModuleAssembly.Body.DocBlock
import ModuleAssembly.Proofs.Aliases

/-!
# Import blocks read back

Names are made of letters, digits, `_` and `$`, and so are their aliases. So none of the marks
between the parts of an import statement occurs in a name, not even in one that is spelled like a
keyword, and every statement of a block is read back (`ImportStatement.read?_text`). The source may
be any text: its line breaks are escaped, so a statement stays on one line, and a block is read line
by line (`Resolution.readBlock?_block`).
-/

set_option autoImplicit false

namespace ModuleAssembly

/-! ## Names -/

/-- A character that names are made of: a letter or digit, `_` or `$`. Beyond ASCII every character
counts, so that letters of every script do. -/
def isNameChar (c : Char) : Bool :=
  c.isAlphanum || c == '_' || c == '$' || decide (0x80 ≤ c.toNat)

/-- All characters of a text are such that names are made of them. -/
def IsName (s : String) : Prop := s.toList.all isNameChar = true

instance (s : String) : Decidable (IsName s) :=
  inferInstanceAs (Decidable (s.toList.all isNameChar = true))

theorem isName_iff {s : String} : IsName s ↔ ∀ c ∈ s.toList, isNameChar c = true :=
  List.all_eq_true

/-- No mark is part of a name. -/
theorem IsName.not_mem {s : String} (h : IsName s) {c : Char} (hc : isNameChar c = false) :
    c ∉ s.toList := by
  intro hmem
  rw [isName_iff.mp h c hmem] at hc
  cases hc

/-- The aliases of a name are made of the same characters. -/
theorem IsName.aliasOf {name : String} (h : IsName name) (k : Nat) : IsName (aliasOf name k) := by
  refine isName_iff.mpr fun c hc => ?_
  simp only [ModuleAssembly.aliasOf, String.toList_append, String.toList_ofList,
    List.mem_append] at hc
  rcases hc with (hc | hc) | hc
  · exact isName_iff.mp h c hc
  · have hdollar : c = '$' := by simpa using hc
    subst hdollar
    rfl
  · have hdigit : c.isDigit = true := Nat.isDigit_of_mem_toDigits (by decide) (by decide) hc
    simp [isNameChar, Char.isAlphanum, hdigit]

/-- The least identifier of a name is made of the same characters. -/
theorem IsLeastIdentifier.isName {taken : Finset String} {name ident : String}
    (h : IsLeastIdentifier taken name ident) (hname : IsName name) : IsName ident := by
  by_cases hmem : name ∈ taken
  · obtain ⟨k, -, -, rfl, -⟩ := h.aliased hmem
    exact hname.aliasOf k
  · rwa [h.kept_iff.mpr hmem]

/-! ## Entries -/

namespace ImportEntry

/-- The name of an entry and its alias are made of the characters of names. -/
structure IsPlain (n : ImportEntry) : Prop where
  name : IsName n.name
  renamed : ∀ other, n.renamed = some other → IsName other

/-- Besides the characters of names, a written entry has blanks. -/
theorem IsPlain.mem_text {n : ImportEntry} (h : n.IsPlain) {c : Char} (hc : c ∈ n.text.toList) :
    isNameChar c = true ∨ c = ' ' := by
  obtain ⟨name, renamed⟩ := n
  cases renamed with
  | none => exact .inl (isName_iff.mp h.name c hc)
  | some other =>
      have htext : c ∈ name.toList ∨ c ∈ [' ', 'a', 's', ' '] ∨ c ∈ other.toList := by
        simpa [text, or_assoc] using hc
      rcases htext with hc | hc | hc
      · exact .inl (isName_iff.mp h.name c hc)
      · have has : [' ', 'a', 's', ' '].all (fun d => isNameChar d || d == ' ') = true := by decide
        simpa using List.all_eq_true.mp has c hc
      · exact .inl (isName_iff.mp (h.renamed other rfl) c hc)

theorem IsPlain.not_mem_text {n : ImportEntry} (h : n.IsPlain) {c : Char}
    (hc : isNameChar c = false) (hblank : c ≠ ' ') : c ∉ n.text.toList := by
  intro hmem
  rcases h.mem_text hmem with hname | hspace
  · rw [hname] at hc
    cases hc
  · exact hblank hspace

/-- An entry is read back, whatever word its name or its alias is. -/
theorem IsPlain.read?_text {n : ImportEntry} (h : n.IsPlain) : read? n.text.toList = some n := by
  obtain ⟨name, renamed⟩ := n
  have hname : ' ' ∉ name.toList := h.name.not_mem (by decide)
  cases renamed with
  | none =>
      have hsplit : name.toList.splitOn ' ' = [name.toList] := List.splitOn_eq_singleton hname
      simp only [text, read?, hsplit, String.ofList_toList]
  | some other =>
      have hother : ' ' ∉ other.toList := (h.renamed other rfl).not_mem (by decide)
      have htext : (text ⟨name, some other⟩).toList
          = name.toList ++ ' ' :: (['a', 's'] ++ ' ' :: other.toList) := by
        simp [text]
      have hsplit : (text ⟨name, some other⟩).toList.splitOn ' '
          = [name.toList, ['a', 's'], other.toList] := by
        rw [htext, List.splitOn_append_cons_self_of_not_mem hname,
          List.splitOn_append_cons_self_of_not_mem (by decide),
          List.splitOn_eq_singleton hother]
      simp only [read?, hsplit, String.ofList_toList]

end ImportEntry

/-! ## Statements -/

namespace ImportStatement

/-- What a statement has between its braces. -/
def inner (names : List ImportEntry) : List Char :=
  [',', ' '].intercalate (names.map fun n => n.text.toList)

/-- What follows the keywords of a statement. -/
def tail (st : ImportStatement) : List Char :=
  '\x7b' :: (inner st.names ++ ("\x7d from ".toList ++ (Text.Quoted.writeChars st.source.toList
    ++ [';'])))

theorem toList_text (st : ImportStatement) : st.text.toList
    = "import ".toList ++ ((if st.typeOnly then "type ".toList else []) ++ st.tail) := by
  obtain ⟨typeOnly, source, names⟩ := st
  cases typeOnly with
  | true => simp [text, tail, inner, Text.Quoted.write, Function.comp_def]
  | false => simp [text, tail, inner, Text.Quoted.write, Function.comp_def]

/-- Between the braces, besides the names there are commas and blanks. -/
theorem not_mem_inner {names : List ImportEntry} (h : ∀ n ∈ names, n.IsPlain) {c : Char}
    (hc : isNameChar c = false) (hblank : c ≠ ' ') (hcomma : c ≠ ',') : c ∉ inner names := by
  unfold inner
  induction names with
  | nil => simp
  | cons n names ih =>
      obtain ⟨hn, hnames⟩ := List.forall_mem_cons.mp h
      cases names with
      | nil => simpa using hn.not_mem_text hc hblank
      | cons m names =>
          rw [List.map_cons, List.map_cons, List.intercalate_cons_cons]
          simp only [List.mem_append, List.mem_cons, List.not_mem_nil, or_false, not_or]
          exact ⟨⟨hn.not_mem_text hc hblank, hcomma, hblank⟩, ih hnames⟩

/-- The entries between the braces are read back. -/
theorem readEntries?_inner {names : List ImportEntry} (hne : names ≠ [])
    (h : ∀ n ∈ names, n.IsPlain) : readEntries? (inner names) = some names := by
  obtain ⟨n, rest, rfl⟩ := List.exists_cons_of_ne_nil hne
  obtain ⟨hn, hrest⟩ := List.forall_mem_cons.mp h
  have hsplit : (inner (n :: rest)).splitOn ','
      = n.text.toList :: (rest.map fun m => m.text.toList).map ([' '] ++ ·) := by
    refine splitOn_intercalate_cons (by decide) ?_
    intro part hpart
    rw [← List.map_cons (f := fun m : ImportEntry => m.text.toList)] at hpart
    obtain ⟨m, hm, rfl⟩ := List.mem_map.mp hpart
    exact (h m hm).not_mem_text (by decide) (by decide)
  -- every entry but the first one has a blank in front of it
  have hothers : ((rest.map fun m => m.text.toList).map ([' '] ++ ·)).mapM
      (fun part => (Text.dropFront? [' '] part).bind ImportEntry.read?) = some rest := by
    rw [List.map_map]
    refine mapM_map_eq_some fun m hm => ?_
    rw [Function.comp_apply, Text.dropFront?_append, Option.bind_some, (hrest m hm).read?_text]
  simp only [readEntries?, hsplit, hn.read?_text, hothers]
  rfl

/-- A statement with names is read back, whatever its source is. -/
theorem readTail?_tail (st : ImportStatement) (hne : st.names ≠ [])
    (h : ∀ n ∈ st.names, n.IsPlain) : readTail? st.typeOnly st.tail = some st := by
  have hbrace : ∀ c ∈ inner st.names, (c != '\x7d') = true := by
    intro c hc
    rw [bne_iff_ne]
    rintro rfl
    exact not_mem_inner h (by decide) (by decide) (by decide) hc
  have hstop : ∀ c, ("\x7d from ".toList ++ (Text.Quoted.writeChars st.source.toList
      ++ [';'])).head? = some c → (c != '\x7d') = false := by
    intro c hc
    cases hc
    rfl
  have hopen : Text.dropFront? ['\x7b'] st.tail = some (inner st.names ++ ("\x7d from ".toList
      ++ (Text.Quoted.writeChars st.source.toList ++ [';']))) :=
    Text.dropFront?_append ['\x7b'] _
  simp only [readTail?, hopen, Option.bind_eq_bind, Option.bind_some,
    takeWhile_append_of_head? hbrace hstop, dropWhile_append_of_head? hbrace hstop,
    readEntries?_inner hne h, Text.dropFront?_append, Text.Quoted.readChars_writeChars,
    String.ofList_toList]

theorem read?_text (st : ImportStatement) (hne : st.names ≠ [])
    (h : ∀ n ∈ st.names, n.IsPlain) : read? st.text = some st := by
  have htail := readTail?_tail st hne h
  rw [read?, toList_text, Text.dropFront?_append]
  obtain ⟨typeOnly, source, names⟩ := st
  cases typeOnly with
  | true =>
      simp only [Option.bind_eq_bind, Option.bind_some, if_true, Text.dropFront?_append]
      exact htail
  | false => exact htail

/-- A statement stands on one line. -/
theorem newline_not_mem_text {st : ImportStatement} (h : ∀ n ∈ st.names, n.IsPlain) :
    '\n' ∉ st.text.toList := by
  have hinner : '\n' ∉ inner st.names :=
    not_mem_inner h (by decide) (by decide) (by decide)
  have hsource : '\n' ∉ Text.Quoted.writeChars st.source.toList := fun hmem =>
    (Text.Quoted.not_lineBreak_of_mem_writeChars hmem).2 rfl
  have hkeyword : '\n' ∉ (if st.typeOnly then "type ".toList else []) := by
    cases st.typeOnly <;> decide
  rw [toList_text, tail]
  simp only [List.mem_append, List.mem_cons, not_or]
  exact ⟨by decide, hkeyword, by decide, hinner, by decide, hsource, by decide, by decide⟩

end ImportStatement

/-! ## Blocks -/

namespace Resolution

/-- Reads a block back: every line ends in a newline and is a statement. -/
def readBlock? (text : String) : Option (List ImportStatement) := do
  let lines ← Text.dropBack? [[]] (linesOf text.toList)
  lines.mapM fun line => ImportStatement.read? (String.ofList line)

section

variable {lower : String → String} {path : String} {tokens : List Token} {r : Resolution}

/-- The names of a block are made of the same characters as those of the symbols. -/
theorem isPlain_of_mem_statements (h : ofTokensWith lower path tokens = .ok r)
    (hnames : ∀ s ∈ symbols tokens, IsName s.name) {st : ImportStatement}
    (hst : st ∈ r.statements) {n : ImportEntry} (hn : n ∈ st.names) : n.IsPlain := by
  have himported : (⟨st.typeOnly, st.source, n⟩ : ImportedName) ∈ r.imported :=
    List.mem_flatMap.mpr ⟨st, hst, List.mem_map_of_mem hn⟩
  obtain ⟨key, hforeign, himport⟩ := exists_isForeign h himported
  have hkey : IsName key.name := by
    obtain ⟨-, s, hs, rfl⟩ := hforeign
    exact hnames s hs
  refine ⟨?_, ?_⟩
  · have hname : n.name = key.name := himport.name
    rwa [hname]
  · intro other hother
    obtain ⟨earlier, later, hsplit⟩ := List.append_of_mem (mem_foreignKeys.mpr hforeign)
    obtain ⟨ident, hlookup, hleast⟩ := exists_isLeastIdentifier h hsplit
    have hbound : other = ident := by
      have hentry : n.bound = other := by rw [ImportEntry.bound, hother, Option.getD_some]
      rw [← hentry]
      exact Option.some.inj (himport.bound.symm.trans hlookup)
    rw [hbound]
    exact hleast.isName hkey

end

/-- **A block can be read back.** If names are made of letters, digits, `_` and `$`, then a block has
one line for each statement, and its lines are read as these statements, whatever the homes of the
symbols are. -/
theorem readBlock?_block {path : String} {tokens : List Token} {r : Resolution}
    (hnames : ∀ s ∈ symbols tokens, IsName s.name) (h : ofTokens path tokens = .ok r) :
    linesOf r.block.toList = (r.statements.map fun st => st.text.toList) ++ [[]] ∧
      readBlock? r.block = some r.statements := by
  have h' : ofTokensWith Text.lowercase path tokens = .ok r := h
  have hplain : ∀ st ∈ r.statements, ∀ n ∈ st.names, n.IsPlain := fun st hst n hn =>
    isPlain_of_mem_statements h' hnames hst hn
  have hlines : linesOf r.block.toList = (r.statements.map fun st => st.text.toList) ++ [[]] := by
    have hblock : r.block.toList
        = (r.statements.map fun st => st.text.toList).flatMap fun line => line ++ ['\n'] := by
      simp [block, List.flatMap_map]
    rw [hblock]
    refine splitOn_flatMap_concat ?_
    intro line hline
    obtain ⟨st, hst, rfl⟩ := List.mem_map.mp hline
    exact ImportStatement.newline_not_mem_text (hplain st hst)
  refine ⟨hlines, ?_⟩
  rw [readBlock?, hlines, Text.dropBack?_append]
  refine mapM_map_eq_some fun st hst => ?_
  rw [String.ofList_toList]
  exact st.read?_text (names_ne_nil h' hst) (hplain st hst)

/-- Symbols that are named like the words of an import statement, with line breaks, quotes and
backslashes in the paths of their homes. -/
def wordy : List Token :=
  [.symbol ⟨"as", "./\"a\\b\n.js", true⟩, .symbol ⟨"type", "pkg\r\n", false⟩,
    .symbol ⟨"from", "pkg\r\n", false⟩, .symbol ⟨"as", "pkg\r\n", false⟩,
    .symbol ⟨"as", "./m.js", false⟩]

/-- The resolution of `wordy`. -/
def wordyResolution : Resolution where
  statements :=
    [⟨true, "./\"a\\b\n.js", [⟨"as", some "as$1"⟩]⟩,
      ⟨false, "pkg\r\n", [⟨"as", some "as$2"⟩, ⟨"from", none⟩, ⟨"type", none⟩]⟩]
  identifiers :=
    [(⟨"./m.js", "as"⟩, "as"), (⟨"./\"a\\b\n.js", "as"⟩, "as$1"), (⟨"pkg\r\n", "type"⟩, "type"),
      (⟨"pkg\r\n", "from"⟩, "from"), (⟨"pkg\r\n", "as"⟩, "as$2")]

theorem wordy_readBack :
    ((∀ s ∈ symbols wordy, IsName s.name) ∧ ofTokens "./m.js" wordy = .ok wordyResolution) ∧
    linesOf wordyResolution.block.toList
      = (wordyResolution.statements.map fun st => st.text.toList) ++ [[]] ∧
    readBlock? wordyResolution.block = some wordyResolution.statements := by
  have hnames : ∀ s ∈ symbols wordy, IsName s.name := by decide +kernel
  have h : ofTokens "./m.js" wordy = .ok wordyResolution := by decide +kernel
  exact ⟨⟨hnames, h⟩, readBlock?_block hnames h⟩

end Resolution

end ModuleAssembly
