import Mathlib.Data.List.Forall2
import ModuleAssembly.Proofs.FileHistory
import ModuleAssembly.Proofs.ImportBlock

/-!
# The content of finished files

A file is finished to nothing exactly when nothing was printed into it and it is not kept. The
content of any other file is its preamble, its import block and its body. The body and the block
are written one apart from the other and agree all the same: every symbol stands under the name
that the block binds for it, or under its declared name if the module declares it itself.
-/

set_option autoImplicit false

namespace ModuleAssembly

/-! ## Failures -/

/-- There is no identifier only if there is no free alias with a suffix in range. -/
theorem identifierFor_eq_error {taken : List String} {name : String} {e : Error}
    (h : identifierFor taken name = .error e) : e = .aliasExhaustion name := by
  simp only [identifierFor, freeAlias] at h
  split at h
  · split at h
    · cases h
    · cases h
      rfl
  · cases h

/-- An assignment only fails when the aliases of a name run out. -/
theorem assign_eq_error {taken : List String} {keys : List SymbolKey} {e : Error}
    (h : assign taken keys = .error e) : ∃ name, e = .aliasExhaustion name := by
  induction keys generalizing taken with
  | nil => cases h
  | cons key rest ih =>
      rw [assign_cons] at h
      rcases except_bind_eq_error.mp h with hi | ⟨ident, -, hm⟩
      · exact ⟨key.name, identifierFor_eq_error hi⟩
      · exact ih (except_map_eq_error.mp hm)

namespace Resolution

/-- So does a resolution. -/
theorem ofTokensWith_eq_error {lower : String → String} {path : String} {tokens : List Token}
    {e : Error} (h : ofTokensWith lower path tokens = .error e) :
    ∃ name, e = .aliasExhaustion name := by
  rcases except_bind_eq_error.mp h with ha | ⟨entries, -, hr⟩
  · exact assign_eq_error ha
  · cases hr

/-! ## The parts of the content -/

/-- The block is empty only without statements: every statement ends its line. -/
theorem block_eq_empty_iff (r : Resolution) : r.block = "" ↔ r.statements = [] := by
  unfold block
  cases r.statements with
  | nil => simp
  | cons st rest => simp

/-- The text `w` stands for a token of the body. A text stands for itself. A symbol has an
identifier, which is its declared name or the name that the block binds for it. -/
def StandsFor (path : String) (tokens : List Token) (r : Resolution) : Token → String → Prop
  | .text s, w => w = s
  | .symbol s, w =>
    r.identifier? s = some w ∧ (s.home = path → w = s.name) ∧
      (s.home ≠ path →
        ∃ n ∈ r.imported, IsImportOf path tokens r s.key n ∧ w = n.entry.bound)

/-- What stands in front of the imports: the preamble, with a line break if it does not end with
one, and one more line break. -/
def Opening : Option String → String → Prop
  | none, front => front = ""
  | some p, front =>
    ((∃ q, p = q ++ "\n") ∧ front = p ++ "\n") ∨
      ((¬ ∃ q, p = q ++ "\n") ∧ front = p ++ "\n" ++ "\n")

/-- The content of the module at `path` with this preamble and body, and the imports of `r`. -/
def ContentOf (path : String) (preamble : Option String) (tokens : List Token) (r : Resolution)
    (content : String) : Prop :=
  ∃ front pieces, Opening preamble front ∧
    List.Forall₂ (StandsFor path tokens r) tokens pieces ∧
    content = front ++ (if r.statements = [] then "" else r.block ++ "\n") ++ String.join pieces

/-- A text ends with a line break if its last character is one. -/
theorem getLast?_eq_newline_iff (s : String) :
    s.toList.getLast? = some '\n' ↔ ∃ q, s = q ++ "\n" := by
  constructor
  · intro h
    obtain ⟨cs, hcs⟩ := List.getLast?_eq_some_iff.mp h
    refine ⟨String.ofList cs, String.toList_inj.mp ?_⟩
    rw [hcs, String.toList_append, String.toList_ofList]
    rfl
  · rintro ⟨q, rfl⟩
    simp

theorem opening_preambleBlock (preamble : Option String) :
    Opening preamble (preambleBlock preamble) := by
  cases preamble with
  | none => rfl
  | some p =>
      by_cases h : p.toList.getLast? = some '\n'
      · exact .inl ⟨(getLast?_eq_newline_iff p).mp h, by simp only [preambleBlock, if_pos h]⟩
      · exact .inr ⟨fun hq => h ((getLast?_eq_newline_iff p).mpr hq),
          by simp only [preambleBlock, if_neg h]⟩

/-- What is written for a token stands for it. -/
theorem standsFor_written {path : String} {tokens : List Token} {r : Resolution}
    (h : ofTokens path tokens = .ok r) {t : Token} (ht : t ∈ tokens) :
    StandsFor path tokens r t (r.written t) := by
  have h' : ofTokensWith Text.lowercase path tokens = .ok r := h
  cases t with
  | text s => rfl
  | symbol s =>
      have hs : s ∈ symbols tokens := mem_symbols.mpr ht
      obtain ⟨⟨_, ident⟩, he, hkey⟩ :=
        List.mem_map.mp (((identifiers_keys h').2 s.key).mpr ⟨s, hs, rfl⟩)
      dsimp only at hkey
      subst hkey
      have hident : r.identifier? s = some ident := (lookup_identifiers h').mpr he
      have hwritten : r.written (.symbol s) = ident := by
        rw [written, hident, Option.getD_some]
      rw [hwritten]
      refine ⟨hident, ?_, ?_⟩
      · intro hhome
        exact Option.some.inj (hident.symm.trans (lookup_identifiers_of_local h' hs hhome))
      · -- the import of a foreign symbol binds the identifier that is written
        intro hhome
        have hforeign : IsForeign path tokens s.key := ⟨hhome, s, hs, rfl⟩
        obtain ⟨n, hn, himp⟩ := exists_isImportOf h' hforeign
        exact ⟨n, hn, himp, Option.some.inj (hident.symm.trans himp.bound)⟩

theorem body_singleton (r : Resolution) (t : Token) : r.body [t] = r.written t := by
  simp [body]

theorem body_append (r : Resolution) (front back : List Token) :
    r.body (front ++ back) = r.body front ++ r.body back := by
  simp [body]

/-- A body is written part by part. -/
theorem body_flatten (r : Resolution) (parts : List (List Token)) :
    r.body parts.flatten = String.join (parts.map r.body) := by
  induction parts with
  | nil => rfl
  | cons part parts ih =>
      rw [List.flatten_cons, body_append, ih, List.map_cons, String.join_cons]

/-- A body of lines is written line by line, and each line part by part. -/
theorem body_lines (r : Resolution) (lines : List (List (List Token))) :
    r.body (lines.flatMap fun parts => parts.flatten ++ [.text "\n"])
      = String.join ((lines.map fun parts => parts.map r.body).map
        fun texts => String.join texts ++ "\n") := by
  rw [List.flatMap_def, body_flatten, List.map_map, List.map_map]
  refine congrArg String.join (List.map_congr_left fun parts _ => ?_)
  show r.body (parts.flatten ++ [.text "\n"]) = String.join (parts.map r.body) ++ "\n"
  rw [body_append, body_flatten, body_singleton]
  rfl

/-- A body with a line break is not empty. -/
theorem body_ne_empty {r : Resolution} {tokens : List Token} (h : Token.text "\n" ∈ tokens) :
    r.body tokens ≠ "" := by
  obtain ⟨front, back, rfl⟩ := List.append_of_mem h
  simp [body, written]

/-- An assembled module has the content of its parts. -/
theorem contentOf_assemble {path : String} {tokens : List Token} {r : Resolution}
    (h : ofTokens path tokens = .ok r) (preamble : Option String) :
    ContentOf path preamble tokens r
      (preambleBlock preamble ++ importBlock r ++ r.body tokens) := by
  -- the body is written token by token
  refine ⟨preambleBlock preamble, tokens.map r.written, opening_preambleBlock preamble, ?_, ?_⟩
  · rw [List.forall₂_map_right_iff, List.forall₂_same]
    exact fun t ht => standsFor_written h ht
  · simp only [importBlock, block_eq_empty_iff]
    rfl

end Resolution

/-! ## Finished files -/

namespace OutputFile

theorem artifact?_of_resolution {f : OutputFile} {r : Resolution} (h : f.resolution = .ok r) :
    f.artifact? = .ok ((assemble f.preamble r f.tokens f.keepEmpty).map
      fun content => ⟨f.name, content⟩) := by
  unfold artifact?
  rw [h]
  rfl

theorem exists_resolution {f : OutputFile}
    (h : ∀ name, f.artifact? ≠ .error (.aliasExhaustion name)) : ∃ r, f.resolution = .ok r := by
  cases hr : f.resolution with
  | ok r => exact ⟨r, rfl⟩
  | error e =>
      obtain ⟨name, rfl⟩ := Resolution.ofTokensWith_eq_error hr
      refine absurd ?_ (h name)
      unfold artifact?
      rw [hr]
      rfl

/-- The body of a file is empty exactly when nothing was printed into it. -/
theorem body_eq_empty_iff {settings : Settings} {lib : RuntimeLibrary} {name importPath : String}
    {calls : List FileCall} (r : Resolution) :
    r.body ((create settings name importPath).afterCalls settings lib calls).tokens = "" ↔
      ¬ HasPrinted settings lib (create settings name importPath) calls := by
  rw [afterCalls_eq, hasPrinted_iff]
  constructor
  · rintro hempty ⟨c, hc, line, hline⟩
    refine Resolution.body_ne_empty ?_ hempty
    rw [List.mem_append, List.mem_flatten]
    exact .inr ⟨line, List.mem_filterMap.mpr ⟨c, hc, hline⟩, newline_mem_line hline⟩
  · intro hnone
    have hlines : calls.filterMap (FileCall.line? lib) = [] := by
      rw [List.filterMap_eq_nil_iff]
      intro c hc
      rw [Option.eq_none_iff_forall_ne_some]
      exact fun line hline => hnone ⟨c, hc, line, hline⟩
    rw [hlines]
    rfl

/-- **A finished file by its history.** Whatever was called on the file since it was created, and
unless the aliases of a name run out: there is no artifact exactly when no print succeeded and the
file is not kept; any other artifact has the content of its parts. -/
theorem artifact?_of_history (settings : Settings) (lib : RuntimeLibrary)
    (name importPath : String) (calls : List FileCall)
    (h : ∀ other, ((create settings name importPath).afterCalls settings lib calls).artifact?
      ≠ .error (.aliasExhaustion other)) :
    let f := (create settings name importPath).afterCalls settings lib calls
    let isEmpty := ¬ HasPrinted settings lib (create settings name importPath) calls
    (f.artifact? = .ok none ↔ isEmpty ∧ keepEmptyInForce settings calls = false) ∧
    (¬ (isEmpty ∧ keepEmptyInForce settings calls = false) →
      ∃ r content, Resolution.ofTokens importPath f.tokens = .ok r ∧
        f.artifact? = .ok (some ⟨name, content⟩) ∧
        Resolution.ContentOf importPath (lastPreamble settings calls) f.tokens r content) := by
  intro f isEmpty
  obtain ⟨r, hr⟩ := exists_resolution h
  have hfile : f = { create settings name importPath with
      tokens := (create settings name importPath).tokens
        ++ (calls.filterMap (FileCall.line? lib)).flatten
      preamble := (lastPreamble settings calls).or none
      keepEmpty := keepEmptyInForce settings calls } := afterCalls_eq _ calls
  have hpath : f.importPath = importPath := by rw [hfile]; rfl
  have hname : f.name = name := by rw [hfile]; rfl
  have hpreamble : f.preamble = lastPreamble settings calls := by rw [hfile, Option.or_none]
  have hkeep : f.keepEmpty = keepEmptyInForce settings calls := by rw [hfile]
  have hempty : r.body f.tokens = "" ↔ isEmpty := body_eq_empty_iff r
  have hr' : Resolution.ofTokens importPath f.tokens = .ok r := by rw [← hpath]; exact hr
  have hcond : r.body f.tokens = "" ∧ f.keepEmpty = false ↔
      isEmpty ∧ keepEmptyInForce settings calls = false := by rw [hempty, hkeep]
  have hartifact := artifact?_of_resolution hr
  unfold assemble at hartifact
  by_cases hnone : isEmpty ∧ keepEmptyInForce settings calls = false
  · rw [if_pos (hcond.mpr hnone)] at hartifact
    exact ⟨⟨fun _ => hnone, fun _ => hartifact⟩, fun hsome => absurd hnone hsome⟩
  · rw [if_neg (mt hcond.mp hnone), Option.map_some, hname, hpreamble] at hartifact
    refine ⟨⟨fun hok => ?_, fun hyes => absurd hyes hnone⟩, fun _ => ?_⟩
    · rw [hartifact] at hok
      cases hok
    · exact ⟨r, _, hr', hartifact, Resolution.contentOf_assemble hr' _⟩

/-- A history in which a print fails between two lines that compete for the name `Foo`. -/
def mixedCalls (registry : Registry) : List FileCall :=
  [.print registry [.text "type A = ", .entity ⟨"p.Foo", true⟩],
    .print registry [.text "lost", .seq [.entity ⟨"p.Foo", false⟩, .entity ⟨"p.Bar", false⟩]],
    .setKeepEmpty true, .setPreamble { name := "m.proto" },
    .printTemplate registry ["export ", ";"] [.symbol ⟨"Foo", "./m_pb.js", false⟩],
    .setKeepEmpty false]

/-- A registry that knows `p.Foo` but not `p.Bar`. -/
def mixedRegistry : Registry :=
  Registry.ofEntities ⟨"_pb", ".js"⟩ [⟨"p.Foo", .message, "a.proto", some "p"⟩]

/-- The file after `mixedCalls`. -/
def mixed : OutputFile :=
  (create {} "m_pb.ts" "./m_pb.js").afterCalls {} ⟨"@bufbuild/protobuf"⟩
    (mixedCalls mixedRegistry)

theorem artifact?_mixed : mixed.artifact? = .ok (some ⟨"m_pb.ts",
    "// @generated by protoc-gen-es v0.2.1\n// @generated from file m.proto (syntax proto3)\n"
      ++ "/* eslint-disable */\n/* @ts-nocheck */\n\n"
      ++ "import type \x7bFoo as Foo$1\x7d from \"./a_pb.js\";\n\n"
      ++ "type A = Foo$1\nexport Foo;\n"⟩) := by
  decide +kernel

theorem mixed_contentOf :
    (∀ other, mixed.artifact? ≠ .error (.aliasExhaustion other)) ∧
      ∃ r content, Resolution.ofTokens "./m_pb.js" mixed.tokens = .ok r ∧
        mixed.artifact? = .ok (some ⟨"m_pb.ts", content⟩) ∧
        Resolution.ContentOf "./m_pb.js" (lastPreamble {} (mixedCalls mixedRegistry)) mixed.tokens
          r content := by
  have hnotExhausted : ∀ other, mixed.artifact? ≠ .error (.aliasExhaustion other) := by
    intro other h
    rw [artifact?_mixed] at h
    cases h
  have hhistory := artifact?_of_history {} ⟨"@bufbuild/protobuf"⟩ "m_pb.ts" "./m_pb.js"
    (mixedCalls mixedRegistry) hnotExhausted
  refine ⟨hnotExhausted, hhistory.2 fun hnone => ?_⟩
  have hok : mixed.artifact? = .ok none := hhistory.1.mpr hnone
  rw [artifact?_mixed] at hok
  cases hok

end OutputFile

end ModuleAssembly
