import ModuleAssembly.Preamble
import ModuleAssembly.Proofs.Lists
import ModuleAssembly.Proofs.Parameters

/-!
# The lines of a preamble

A preamble is made of paragraphs: one for each comment of the schema file, and one for the banner.
A blank line follows every paragraph, but the last one is not ended (`Preamble.toList_text`). If no
text of the banner has a line break, these are the lines of the preamble, so every line of a comment
is found again behind the slashes of a line comment (`Preamble.keepsComments`).

Parameter strings get into the banner as they are. A line break in one of them ends the comment, and
what is behind it becomes code; nothing else does (`Preamble.opensWithBanner_iff`).
-/

set_option autoImplicit false

namespace ModuleAssembly.Preamble

/-! ## Paragraphs -/

/-- Lines with a line break behind each of them. -/
def ended (lines : List (List Char)) : List Char := lines.flatMap fun line => line ++ ['\n']

/-- The lines of paragraphs, with a blank line behind each of them. -/
def spaced (paragraphs : List (List (List Char))) : List (List Char) :=
  paragraphs.flatMap fun lines => lines ++ [[]]

/-- Lines that are read as one piece: none is blank, and each is a single line. -/
structure IsParagraph (lines : List (List Char)) : Prop where
  ne_nil : lines ≠ []
  not_blank : ∀ line ∈ lines, line ≠ []
  single : ∀ line ∈ lines, '\n' ∉ line

theorem ended_append (front back : List (List Char)) :
    ended (front ++ back) = ended front ++ ended back := List.flatMap_append

theorem ended_cons (line : List Char) (rest : List (List Char)) :
    ended (line :: rest) = line ++ '\n' :: ended rest := List.append_assoc ..

theorem spaced_append (front back : List (List (List Char))) :
    spaced (front ++ back) = spaced front ++ spaced back := List.flatMap_append

theorem spaced_concat (front : List (List (List Char))) (last : List (List Char)) :
    spaced (front ++ [last]) = spaced front ++ last ++ [[]] := by
  have hlast : spaced [last] = last ++ [[]] := List.flatMap_singleton ..
  rw [spaced_append, hlast, List.append_assoc]

/-- Without the last line break the last blank line is not ended. -/
theorem withoutBack_ended_spaced {paragraphs : List (List (List Char))} (h : paragraphs ≠ []) :
    Text.withoutBack ['\n'] (ended (spaced paragraphs)) = ended (spaced paragraphs).dropLast := by
  obtain ⟨front, last, rfl⟩ := (List.eq_nil_or_concat' paragraphs).resolve_left h
  have hlast : ended (spaced front ++ last ++ [[]]) = ended (spaced front ++ last) ++ ['\n'] :=
    ended_append ..
  rw [spaced_concat, List.dropLast_concat, hlast, Text.withoutBack, Text.dropBack?_append,
    Option.getD_some]

/-- It is then what follows the last line break. -/
theorem linesOf_ended_dropLast_spaced {paragraphs : List (List (List Char))} (h : paragraphs ≠ [])
    (hsingle : ∀ lines ∈ paragraphs, ∀ line ∈ lines, '\n' ∉ line) :
    linesOf (ended (spaced paragraphs).dropLast) = spaced paragraphs := by
  have hlines : ∀ line ∈ (spaced paragraphs).dropLast, '\n' ∉ line := by
    intro line hline
    obtain ⟨lines, hmem, hline⟩ := List.mem_flatMap.mp (List.dropLast_subset _ hline)
    rcases List.mem_append.mp hline with hline | hline
    · exact hsingle lines hmem line hline
    · rw [List.mem_singleton.mp hline]
      exact List.not_mem_nil
  obtain ⟨front, last, rfl⟩ := (List.eq_nil_or_concat' paragraphs).resolve_left h
  rw [linesOf, ended, splitOn_flatMap_concat hlines, spaced_concat, List.dropLast_concat]

/-- The text ends with one line break: the line in front of it is not blank. -/
theorem exists_ended_dropLast_spaced {paragraphs : List (List (List Char))} (h : paragraphs ≠ [])
    (hparagraphs : ∀ lines ∈ paragraphs, IsParagraph lines) :
    ∃ front, ended (spaced paragraphs).dropLast = front ++ ['\n'] ∧
      front.getLast? ≠ some '\n' := by
  obtain ⟨others, last, rfl⟩ := (List.eq_nil_or_concat' paragraphs).resolve_left h
  have hlast := hparagraphs last (List.mem_append_right _ (List.mem_singleton_self last))
  obtain ⟨lines, line, rfl⟩ := (List.eq_nil_or_concat' last).resolve_left hlast.ne_nil
  have hline : line ∈ lines ++ [line] := List.mem_append_right _ (List.mem_singleton_self line)
  have hne := hlast.not_blank line hline
  refine ⟨ended (spaced others ++ lines) ++ line, ?_, ?_⟩
  · have hend : ended [line] = line ++ ['\n'] := List.flatMap_singleton ..
    rw [spaced_concat, List.dropLast_concat, ← List.append_assoc, ended_append, hend,
      List.append_assoc]
  · rw [List.getLast?_append, List.getLast?_eq_some_getLast hne, Option.some_or]
    intro hnewline
    refine hlast.single line hline ?_
    rw [← Option.some.inj hnewline]
    exact List.getLast_mem hne

/-! ## The paragraphs of a preamble -/

/-- A line of a comment as a line comment. -/
def lineComment (line : List Char) : List Char := '/' :: '/' :: line

/-- The paragraph of a comment. -/
def commentParagraph (comment : String) : List (List Char) :=
  (commentLines comment).map lineComment

/-- The paragraph of the banner. -/
def bannerParagraph (s : Settings) (schema : Schema) : List (List Char) :=
  (generatorLine s :: schemaLine schema :: suppressions s).map String.toList

/-- The paragraphs of a preamble: the comments of the edition, the banner, and the comments of the
package. -/
def paragraphs (s : Settings) (schema : Schema) : List (List (List Char)) :=
  (written schema.editionComments).map commentParagraph
    ++ bannerParagraph s schema :: (written schema.packageComments).map commentParagraph

theorem commentBlock_eq (comment : String) :
    commentBlock comment = ended (commentParagraph comment ++ [[]]) := by
  rw [ended_append, commentParagraph, ended, List.flatMap_map]
  rfl

theorem comments_eq (c : Comments) :
    comments c = ended (spaced ((written c).map commentParagraph)) := by
  rw [comments, spaced, List.flatMap_map, ended, List.flatMap_assoc]
  exact List.flatMap_congr fun comment _ => commentBlock_eq comment

theorem banner_eq (s : Settings) (schema : Schema) :
    banner s schema = ended (bannerParagraph s schema ++ [[]]) := by
  rw [ended_append, bannerParagraph, ended, List.flatMap_map]
  rfl

theorem paragraphs_ne_nil (s : Settings) (schema : Schema) : paragraphs s schema ≠ [] :=
  List.append_ne_nil_of_right_ne_nil _ (List.cons_ne_nil _ _)

/-- **A preamble is the lines of its paragraphs.** A blank line follows every paragraph, and all
lines are ended but the last blank one. -/
theorem toList_text (s : Settings) (schema : Schema) :
    (text s schema).toList = ended (spaced (paragraphs s schema)).dropLast := by
  rw [← withoutBack_ended_spaced (paragraphs_ne_nil s schema), text, String.toList_ofList,
    comments_eq, banner_eq, comments_eq, ← ended_append, ← ended_append]
  congr 2
  rw [paragraphs, spaced_append, List.append_assoc]
  rfl

/-! ### Lines of paragraphs -/

theorem isParagraph_commentParagraph (comment : String) : IsParagraph (commentParagraph comment) := by
  refine ⟨?_, ?_, ?_⟩
  · exact mt List.map_eq_nil_iff.mp (List.splitOn_ne_nil _ _)
  · intro line hline
    obtain ⟨content, -, rfl⟩ := List.mem_map.mp hline
    exact List.cons_ne_nil _ _
  · intro line hline
    obtain ⟨content, hcontent, rfl⟩ := List.mem_map.mp hline
    have hnewline : '\n' ∉ content := not_mem_of_mem_splitOn hcontent
    simpa [lineComment] using hnewline

/-- No text that the banner shows has a line break. -/
structure PlainBanner (s : Settings) (schema : Schema) : Prop where
  pluginName : '\n' ∉ s.pluginName.toList
  pluginVersion : '\n' ∉ s.pluginVersion.toList
  parameter : ∀ parameter, s.parameter = some parameter → '\n' ∉ parameter.toList
  name : '\n' ∉ schema.name.toList
  package : ∀ package, schema.package = some package → '\n' ∉ package.toList
  edition : '\n' ∉ schema.edition.toList

theorem eq_some_of_nonEmpty? {o : Option String} {s : String} (h : nonEmpty? o = some s) :
    o = some s := (Option.filter_eq_some_iff.mp h).1

theorem newline_not_mem_generatorLine {s : Settings} (hname : '\n' ∉ s.pluginName.toList)
    (hversion : '\n' ∉ s.pluginVersion.toList)
    (hparameter : ∀ parameter, s.parameter = some parameter → '\n' ∉ parameter.toList) :
    '\n' ∉ (generatorLine s).toList := by
  unfold generatorLine
  cases hp : nonEmpty? s.parameter with
  | none => simp [hname, hversion]
  | some parameter => simp [hname, hversion, hparameter parameter (eq_some_of_nonEmpty? hp)]

theorem newline_not_mem_schemaLine {schema : Schema} (hname : '\n' ∉ schema.name.toList)
    (hpackage : ∀ package, schema.package = some package → '\n' ∉ package.toList)
    (hedition : '\n' ∉ schema.edition.toList) : '\n' ∉ (schemaLine schema).toList := by
  unfold schemaLine
  cases hp : nonEmpty? schema.package with
  | none => simp [hname, hedition]
  | some package => simp [hname, hedition, hpackage package (eq_some_of_nonEmpty? hp)]

theorem slashes_generatorLine (s : Settings) : "//".toList <+: (generatorLine s).toList := by
  have hstart : "//".toList <+: "// @generated by ".toList := by decide
  unfold generatorLine
  simp only [String.toList_append, List.append_assoc]
  exact hstart.trans (List.prefix_append _ _)

theorem slashes_schemaLine (schema : Schema) : "//".toList <+: (schemaLine schema).toList := by
  have hstart : "//".toList <+: "// @generated from file ".toList := by decide
  unfold schemaLine
  simp only [String.toList_append, List.append_assoc]
  exact hstart.trans (List.prefix_append _ _)

theorem eq_of_mem_suppressions {s : Settings} {line : String} (h : line ∈ suppressions s) :
    line = "/* eslint-disable */" ∨ line = "/* @ts-nocheck */" := by
  rcases List.mem_append.mp h with h | h
  · split at h
    · exact .inl (List.mem_singleton.mp h)
    · cases h
  · split at h
    · exact .inr (List.mem_singleton.mp h)
    · cases h

theorem isParagraph_bannerParagraph {s : Settings} {schema : Schema} (h : PlainBanner s schema) :
    IsParagraph (bannerParagraph s schema) := by
  have hline : ∀ line ∈ generatorLine s :: schemaLine schema :: suppressions s,
      line.toList ≠ [] ∧ '\n' ∉ line.toList := by
    intro line hline
    rcases List.mem_cons.mp hline with rfl | hline
    · exact ⟨(slashes_generatorLine s).ne_nil (by decide),
        newline_not_mem_generatorLine h.pluginName h.pluginVersion h.parameter⟩
    rcases List.mem_cons.mp hline with rfl | hline
    · exact ⟨(slashes_schemaLine schema).ne_nil (by decide),
        newline_not_mem_schemaLine h.name h.package h.edition⟩
    · rcases eq_of_mem_suppressions hline with rfl | rfl
      · decide
      · decide
  refine ⟨List.cons_ne_nil _ _, ?_, ?_⟩
  · intro line hmem
    obtain ⟨text, htext, rfl⟩ := List.mem_map.mp hmem
    exact (hline text htext).1
  · intro line hmem
    obtain ⟨text, htext, rfl⟩ := List.mem_map.mp hmem
    exact (hline text htext).2

theorem mem_paragraphs {s : Settings} {schema : Schema} {lines : List (List Char)} :
    lines ∈ paragraphs s schema ↔ lines = bannerParagraph s schema ∨
      ∃ comment ∈ written schema.editionComments ++ written schema.packageComments,
        commentParagraph comment = lines := by
  simp only [paragraphs, List.mem_append, List.mem_cons, List.mem_map, or_and_right, exists_or]
  rw [or_left_comm]

theorem isParagraph_of_mem {s : Settings} {schema : Schema} (h : PlainBanner s schema) :
    ∀ lines ∈ paragraphs s schema, IsParagraph lines := by
  intro lines hlines
  rcases mem_paragraphs.mp hlines with rfl | ⟨comment, -, rfl⟩
  · exact isParagraph_bannerParagraph h
  · exact isParagraph_commentParagraph comment

theorem cases_of_mem_paragraph {s : Settings} {schema : Schema} {lines : List (List Char)}
    (hlines : lines ∈ paragraphs s schema) {line : List Char} (hline : line ∈ lines) :
    "//".toList <+: line ∨ line = "/* eslint-disable */".toList ∨
      line = "/* @ts-nocheck */".toList := by
  rcases mem_paragraphs.mp hlines with rfl | ⟨comment, -, rfl⟩
  · obtain ⟨text, htext, rfl⟩ := List.mem_map.mp hline
    rcases List.mem_cons.mp htext with rfl | htext
    · exact .inl (slashes_generatorLine s)
    rcases List.mem_cons.mp htext with rfl | htext
    · exact .inl (slashes_schemaLine schema)
    · rcases eq_of_mem_suppressions htext with rfl | rfl
      · exact .inr (.inl rfl)
      · exact .inr (.inr rfl)
  · obtain ⟨content, -, rfl⟩ := List.mem_map.mp hline
    exact .inl (List.prefix_append "//".toList content)

/-! ## Comments in a preamble -/

/-- What a line comment says; other lines are no line comments. -/
def uncommented? (line : List Char) : Option (List Char) := Text.dropFront? "//".toList line

theorem uncommented?_lineComment (line : List Char) : uncommented? (lineComment line) = some line :=
  Text.dropFront?_append "//".toList line

theorem uncommented?_of_slashes {line : List Char} (h : "//".toList <+: line) :
    uncommented? line = some (line.drop 2) := by
  obtain ⟨content, rfl⟩ := h
  exact uncommented?_lineComment content

/-- The blank lines say nothing. -/
theorem filterMap_spaced (paragraphs : List (List (List Char))) :
    (spaced paragraphs).filterMap uncommented?
      = paragraphs.flatMap fun lines => lines.filterMap uncommented? := by
  rw [spaced, List.filterMap_flatMap]
  refine List.flatMap_congr fun lines _ => ?_
  rw [List.filterMap_append]
  exact List.append_nil _

theorem filterMap_commentParagraph (comment : String) :
    (commentParagraph comment).filterMap uncommented? = commentLines comment := by
  have hsome : uncommented? ∘ lineComment = some := funext uncommented?_lineComment
  rw [commentParagraph, List.filterMap_map, hsome, List.filterMap_some]

theorem filterMap_bannerParagraph (s : Settings) (schema : Schema) :
    (bannerParagraph s schema).filterMap uncommented?
      = [(generatorLine s).toList.drop 2, (schemaLine schema).toList.drop 2] := by
  have hsuppressions : ((suppressions s).map String.toList).filterMap uncommented? = [] := by
    rw [List.filterMap_eq_nil_iff]
    intro line hline
    obtain ⟨text, htext, rfl⟩ := List.mem_map.mp hline
    rcases eq_of_mem_suppressions htext with rfl | rfl
    · decide
    · decide
  rw [bannerParagraph, List.map_cons, List.map_cons,
    List.filterMap_cons_some (uncommented?_of_slashes (slashes_generatorLine s)),
    List.filterMap_cons_some (uncommented?_of_slashes (slashes_schemaLine schema)), hsuppressions]

/-- **Comments stay comments, and nothing of them is lost.** What it means for the preamble of a
schema file. -/
structure KeepsComments (s : Settings) (schema : Schema) : Prop where
  /-- It ends with one line break. -/
  ends_once : ∃ front, (text s schema).toList = front ++ ['\n'] ∧ front.getLast? ≠ some '\n'
  /-- Every line is blank, a line comment, or one of the lines that silence linters. -/
  line_cases : ∀ line ∈ linesOf (text s schema).toList, line = [] ∨ "//".toList <+: line ∨
    line = "/* eslint-disable */".toList ∨ line = "/* @ts-nocheck */".toList
  /-- The line comments say what the comments of the edition say, then the two lines of the banner,
  and then what the comments of the package say, line by line. -/
  recovered : (linesOf (text s schema).toList).filterMap uncommented?
    = (written schema.editionComments).flatMap commentLines
      ++ [(generatorLine s).toList.drop 2, (schemaLine schema).toList.drop 2]
      ++ (written schema.packageComments).flatMap commentLines
  /-- A blank line follows each comment and the banner; the last one is what is left behind the last
  line break. -/
  layout : linesOf (text s schema).toList = spaced (paragraphs s schema)

/-- Every preamble keeps its comments, if no text of its banner has a line break. -/
theorem keepsComments {s : Settings} {schema : Schema} (h : PlainBanner s schema) :
    KeepsComments s schema := by
  have hparagraphs := isParagraph_of_mem h
  have hlines : linesOf (text s schema).toList = spaced (paragraphs s schema) := by
    rw [toList_text]
    exact linesOf_ended_dropLast_spaced (paragraphs_ne_nil s schema)
      fun lines hmem => (hparagraphs lines hmem).single
  refine ⟨?_, ?_, ?_, hlines⟩
  · rw [toList_text]
    exact exists_ended_dropLast_spaced (paragraphs_ne_nil s schema) hparagraphs
  · intro line hline
    rw [hlines] at hline
    obtain ⟨lines, hmem, hline⟩ := List.mem_flatMap.mp hline
    rcases List.mem_append.mp hline with hline | hline
    · exact .inr (cases_of_mem_paragraph hmem hline)
    · exact .inl (List.mem_singleton.mp hline)
  · rw [hlines, filterMap_spaced, paragraphs, List.flatMap_append, List.flatMap_cons,
      List.flatMap_map, List.flatMap_map, filterMap_bannerParagraph, List.append_assoc]
    simp only [filterMap_commentParagraph]

/-- A schema file with comments that are empty, that have blank lines at their ends and that look
like code. -/
def ragged : Schema where
  name := "a.proto"
  editionComments := { detached := ["", "\n\n", " License\n\n */ x();\n"], leading := "\nEdition" }
  packageComments := { detached := ["// twice\r"], leading := "" }

/-- Settings that silence one of the linters, and have a parameter. -/
def brief : Settings := { parameter := some "eslint_disable=0", eslintDisable := false }

theorem ragged_keepsComments :
    PlainBanner brief ragged ∧ KeepsComments brief ragged ∧
      text brief ragged = "//\n\n//\n//\n\n// License\n//\n// */ x();\n\n//\n//Edition\n\n"
        ++ "// @generated by protoc-gen-es v0.2.1 with parameter \"eslint_disable=0\"\n"
        ++ "// @generated from file a.proto (syntax proto3)\n/* @ts-nocheck */\n\n"
        ++ "//// twice\r\n" := by
  have hplain : PlainBanner brief ragged := by
    refine ⟨by decide, by decide, ?_, by decide, ?_, by decide⟩
    · rintro _ ⟨⟩
      decide
    · rintro _ ⟨⟩
  exact ⟨hplain, keepsComments hplain, by decide +kernel⟩

/-! ## Parameters in the banner -/

/-- The line that names the generator and the parameter that it was given. -/
def lineWithParameter (s : Settings) (parameter : String) : String :=
  "// @generated by " ++ s.pluginName ++ " " ++ s.pluginVersion
    ++ (" with parameter \"" ++ parameter ++ "\"")

/-- The first line of a preamble names the generator with the whole parameter, and behind it is the
line that names the schema file. -/
def OpensWithBanner (s : Settings) (parameter : String) (schema : Schema) : Prop :=
  ∃ rest, linesOf (text s schema).toList
    = (lineWithParameter s parameter).toList :: (linesOf (schemaLine schema).toList ++ rest)

theorem linesOf_append (front back : List Char) :
    linesOf (front ++ '\n' :: back) = linesOf front ++ linesOf back :=
  List.splitOn_append_cons_self ..

/-- Without comments in front of it, the banner is what a preamble starts with, whatever its texts
are. -/
theorem exists_linesOf_text {s : Settings} {schema : Schema} (h : schema.editionComments = {}) :
    ∃ rest, linesOf (text s schema).toList
      = linesOf (generatorLine s).toList ++ (linesOf (schemaLine schema).toList ++ rest) := by
  have hparagraphs : paragraphs s schema
      = bannerParagraph s schema :: (written schema.packageComments).map commentParagraph := by
    rw [paragraphs, h]
    rfl
  obtain ⟨rest, hrest⟩ : ∃ rest, (spaced (paragraphs s schema)).dropLast
      = (generatorLine s).toList :: (schemaLine schema).toList :: rest := by
    have hblank : ((suppressions s).map String.toList ++ [[]])
        ++ spaced ((written schema.packageComments).map commentParagraph) ≠ [] := by simp
    rw [hparagraphs, spaced, List.flatMap_cons]
    exact ⟨_, (List.dropLast_cons_of_ne_nil (List.cons_ne_nil _ _)).trans
      (congrArg _ (List.dropLast_cons_of_ne_nil hblank))⟩
  refine ⟨linesOf (ended rest), ?_⟩
  rw [toList_text, hrest, ended_cons, ended_cons, linesOf_append, linesOf_append]

theorem newline_not_mem_of_opensWithBanner {s : Settings} {parameter : String} {schema : Schema}
    (h : OpensWithBanner s parameter schema) : '\n' ∉ parameter.toList := by
  obtain ⟨rest, hlines⟩ := h
  have hmem : (lineWithParameter s parameter).toList ∈ linesOf (text s schema).toList := by
    rw [hlines]
    exact List.mem_cons_self ..
  have hline : '\n' ∉ (lineWithParameter s parameter).toList := not_mem_of_mem_splitOn hmem
  unfold lineWithParameter at hline
  rw [String.toList_append, String.toList_append, List.mem_append, not_or] at hline
  have hend := hline.2
  rw [String.toList_append, String.toList_append, List.mem_append, List.mem_append] at hend
  exact fun hnewline => hend (.inl (.inr hnewline))

/-- **When a parameter stays in the banner.** In a module without comments in front of the banner, a
parameter that is accepted stands in the first line exactly if it has no line break. -/
theorem opensWithBanner_iff {s t : Settings} {parameter : String} {schema : Schema}
    (hname : '\n' ∉ s.pluginName.toList) (hversion : '\n' ∉ s.pluginVersion.toList)
    (hparameter : parameter ≠ "") (haccepted : s.apply parameter = (t, none))
    (hcomments : schema.editionComments = {}) :
    OpensWithBanner t parameter schema ↔ '\n' ∉ parameter.toList := by
  refine ⟨newline_not_mem_of_opensWithBanner, fun hsingle => ?_⟩
  have hkept : t.parameter = some parameter ∧ t.pluginName = s.pluginName ∧
      t.pluginVersion = s.pluginVersion := by
    rw [Settings.apply_eq, Prod.mk.injEq] at haccepted
    obtain ⟨rfl, hnone⟩ := haccepted
    exact ⟨if_pos ⟨hnone, hparameter⟩, rfl, rfl⟩
  obtain ⟨hparameter', hname', hversion'⟩ := hkept
  have hgenerator : generatorLine t = lineWithParameter t parameter := by
    have hshown : nonEmpty? t.parameter = some parameter := by
      rw [hparameter', nonEmpty?, Option.filter_some, if_pos (by simpa using hparameter)]
    unfold generatorLine lineWithParameter
    rw [hshown]
  have hline : '\n' ∉ (generatorLine t).toList := by
    refine newline_not_mem_generatorLine (hname' ▸ hname) (hversion' ▸ hversion) fun p hp => ?_
    rw [hparameter'] at hp
    exact Option.some.inj hp ▸ hsingle
  obtain ⟨rest, hrest⟩ := exists_linesOf_text (s := t) hcomments
  refine ⟨rest, ?_⟩
  rw [hrest, ← hgenerator, linesOf, List.splitOn_eq_singleton hline, List.singleton_append]

/-- A parameter with blanks, quotes and the end of a comment in it, but without a line break. -/
def crowded : String := " target=d.ts\t,, eslint_disable=0 ,import_extension=\" */ x();"

/-- The settings after it. -/
def crowdedSettings : Settings :=
  { parameter := some crowded, target := some "d.ts", eslintDisable := false,
    importExtension := "\" */ x();" }

theorem crowded_opensWithBanner :
    ('\n' ∉ ({} : Settings).pluginName.toList ∧ '\n' ∉ ({} : Settings).pluginVersion.toList ∧
      crowded ≠ "" ∧ ({} : Settings).apply crowded = (crowdedSettings, none) ∧
      ({ name := "a.proto" } : Schema).editionComments = {}) ∧
    OpensWithBanner crowdedSettings crowded { name := "a.proto" } := by
  have hname : '\n' ∉ ({} : Settings).pluginName.toList := by decide
  have hversion : '\n' ∉ ({} : Settings).pluginVersion.toList := by decide
  have hparameter : crowded ≠ "" := by decide
  have haccepted : ({} : Settings).apply crowded = (crowdedSettings, none) := by decide +kernel
  have hcomments : ({ name := "a.proto" } : Schema).editionComments = {} := rfl
  have hsingle : '\n' ∉ crowded.toList := by decide
  exact ⟨⟨hname, hversion, hparameter, haccepted, hcomments⟩,
    (opensWithBanner_iff hname hversion hparameter haccepted hcomments).mpr hsingle⟩

/-- The settings after a parameter that has a line break in the value of an option. -/
def brokenSettings : Settings :=
  { parameter := some "target=ts\nalert(1);", target := some "ts\nalert(1);" }

/-- Such a parameter is accepted, and what is behind the line break is not in the comment. -/
theorem lineBreak_not_opensWithBanner :
    ({} : Settings).apply "target=ts\nalert(1);" = (brokenSettings, none) ∧
      text brokenSettings { name := "a.proto" }
        = "// @generated by protoc-gen-es v0.2.1 with parameter \"target=ts\nalert(1);\"\n"
          ++ "// @generated from file a.proto (syntax proto3)\n"
          ++ "/* eslint-disable */\n/* @ts-nocheck */\n" ∧
      ¬ OpensWithBanner brokenSettings "target=ts\nalert(1);" { name := "a.proto" } := by
  refine ⟨by decide +kernel, by decide +kernel, fun h => ?_⟩
  exact newline_not_mem_of_opensWithBanner h (by decide)

end ModuleAssembly.Preamble
