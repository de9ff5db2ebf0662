import Mathlib.Data.List.Basic
import ModuleAssembly.Import.Path
import ModuleAssembly.Proofs.Lists

/-!
# Written paths lead back

A project path is written into a module as the way from the directory of that module to the target:
up to what the two have in common, and then down. Following the written path from the directory
therefore ends where following the target from the root of the project does
(`ImportPath.destination_relativeTo`), whatever dots and slashes the target has. So a module names
two targets alike only if they are one (`ImportPath.leadsBack`).
-/

set_option autoImplicit false

namespace ModuleAssembly.ImportPath

/-! ## Where paths lead -/

/-- The segments of the directory that a module is in. -/
def directory (importer : String) : List String := (segments importer).dropLast

/-- Every segment of the directory of a module leads down. -/
def PlainDirectory (importer : String) : Prop :=
  ∀ segment ∈ directory importer, segment ≠ "." ∧ segment ≠ ".."

instance (importer : String) : Decidable (PlainDirectory importer) :=
  inferInstanceAs (Decidable (∀ segment ∈ directory importer, segment ≠ "." ∧ segment ≠ ".."))

/-- Where a path leads that is written in the module at `importer`. -/
def destination (importer path : String) : List String :=
  follow (follow [] (directory importer)) (segments path)

/-- What a path names: a place in the project, or a package. -/
inductive Target where
  | place (segments : List String)
  | package (name : String)
deriving DecidableEq

/-- What a path names, seen from the root of the project. -/
def target (path : String) : Target :=
  if isRelative path then .place (place path) else .package path

/-! ## Segments of a text -/

/-- The non-empty segments of a text, also a leading dot. -/
def pieces (cs : List Char) : List String :=
  ((cs.splitOn '/').filter fun segment => !segment.isEmpty).map String.ofList

theorem pieces_dot (cs : List Char) : pieces ('.' :: '/' :: cs) = "." :: pieces cs := by
  have hsplit : ('.' :: '/' :: cs).splitOn '/' = ['.'] :: cs.splitOn '/' :=
    List.splitOn_append_cons_self_of_not_mem (by decide : '/' ∉ ['.']) cs
  unfold pieces
  rw [hsplit]
  rfl

/-- A segment is a text without slashes that is not empty. -/
def IsSegment (s : String) : Prop := s ≠ "" ∧ '/' ∉ s.toList

theorem isSegment_of_mem_pieces {cs : List Char} {s : String} (h : s ∈ pieces cs) :
    IsSegment s := by
  obtain ⟨segment, hsegment, rfl⟩ := List.mem_map.mp h
  obtain ⟨hmem, hne⟩ := List.mem_filter.mp hsegment
  refine ⟨?_, ?_⟩
  · intro hempty
    have hnil : segment = [] := by simpa using congrArg String.toList hempty
    rw [hnil] at hne
    cases hne
  · rw [String.toList_ofList]
    exact not_mem_of_mem_splitOn hmem

/-- Joining segments and taking them apart again. -/
theorem pieces_intercalate {parts : List String} (h : ∀ s ∈ parts, IsSegment s) :
    pieces ("/".intercalate parts).toList = parts := by
  cases parts with
  | nil => rfl
  | cons first rest =>
      have hslash : ∀ segment ∈ (first :: rest).map String.toList, '/' ∉ segment := by
        intro segment hsegment
        obtain ⟨s, hs, rfl⟩ := List.mem_map.mp hsegment
        exact (h s hs).2
      have hsplit : ("/".intercalate (first :: rest)).toList.splitOn '/'
          = (first :: rest).map String.toList := by
        rw [String.toList_intercalate]
        exact List.splitOn_intercalate '/' hslash (by simp)
      have hkept : ((first :: rest).map String.toList).filter (fun segment => !segment.isEmpty)
          = (first :: rest).map String.toList := by
        rw [List.filter_eq_self]
        intro segment hsegment
        obtain ⟨s, hs, rfl⟩ := List.mem_map.mp hsegment
        simpa using (h s hs).1
      unfold pieces
      rw [hsplit, hkept, List.map_map]
      simp [Function.comp_def]

/-! ## Following segments -/

theorem follow_cons (start : List String) (segment : String) (rest : List String) :
    follow start (segment :: rest) = follow (enter start segment) rest := rfl

theorem enter_dot (start : List String) : enter start "." = start := if_pos rfl

theorem enter_of_plain {segment : String} (h : segment ≠ "." ∧ segment ≠ "..")
    (start : List String) : enter start segment = segment :: start := by
  unfold enter
  rw [if_neg h.1, if_neg h.2]

theorem enter_up {segment : String} (h : segment ≠ "..") (start : List String) :
    enter (segment :: start) ".." = start := by
  unfold enter
  rw [if_neg (by decide), if_pos rfl]
  exact if_neg h

/-- The leading dot of a path leads nowhere. -/
theorem follow_segments (start : List String) (path : String) :
    follow start (segments path) = follow start (pieces path.toList) := by
  have hpieces : segments path = pieces (withoutDot path.toList) := rfl
  rw [hpieces]
  fun_cases withoutDot path.toList with
  | case1 rest =>
      rw [pieces_dot, follow_cons, enter_dot]
  | case2 cs h => rfl

/-- Plain segments lead down, one after the other. -/
theorem follow_plain {source : List String} (h : ∀ s ∈ source, s ≠ "." ∧ s ≠ "..")
    (start : List String) : follow start source = source.reverse ++ start := by
  induction source generalizing start with
  | nil => rfl
  | cons s source ih =>
      obtain ⟨hs, hsource⟩ := List.forall_mem_cons.mp h
      rw [follow_cons, enter_of_plain hs, ih hsource, List.reverse_cons, List.append_assoc,
        List.singleton_append]

/-- As many segments up as there are plain segments lead back to where these start. -/
theorem follow_up {down : List String} (h : ∀ s ∈ down, s ≠ "." ∧ s ≠ "..")
    (start rest : List String) :
    follow (down ++ start) (List.replicate down.length ".." ++ rest) = follow start rest := by
  induction down with
  | nil => rfl
  | cons s down ih =>
      obtain ⟨hs, hdown⟩ := List.forall_mem_cons.mp h
      rw [List.length_cons, List.replicate_succ, List.cons_append, List.cons_append, follow_cons,
        enter_up hs.2, ih hdown]

/-- **The route.** From a plain directory it leads where the target leads from the place that the
directory starts at. The induction is on what the two have in common. -/
theorem follow_route {source : List String} (h : ∀ s ∈ source, s ≠ "." ∧ s ≠ "..")
    (start goal : List String) :
    follow (source.reverse ++ start) (route source goal) = follow start goal := by
  induction source generalizing start goal with
  | nil => simp [route, commonLength]
  | cons a source ih =>
      obtain ⟨ha, hsource⟩ := List.forall_mem_cons.mp h
      by_cases hcommon : goal.head? = some a
      · obtain ⟨goal', rfl⟩ := List.head?_eq_some_iff.mp hcommon
        have hroute : route (a :: source) (a :: goal') = route source goal' := by
          simp [route, commonLength]
        rw [hroute, List.reverse_cons, List.append_assoc, List.singleton_append, ih hsource,
          follow_cons, enter_of_plain ha]
      · -- nothing is in common, so the route leads all the way up
        have hshared : commonLength (a :: source) goal = 0 := by
          cases goal with
          | nil => rfl
          | cons b goal =>
              have hne : a ≠ b := fun hab => hcommon (congrArg some hab.symm)
              rw [commonLength, if_neg hne]
        have hroute : route (a :: source) goal
            = List.replicate (a :: source).reverse.length ".." ++ goal := by
          rw [route, hshared, List.length_reverse]
          rfl
        rw [hroute, follow_up]
        intro s hs
        exact h s (List.mem_reverse.mp hs)

/-! ## Written paths -/

theorem isRelative_iff {path : String} :
    isRelative path = true ↔ "./".toList <+: path.toList ∨ "../".toList <+: path.toList := by
  rw [isRelative, Bool.or_eq_true, String.startsWith_string_iff, String.startsWith_string_iff]

/-- A project path is written as a project path. -/
theorem isRelative_relativeTo (importer : String) {path : String} (h : isRelative path = true) :
    isRelative (relativeTo importer path) = true := by
  simp only [relativeTo, if_pos h]
  split
  · next hjoined => exact hjoined
  · rw [isRelative_iff, String.toList_append]
    exact .inl (List.prefix_append _ _)

/-- A package path is written as it is. -/
theorem relativeTo_of_package (importer : String) {path : String} (h : isRelative path = false) :
    relativeTo importer path = path := by
  simp [relativeTo, h]

/-- The segments on a route are those of the two paths, and two dots. -/
theorem isSegment_of_mem_route {source : List String} {path s : String}
    (h : s ∈ route source (segments path)) : IsSegment s := by
  rcases List.mem_append.mp h with h | h
  · rw [List.eq_of_mem_replicate h]
    exact ⟨by decide, by decide⟩
  · exact isSegment_of_mem_pieces (List.mem_of_mem_drop h)

/-- Following a written path is following the route that it is made of. -/
theorem follow_relativeTo (start : List String) (importer : String) {path : String}
    (h : isRelative path = true) :
    follow start (segments (relativeTo importer path))
      = follow start (route (directory importer) (segments path)) := by
  have hjoined : pieces ("/".intercalate (route (directory importer) (segments path))).toList
      = route (directory importer) (segments path) :=
    pieces_intercalate fun s hs => isSegment_of_mem_route hs
  rw [follow_segments]
  simp only [relativeTo, if_pos h]
  split
  · exact congrArg (follow start) hjoined
  · rw [String.toList_append]
    -- the dot that is put in front leads nowhere
    show follow start (pieces ('.' :: '/' :: _)) = _
    rw [pieces_dot, follow_cons, enter_dot]
    exact congrArg (follow start) hjoined

/-- **A written path leads to its target.** -/
theorem destination_relativeTo {importer path : String} (hplain : PlainDirectory importer)
    (h : isRelative path = true) :
    destination importer (relativeTo importer path) = place path := by
  have hdirectory : follow [] (directory importer) = (directory importer).reverse ++ [] :=
    follow_plain hplain []
  rw [destination, follow_relativeTo _ importer h, hdirectory, follow_route hplain]
  rfl

/-- **Written paths lead back.** What it means that the module at `importer` imports from the
targets that it names. -/
structure LeadsBack (importer : String) : Prop where
  /-- A project path is written as one. -/
  written_relative : ∀ path, isRelative path = true → isRelative (relativeTo importer path) = true
  /-- Followed from the directory of the module, what is written leads to the place that the project
  path names. -/
  destination_eq : ∀ path, isRelative path = true →
    destination importer (relativeTo importer path) = place path
  /-- Two targets are written alike only if they are one. -/
  target_eq : ∀ path path', relativeTo importer path = relativeTo importer path' →
    target path = target path'

/-- Paths that are written alike have one target. -/
theorem target_eq_of_relativeTo_eq {importer path path' : String}
    (hplain : PlainDirectory importer)
    (h : relativeTo importer path = relativeTo importer path') : target path = target path' := by
  cases hpath : isRelative path with
  | true =>
      have hwritten := isRelative_relativeTo importer hpath
      cases hpath' : isRelative path' with
      | true =>
          have hplace : place path = place path' :=
            calc place path
                = destination importer (relativeTo importer path) :=
                  (destination_relativeTo hplain hpath).symm
              _ = destination importer (relativeTo importer path') := by rw [h]
              _ = place path' := destination_relativeTo hplain hpath'
          simp only [target, hpath, hpath', if_true, hplace]
      | false =>
          -- a project path is not written like a package
          rw [h, relativeTo_of_package importer hpath', hpath'] at hwritten
          cases hwritten
  | false =>
      cases hpath' : isRelative path' with
      | true =>
          have hwritten := isRelative_relativeTo importer hpath'
          rw [← h, relativeTo_of_package importer hpath, hpath] at hwritten
          cases hwritten
      | false =>
          rw [relativeTo_of_package importer hpath, relativeTo_of_package importer hpath'] at h
          rw [h]

/-- Every module writes package paths as they are, and if its directory is plain, all that it writes
leads back. -/
theorem leadsBack (importer : String) :
    (∀ path, isRelative path = false → relativeTo importer path = path) ∧
      (PlainDirectory importer → LeadsBack importer) := by
  refine ⟨fun path h => relativeTo_of_package importer h, fun hplain => ⟨?_, ?_, ?_⟩⟩
  · exact fun path h => isRelative_relativeTo importer h
  · exact fun path h => destination_relativeTo hplain h
  · exact fun path path' h => target_eq_of_relativeTo_eq hplain h

theorem nested_leadsBack :
    PlainDirectory ".//google/protobuf/any_pb.js" ∧ LeadsBack ".//google/protobuf/any_pb.js" := by
  have hplain : PlainDirectory ".//google/protobuf/any_pb.js" := by decide +kernel
  exact ⟨hplain, (leadsBack ".//google/protobuf/any_pb.js").2 hplain⟩

/-- Targets above the module, beside it and out of the project. -/
example :
    relativeTo "./google/protobuf/any_pb.js" "./google" = "./.." ∧
      relativeTo "./google/protobuf/any_pb.js" "./google//./x/../b_pb.js" = ".././x/../b_pb.js" ∧
      place "./google//./x/../b_pb.js" = ["b_pb.js", "google"] ∧
      relativeTo "./a_pb.js" "../../c_pb.js" = "../../c_pb.js" := by
  decide +kernel

end ModuleAssembly.ImportPath
