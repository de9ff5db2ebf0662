import ModuleAssembly.Manifest
import ModuleAssembly.Proofs.CompactText

/-!
# The digest of a manifest

The text that a manifest is hashed from determines the generator, the version and the entries of
the files, whatever characters they have (`Manifest.hashedText_entries`), because no two values
have one compact text. As long as no two of the texts involved have one digest, the digest of the
manifest therefore identifies the run: it changes with every name, every content and every
exchange of two files, and with nothing else (`Manifest.manifestHash_eq_iff`).
-/

set_option autoImplicit false

namespace ModuleAssembly

/-- No two of the texts have one digest. -/
def Sha256.CollisionFree (texts : List String) : Prop :=
  ∀ s ∈ texts, ∀ t ∈ texts, hex s = hex t → s = t

/-! ## Entries -/

theorem FileDigest.toJson_injective : Function.Injective FileDigest.toJson := by
  intro e e' h
  obtain ⟨name, hash⟩ := e
  obtain ⟨name', hash'⟩ := e'
  simp only [toJson, Json.object.injEq, List.cons.injEq, Prod.mk.injEq, Json.string.injEq,
    true_and, and_true] at h
  rw [h.1, h.2]

theorem FileDigest.toJson_ordered (e : FileDigest) : e.toJson.Ordered := by
  have hkeys : List.Pairwise (· < ·) ["hash", "name"] := by decide
  exact ⟨hkeys, trivial, trivial, trivial⟩

namespace Manifest

/-- Artifacts whose contents are told apart by their digests have different entries. -/
theorem eq_of_map_entryOf_eq {as bs : List Artifact}
    (h : ∀ a ∈ as, ∀ b ∈ bs, a.hash = b.hash → a.content = b.content)
    (heq : as.map entryOf = bs.map entryOf) : as = bs := by
  induction as generalizing bs with
  | nil => exact (List.map_eq_nil_iff.mp heq.symm).symm
  | cons a as ih =>
      cases bs with
      | nil => cases heq
      | cons b bs =>
          rw [List.map_cons, List.map_cons, List.cons.injEq, entryOf, entryOf,
            FileDigest.mk.injEq] at heq
          obtain ⟨⟨hname, hhash⟩, hrest⟩ := heq
          have hcontent : a.content = b.content :=
            h a (List.mem_cons_self ..) b (List.mem_cons_self ..) hhash
          have hhead : a = b := by
            obtain ⟨name, content⟩ := a
            obtain ⟨name', content'⟩ := b
            exact congrArg₂ Artifact.mk hname hcontent
          have htail : as = bs := ih (fun x hx y hy =>
            h x (List.mem_cons_of_mem _ hx) y (List.mem_cons_of_mem _ hy)) hrest
          rw [hhead, htail]

/-! ## The hashed text -/

/-- The text whose digest is that of the manifest. -/
def hashedText (generator version : String) (artifacts : List Artifact) : String :=
  (hashedJson generator version (artifacts.map entryOf)).canonical

/-- The texts of which a manifest takes a digest. -/
def digested (generator version : String) (artifacts : List Artifact) : List String :=
  hashedText generator version artifacts :: artifacts.map Artifact.content

theorem manifestHash_ofArtifacts (generator version : String) (artifacts : List Artifact) :
    (ofArtifacts generator version artifacts).manifestHash
      = Sha256.hex (hashedText generator version artifacts) := by
  rw [ofArtifacts, hashedText]

theorem hashedText_mem_digested (generator version : String) (artifacts : List Artifact) :
    hashedText generator version artifacts ∈ digested generator version artifacts :=
  List.mem_cons_self ..

theorem content_mem_digested (generator version : String) {artifacts : List Artifact}
    {a : Artifact} (h : a ∈ artifacts) : a.content ∈ digested generator version artifacts :=
  List.mem_cons_of_mem _ (List.mem_map_of_mem h)

theorem hashedJson_ordered (generator version : String) (files : List FileDigest) :
    (hashedJson generator version files).Ordered := by
  have hkeys : List.Pairwise (· < ·) ["files", "generator", "version"] := by decide
  have hfiles : Json.OrderedItems (files.map FileDigest.toJson) := by
    refine Json.orderedItems_iff.mpr fun v hv => ?_
    obtain ⟨e, -, rfl⟩ := List.mem_map.mp hv
    exact e.toJson_ordered
  exact ⟨hkeys, hfiles, trivial, trivial, trivial⟩

theorem hashedJson_inj {g g' v v' : String} {files files' : List FileDigest}
    (h : hashedJson g v files = hashedJson g' v' files') : g = g' ∧ v = v' ∧ files = files' := by
  simp only [hashedJson, Json.object.injEq, List.cons.injEq, Prod.mk.injEq, Json.array.injEq,
    Json.string.injEq, true_and, and_true] at h
  obtain ⟨hfiles, hg, hv⟩ := h
  exact ⟨hg, hv, FileDigest.toJson_injective.list_map hfiles⟩

/-- **The hashed text determines what it was written from**, up to the digests of the contents. -/
theorem hashedText_entries {g g' v v' : String} {as bs : List Artifact}
    (h : hashedText g v as = hashedText g' v' bs) :
    g = g' ∧ v = v' ∧ as.map entryOf = bs.map entryOf := by
  unfold hashedText at h
  rw [Json.canonical_of_ordered (hashedJson_ordered _ _ _),
    Json.canonical_of_ordered (hashedJson_ordered _ _ _)] at h
  exact hashedJson_inj (Json.compact_injective h)

/-! ## The digest -/

/-- **The digest of a manifest is a fingerprint of the run**, as long as no two of the texts have
one digest: two manifests share it exactly when they were made by one generator in one version for
the same files in the same order. The same holds of the hashed text. -/
theorem manifestHash_eq_iff {g g' v v' : String} {as bs : List Artifact}
    (h : Sha256.CollisionFree (digested g v as ++ digested g' v' bs)) :
    ((ofArtifacts g v as).manifestHash = (ofArtifacts g' v' bs).manifestHash ↔
      g = g' ∧ v = v' ∧ as = bs) ∧
    (hashedText g v as = hashedText g' v' bs ↔ g = g' ∧ v = v' ∧ as = bs) := by
  have hcontents : ∀ a ∈ as, ∀ b ∈ bs, a.hash = b.hash → a.content = b.content :=
    fun a ha b hb => h _ (List.mem_append_left _ (content_mem_digested g v ha))
      _ (List.mem_append_right _ (content_mem_digested g' v' hb))
  have htext : hashedText g v as = hashedText g' v' bs ↔ g = g' ∧ v = v' ∧ as = bs := by
    constructor
    · intro heq
      obtain ⟨hg, hv, hentries⟩ := hashedText_entries heq
      exact ⟨hg, hv, eq_of_map_entryOf_eq hcontents hentries⟩
    · rintro ⟨rfl, rfl, rfl⟩
      rfl
  have hhash : (ofArtifacts g v as).manifestHash = (ofArtifacts g' v' bs).manifestHash ↔
      hashedText g v as = hashedText g' v' bs := by
    rw [manifestHash_ofArtifacts, manifestHash_ofArtifacts]
    constructor
    · exact h _ (List.mem_append_left _ (hashedText_mem_digested g v as))
        _ (List.mem_append_right _ (hashedText_mem_digested g' v' bs))
    · intro heq
      rw [heq]
  exact ⟨hhash.trans htext, htext⟩

/-- A file whose content looks like the end of an entry. -/
def deceptive : List Artifact := [⟨"a_pb.ts", "\"\x7d,\x7b\\"⟩]

/-- The file as it should be. -/
def genuine : List Artifact := [⟨"a_pb.ts", "export \x7b\x7d;\n"⟩]

theorem deceptive_manifestHash_ne :
    Sha256.CollisionFree (digested "gen" "v1" deceptive ++ digested "gen" "v1" genuine) ∧
    (ofArtifacts "gen" "v1" deceptive).manifestHash
      ≠ (ofArtifacts "gen" "v1" genuine).manifestHash ∧
    hashedText "gen" "v1" deceptive ≠ hashedText "gen" "v1" genuine := by
  have hfree : Sha256.CollisionFree
      (digested "gen" "v1" deceptive ++ digested "gen" "v1" genuine) := by
    unfold Sha256.CollisionFree
    decide +kernel
  have hne : deceptive ≠ genuine := by decide
  obtain ⟨hhash, htext⟩ := manifestHash_eq_iff hfree
  exact ⟨hfree, fun heq => hne (hhash.mp heq).2.2, fun heq => hne (htext.mp heq).2.2⟩

end Manifest

end ModuleAssembly
