import NetTrial.Proofs.Staging
/-!
# Manifests survive their document

A manifest is stored as a document and known from it afterwards: the document is read as this
manifest, whatever texts it records, and no other manifest has the same document. What can be
stored so is said by `Manifest.Fits`: the version is a byte and the dimensions are words. A
document with another version or dimension is written all the same, and it is refused.
-/

namespace NetTrial

open NetTrial.Path Text

namespace Manifest

variable {m m' : Manifest}

/-- What the bytes of a document are read as; none when they are no text. -/
def ofBytes? (bytes : Bytes) : Option (Json.Decoded Manifest) :=
  (decodeChars? bytes).map ofChars

theorem ofBytes?_bytes (m : Manifest) : ofBytes? m.bytes = some (ofChars m.document) := by
  rw [ofBytes?, decodeChars?_bytes]
  rfl

/-- The document of a manifest is read as a manifest exactly when the manifest fits, and then as
this one. -/
theorem ofBytes?_eq_ok_iff : ofBytes? m.bytes = some (.ok m') ↔ m.Fits ∧ m' = m := by
  rw [ofBytes?_bytes, Option.some.injEq]
  constructor
  · intro hread
    have hsame : m' = m := eq_of_ofChars_document hread
    exact ⟨hsame ▸ fits_of_ofChars hread, hsame⟩
  · rintro ⟨hfits, rfl⟩
    exact ofChars_document hfits

/-- A manifest that fits shares its document with no other. -/
theorem eq_of_bytes (h : m.Fits) (hsame : m'.bytes = m.bytes) : m' = m := by
  have hread : ofBytes? m'.bytes = some (.ok m) := by
    rw [hsame]
    exact (ofBytes?_eq_ok_iff).mpr ⟨h, rfl⟩
  exact ((ofBytes?_eq_ok_iff).mp hread).2.symm

end Manifest

namespace Area

variable {a : Area} {fs fs' : Files} {m : Manifest}

/-- A manifest that was stored is listed from then on. -/
theorem lists_of_writeManifest (hm : m.Fits) (h : (a.writeManifest m).run fs = (.ok (), fs')) :
    a.Lists fs' m := by
  rw [writeManifest] at h
  rcases a.writeFile_ends a.manifestPath m.bytes fs with ⟨e, grown, hw, -⟩ | ⟨written, hw, hst⟩
  · rw [hw] at h
    cases h
  · rw [hw] at h
    cases h
    rw [manifestPath_eq] at hst
    have hspot : fs'.get? a.manifestSpot = some (.file m.bytes) := by
      have hstored := hst.get?_location
      rwa [location_join a.root isName_manifest] at hstored
    exact (says_of_get? hm hspot).lists hst.stands (hst.admits isName_manifest)

end Area

/-- A manifest survives its document: the bytes that are stored for it are read as this manifest,
they are the bytes of no other, and an area in which it was stored gives it back. -/
theorem Manifest.survives {m : Manifest} (h : m.Fits) :
    ofBytes? m.bytes = some (.ok m) ∧
    (∀ other : Manifest, other.bytes = m.bytes → other = m) ∧
    ∀ (a : Area) (fs fs' : Files), (a.writeManifest m).run fs = (.ok (), fs') →
      a.readManifest.run fs' = (.ok m, fs') := by
  refine ⟨(ofBytes?_eq_ok_iff).mpr ⟨h, rfl⟩, fun other => eq_of_bytes h, fun a fs fs' hwrite => ?_⟩
  exact Area.lists_of_writeManifest h hwrite

/-- A manifest of the largest version that records texts with quotes, control characters and
characters of two and four bytes, and a dimension that is the largest word. -/
def Manifest.odd : Manifest where
  version := 255
  model := some ⟨"model.\"\\\n", "\t\r\x08\x0c\x00\x1f", ""⟩
  tensors :=
    [⟨"é \"\x7f\" 😀", .candidate, "/\\u0041", none, "", "null", "\u2028"⟩,
      ⟨"é \"\x7f\" 😀", .candidate, "", some [0, 18446744073709551615], "\x7b\x7d", "[", "]"⟩,
      ⟨"", .expected, "", some [], "", "", ""⟩]

theorem Manifest.odd_fits : odd.Fits where
  version := by decide
  tensors := by
    intro e he shape hshape
    simp only [odd, List.mem_cons, List.not_mem_nil, or_false] at he
    rcases he with rfl | rfl | rfl <;> cases hshape <;> simp [Shape.Fits, wordLimit]

theorem Manifest.odd_survives : odd.Fits ∧ ofBytes? odd.bytes = some (.ok odd) ∧
    { odd with model := none }.bytes ≠ odd.bytes ∧
    ((⟨"w", .raw⟩ : Area).writeManifest odd).run .empty =
      (.ok (), ⟨[(["w"], .directory), (["w", "manifest.json"], .file odd.bytes)]⟩) ∧
    (⟨"w", .raw⟩ : Area).readManifest.run
        ⟨[(["w"], .directory), (["w", "manifest.json"], .file odd.bytes)]⟩ =
      (.ok odd, ⟨[(["w"], .directory), (["w", "manifest.json"], .file odd.bytes)]⟩) := by
  obtain ⟨hread, hother, hback⟩ := survives odd_fits
  have hwrite : ((⟨"w", .raw⟩ : Area).writeManifest odd).run .empty =
      (.ok (), ⟨[(["w"], .directory), (["w", "manifest.json"], .file odd.bytes)]⟩) := rfl
  refine ⟨odd_fits, hread, fun hsame => ?_, hwrite, hback _ _ _ hwrite⟩
  exact absurd (hother _ hsame) (by decide)

end NetTrial
