import AssetCompiler.Proofs.AtomicStoring
import AssetCompiler.Proofs.ServedResults

/-!
Stored entries are read back as they were. An entry's text, in either layout, says all of the entry, whatever
characters are in it, and so do the file and the row that hold it. A result goes into an entry and comes out
of it as it was.
-/
namespace AssetCompiler
namespace Store

open Volume

/-- An entry is read from its text, in which the reading of a file changes no line end. -/
theorem readEntry_unified (now : Instant) (style : Json.Style) {e : Entry} (hdate : e.createdAt.IsDate) :
    readEntry now (Text.unifyLineEnds (Json.write style e.toJson).toList) = .ok (.found e) := by
  rw [Json.unifyLineEnds_write style e.isPlain_toJson]
  exact readEntry_written now style hdate

/-- An entry that was put into a table is found. -/
theorem TableAt.get_put {v : Volume} {database : Path} {l : Location} (h : TableAt v database l)
    (space key : String) {e : Entry} (hdate : e.createdAt.IsDate) :
    ∃ v', ((table database space true).put key e).run v = (.ok (), v') ∧ TableAt v' database l ∧
      ∀ now, ((table database space true).get now key).run v' = (.ok (.found e), v') := by
  obtain ⟨v', hrun, -, htable, hrows⟩ :=
    h.run_withRows (putRow ⟨space, key, Json.write .compact e.toJson⟩)
  refine ⟨v', hrun, htable, fun now => ?_⟩
  rw [run_get_table, hrows, find?_putRow_self ⟨space, key, _⟩]
  simp only [readEntry_written now .compact hdate]

/-- A result that was made into an entry is read back from the entry's text. -/
theorem readEntry_ofArtifact (now now' : Instant) (hdate : now.IsDate) (style : Json.Style)
    (key space : String) {a : Artifact} (ha : a.IsWhole) :
    ∃ e, readEntry now' (Text.unifyLineEnds
        (Json.write style (Entry.ofArtifact now key space a).toJson).toList) = .ok (.found e) ∧
      e.toArtifact = a :=
  ⟨_, readEntry_unified now' style hdate, ha.toArtifact_ofArtifact now key space⟩

/-- What a store has written for an entry it reads back as that entry. A put into a folder ends as its
outcome says, and a put into a table always ends well; then a look-up under the key finds the entry. The code,
the media type and the dependencies of a result, in their order, survive being made into an entry, and being
written and read as one. -/
theorem get_put_decodes :
    (∀ e : Entry, e.createdAt.IsDate →
      (∀ style now, readEntry now (Text.unifyLineEnds (Json.write style e.toJson).toList) =
        .ok (.found e)) ∧
      (∀ (v v₁ : Volume) (root : Path) (d : Location) (space key : String), v.makeDirectories root = .ok v₁ → v₁.locate true root = .ok d →
        (∃ name, IsTemporary name ∧ v₁.nodeAt? (d ++ [name]) = none) →
        (((folder root space).put key e).run v).1.mapError Failure.withoutSource =
          putOutcome root key (v₁.nodeAt? (d ++ [fileName key])) ∧
        ∀ v', ((folder root space).put key e).run v = (.ok (), v') → v'.locate true root = .ok d →
          ∀ now, ((folder root space).get now key).run v' = (.ok (.found e), v')) ∧
      ∀ (v : Volume) (database : Path) (l : Location) (space key : String), TableAt v database l →
        ∃ v', ((table database space true).put key e).run v = (.ok (), v') ∧
          ∀ now, ((table database space true).get now key).run v' = (.ok (.found e), v')) ∧
    ∀ code mediaType dependencies now key space,
      (Entry.ofArtifact now key space (Artifact.ofContent code mediaType dependencies)).toArtifact =
        Artifact.ofContent code mediaType dependencies ∧
      (now.IsDate → ∀ style now', ∃ e, readEntry now' (Text.unifyLineEnds (Json.write style
          (Entry.ofArtifact now key space (Artifact.ofContent code mediaType dependencies)).toJson).toList) =
        .ok (.found e) ∧ e.toArtifact = Artifact.ofContent code mediaType dependencies) := by
  refine ⟨fun e hdate => ⟨fun style now => readEntry_unified now style hdate, ?_, ?_⟩, ?_⟩
  · intro v v₁ root d space key hmade hlocated hfree
    have h := directoryAt_of_makeDirectories hmade hlocated
    refine ⟨h.put_outcome hmade hfree space key e, fun v' hrun hlocated' now => ?_⟩
    obtain ⟨hends, mtime, hsame⟩ := h.put_ok hmade hfree hrun
    exact h.get_put hdate hends hsame hlocated' now
  · intro v database l space key htable
    obtain ⟨v', hrun, -, hfound⟩ := htable.get_put space key hdate
    exact ⟨v', hrun, hfound⟩
  · intro code mediaType dependencies now key space
    have hwhole : (Artifact.ofContent code mediaType dependencies).IsWhole :=
      ⟨code, mediaType, dependencies, rfl⟩
    exact ⟨hwhole.toArtifact_ofArtifact now key space, fun hdate style now' =>
      readEntry_ofArtifact now now' hdate style key space hwhole⟩

/-- An entry whose texts are full of characters that are not written as they are. -/
def strangeEntry : Entry :=
  ⟨"ключ/\\ \"1\"", "shrink-1", "a \"b\"\r\n\t\x00 \u2028 😀", "text/css", ["z.css", "ä\r.css"],
    ⟨2024, 2, 29, 23, 59, 59, 7, some (-90)⟩⟩

/-- It is found in a table and in a folder, and comes out of its text as the result it was made from. -/
theorem get_put_strangeEntry :
    (∃ v', ((folder ⟨"/", ["cache", "shrink-1"]⟩ "shrink-1").put someKey strangeEntry).run emptyFolder =
        (.ok (), v') ∧
      ∀ now, ((folder ⟨"/", ["cache", "shrink-1"]⟩ "shrink-1").get now someKey).run v' =
        (.ok (.found strangeEntry), v')) ∧
    (∃ v', ((table ⟨"/", ["cache", databaseName]⟩ "shrink-1" true).put someKey strangeEntry).run emptyTable =
        (.ok (), v') ∧
      ∀ now, ((table ⟨"/", ["cache", databaseName]⟩ "shrink-1" true).get now someKey).run v' =
        (.ok (.found strangeEntry), v')) ∧
    ∃ e, readEntry default (Text.unifyLineEnds (Json.write .pages (Entry.ofArtifact strangeEntry.createdAt
        someKey "shrink-1" (Artifact.ofContent "" "text/css" ["z.css", "a.css", "z.css"])).toJson).toList) =
      .ok (.found e) ∧ e.toArtifact = ⟨some ⟨"", "text/css"⟩, ["z.css", "a.css"]⟩ := by
  have hdate : strangeEntry.createdAt.IsDate := by
    constructor <;> simp [strangeEntry, Instant.daysIn, Instant.isLeap]
  obtain ⟨hentries, hresults⟩ := get_put_decodes
  obtain ⟨-, hfolder, htable⟩ := hentries strangeEntry hdate
  refine ⟨?_, htable emptyTable _ ["cache", databaseName] "shrink-1" someKey
    ⟨by decide, [], 1000000000000000000, by decide⟩, ?_⟩
  · have hfree : ∃ name, IsTemporary name ∧ emptyFolder.nodeAt? (["cache", "shrink-1"] ++ [name]) = none :=
      ⟨temporaryName 0, ⟨0, rfl⟩, by decide⟩
    obtain ⟨hends, hfound⟩ := hfolder emptyFolder emptyFolder ⟨"/", ["cache", "shrink-1"]⟩
      ["cache", "shrink-1"] "shrink-1" someKey makeDirectories_emptyFolder (by decide) hfree
    rw [putOutcome_someKey, if_neg isLeaf_emptyFolder.1] at hends
    rcases hrun : ((folder ⟨"/", ["cache", "shrink-1"]⟩ "shrink-1").put someKey strangeEntry).run
      emptyFolder with ⟨r, v'⟩
    rw [hrun] at hends
    cases r with
    | error f => cases hends
    | ok _ =>
      have h : DirectoryAt emptyFolder ⟨"/", ["cache", "shrink-1"]⟩ ["cache", "shrink-1"] :=
        directoryAt_of_makeDirectories makeDirectories_emptyFolder (by decide)
      obtain ⟨-, _, hsame⟩ := h.put_ok makeDirectories_emptyFolder hfree hrun
      exact ⟨v', rfl, hfound v' hrun (h.located_put isLeaf_emptyFolder.2 isLeaf_emptyFolder.1 hsame)⟩
  · exact (hresults "" "text/css" ["z.css", "a.css", "z.css"] strangeEntry.createdAt someKey
      "shrink-1").2 hdate .pages default

end Store
end AssetCompiler
