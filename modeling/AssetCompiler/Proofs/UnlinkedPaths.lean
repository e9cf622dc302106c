import AssetCompiler.Proofs.Fingerprints

/-!
Paths in volumes without links. There a path leads, if it leads anywhere, to the location that its
components spell, and so does the real path behind it. A path can stand for a file without leading to it:
double dots go back from directories that are not there.
-/
namespace AssetCompiler.Volume

/-- There are no links. -/
def IsUnlinked (v : Volume) : Prop := ∀ l target, v.nodeAt? l ≠ some (.link target)

/-- The location that names spell from a location on. -/
def spell (stand : Location) (names : List String) : Location :=
  names.foldl (fun l name => if name = ".." then l.dropLast else l ++ [name]) stand

theorem spell_up (stand : Location) (names : List String) :
    spell stand (".." :: names) = spell stand.dropLast names := rfl

theorem spell_cons {name : String} (h : name ≠ "..") (stand : Location) (names : List String) :
    spell stand (name :: names) = spell (stand ++ [name]) names := by
  rw [spell, List.foldl_cons, if_neg h]
  rfl

theorem up_not_mem_spell {stand : Location} (h : ".." ∉ stand) (names : List String) :
    ".." ∉ spell stand names := by
  induction names generalizing stand with
  | nil => exact h
  | cons name names ih =>
    by_cases hname : name = ".."
    · subst hname
      rw [spell_up]
      exact ih fun hmem => h (List.dropLast_subset stand hmem)
    · rw [spell_cons hname]
      refine ih fun hmem => ?_
      rcases List.mem_append.mp hmem with hmem | hmem
      · exact h hmem
      · exact hname (List.mem_singleton.mp hmem).symm

/-- Names without double dots are spelled as they are. -/
theorem spell_of_not_mem {names : List String} (h : ".." ∉ names) (stand : Location) :
    spell stand names = stand ++ names := by
  induction names generalizing stand with
  | nil => rw [List.append_nil]; rfl
  | cons name names ih =>
    rw [List.mem_cons, not_or] at h
    rw [spell_cons (Ne.symm h.1), ih h.2, List.append_assoc]
    rfl

section Unlinked

variable {v : Volume} {p real : Path} {bytes : List UInt8} {mtime : Int}

theorem Arrives.eq_spell (hv : v.IsUnlinked) {follow : Bool} {links : Nat} {stand l : Location}
    {names : List String} (h : Arrives v follow links stand names l) : l = spell stand names := by
  induction h with
  | here links stand => rfl
  | up _ ih => exact ih
  | last proper short stops => exact (spell_cons proper _ []).symm
  | through proper short directory _ ih => rw [spell_cons proper, ih]
  | link target proper short link => exact absurd link (hv _ target)

theorem expand_eq_spell (hv : v.IsUnlinked) (links : Nat) (stand : Location)
    (names : List String) : v.expand links stand (names.map .name) = spell stand names := by
  have hwith : ∀ (atLink : Location → List Step → Option Location),
      v.expandWith atLink stand (names.map .name) = spell stand names := by
    intro atLink
    induction names generalizing stand with
    | nil =>
      rw [List.map_nil, expandWith]
      rfl
    | cons name names ih =>
      rw [List.map_cons]
      by_cases hname : name = ".."
      · subst hname
        rw [expandWith, ih, spell_up]
      · rw [expandWith, spell_cons hname]
        · cases hnode : v.nodeAt? (stand ++ [name]) with
          | none => exact ih _
          | some node =>
            cases node with
            | link target => exact absurd hnode (hv _ target)
            | directory => exact ih _
            | file bytes mtime => exact ih _
            | table rows mtime => exact ih _
        · exact fun heq => hname heq
  cases links with
  | zero => exact hwith _
  | succ links => exact hwith _

/-- The real path spells the location. -/
theorem realPath_unlinked (hv : v.IsUnlinked) (h : v.realPath p = .ok real) :
    real = ⟨"/", spell (v.start p) p.parts⟩ := by
  unfold realPath at h
  split at h
  · cases h
  · simp only [expand_eq_spell hv] at h
    split at h
    · cases h
    · exact (Except.ok.inj h).symm

/-- What is read under a path is what stands behind it. -/
theorem read_unlinked (hv : v.IsUnlinked) (hhere : ".." ∉ v.here)
    (hinspect : v.inspect p = .ok (real, bytes, mtime)) {bytes' : List UInt8}
    (hread : v.read p = .ok bytes') : bytes' = bytes := by
  obtain ⟨hreal, -, l', node', hstat', hcontent'⟩ := inspect_ok.mp hinspect
  obtain rfl := realPath_unlinked hv hreal
  obtain ⟨-, l, node, mtime', hstat, hcontent⟩ := read_eq_ok_iff.mp hread
  have hstart : ".." ∉ v.start p := by
    unfold start
    split
    · exact List.not_mem_nil
    · exact hhere
  obtain ⟨hlocate', hnode'⟩ := stat_eq_ok_iff.mp hstat'
  obtain ⟨hlocate, hnode⟩ := stat_eq_ok_iff.mp hstat
  have hl' : l' = spell (v.start p) p.parts := by
    rw [(walk_eq_ok_iff.mp hlocate').eq_spell hv]
    exact spell_of_not_mem (up_not_mem_spell hstart _) []
  have hl : l = l' := by rw [hl', (walk_eq_ok_iff.mp hlocate).eq_spell hv]
  obtain rfl : node = node' := by
    rw [hl, hnode'] at hnode
    exact (Option.some.inj hnode).symm
  exact (Prod.mk.inj (Option.some.inj (hcontent.symm.trans hcontent'))).1

/-- The text that is read under a path is that of what stands behind it. -/
theorem readTextLossy_unlinked (hv : v.IsUnlinked) (hhere : ".." ∉ v.here)
    (hinspect : v.inspect p = .ok (real, bytes, mtime)) {s : List Char}
    (hread : v.readTextLossy p = .ok s) :
    s = Text.unifyLineEnds (Text.Utf8.decodeLossy bytes) := by
  unfold readTextLossy at hread
  cases hbytes : v.read p with
  | error e =>
    rw [hbytes] at hread
    cases hread
  | ok bytes' =>
    rw [hbytes] at hread
    obtain rfl := read_unlinked hv hhere hinspect hbytes
    exact (Except.ok.inj hread).symm

end Unlinked
end AssetCompiler.Volume
