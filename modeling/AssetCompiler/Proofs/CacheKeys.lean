import AssetCompiler.Proofs.Stores
import AssetCompiler.Proofs.RealPaths

/-!
Keys tell results apart. A hash has sixty-four characters without a hyphen among them, and no two
media types that file names show look alike in a key, so a key tells the hash and the media type that
it was made of.
-/
namespace AssetCompiler

/-! Hashes -/

namespace Text

theorem isAlphanum_digitChar {n : Nat} (h : n < 16) : n.digitChar.isAlphanum = true :=
  (by decide : ∀ m < 16, (Nat.digitChar m).isAlphanum = true) n h

theorem isAlphanum_of_mem_toDigits {n : Nat} {c : Char} (h : c ∈ Nat.toDigits 16 n) :
    c.isAlphanum = true := by
  induction n using Nat.strongRecOn with
  | ind n ih =>
    rw [Nat.toDigits_eq_if (by decide)] at h
    split at h
    · rename_i hsmall
      rw [List.mem_singleton.mp h]
      exact isAlphanum_digitChar hsmall
    · rename_i hlarge
      rcases List.mem_append.mp h with hfront | hlast
      · exact ih (n / 16) (by omega) hfront
      · rw [List.mem_singleton.mp hlast]
        exact isAlphanum_digitChar (Nat.mod_lt n (by omega))

/-- A word in hexadecimal digits. -/
theorem padded_word (w : UInt32) : (padded 16 8 w.toNat).toList.length = 8 ∧
    ∀ c ∈ (padded 16 8 w.toNat).toList, c.isAlphanum = true := by
  have hlength := (Nat.length_toDigits_le_iff (b := 16) (n := w.toNat) (k := 8) (by decide)
    (by decide)).mpr (Nat.lt_of_lt_of_le w.toNat_lt (by decide))
  simp only [padded, String.toList_ofList]
  refine ⟨?_, ?_⟩
  · rw [List.length_append, List.length_replicate]
    omega
  · intro c hc
    rcases List.mem_append.mp hc with hzero | hdigit
    · rw [List.eq_of_mem_replicate hzero]
      rfl
    · exact isAlphanum_of_mem_toDigits hdigit

end Text

theorem Sha256.hexDigest_spec (bytes : List UInt8) : (hexDigest bytes).toList.length = 64 ∧
    ∀ c ∈ (hexDigest bytes).toList, c.isAlphanum = true := by
  unfold hexDigest
  generalize absorbAll _ _ _ = state
  simp only [String.toList_join, State.words]
  refine ⟨?_, ?_⟩
  · simp [List.flatMap_cons, (Text.padded_word _).1]
  · intro c hc
    obtain ⟨part, hpart, hc⟩ := List.mem_flatMap.mp hc
    obtain ⟨w, _, rfl⟩ := List.mem_map.mp hpart
    exact (Text.padded_word w).2 c hc

namespace MediaType

/-- The media types that file names can show. -/
def known : List String :=
  plainText :: (sourceFormats ++ registered ++ common).map (·.1)

theorem mem_known_of_lookup? {extension type : String} {table : List (String × List String)}
    (htable : table ⊆ sourceFormats ++ registered ++ common)
    (h : lookup? extension table = some type) : type ∈ known := by
  obtain ⟨row, hrow, rfl⟩ := Option.map_eq_some_iff.mp h
  exact List.mem_cons_of_mem _ (List.mem_map_of_mem (htable (List.mem_of_find?_eq_some hrow)))

theorem mem_known_of_tables {extension type : String}
    (h : (lookup? extension sourceFormats <|> lookup? extension registered <|>
      lookup? extension common) = some type) : type ∈ known := by
  simp only [Option.orElse_eq_orElse, Option.orElse_eq_or, Option.or_eq_some_iff] at h
  rcases h with h | ⟨_, h | ⟨_, h⟩⟩
  all_goals exact mem_known_of_lookup? (by simp) h

theorem ofDataAddress_of_not_mem {s : List Char} {type : String} (hslash : '/' ∉ s)
    (h : ofDataAddress s = some type) : type = plainText := by
  unfold ofDataAddress at h
  split at h
  · have hnone : ((s.takeWhile (· ≠ ',')).takeWhile (· ≠ ';')).contains '/' = false := by
      rw [Bool.eq_false_iff, ne_eq, List.contains_iff_mem]
      intro hmem
      exact hslash ((List.takeWhile_sublist _).subset ((List.takeWhile_sublist _).subset hmem))
    simp only [hnone, Bool.not_false, Bool.or_true, if_true] at h
    exact (Option.some.inj h).symm
  · cases h

theorem subset_of_splitScheme {s scheme rest : List Char} (h : splitScheme s = some (scheme, rest)) :
    rest ⊆ s := by
  unfold splitScheme at h
  simp only at h
  split at h
  · rename_i hdrop
    split at h
    · cases h
    · injection h with h
      obtain ⟨-, rfl⟩ := Prod.mk.inj h
      intro c hc
      exact List.drop_subset _ _ (hdrop ▸ List.mem_cons_of_mem _ hc)
  · cases h

/-- The type that a file name shows is one of the known ones. -/
theorem mem_known_of_ofName {name : List Char} {type : String} (hslash : '/' ∉ name)
    (h : ofName name = some type) : type ∈ known := by
  unfold ofName at h
  split at h
  rename_i scheme address hsplit
  have haddress : '/' ∉ address := by
    split at hsplit
    · rename_i hscheme
      obtain ⟨-, rfl⟩ := Prod.mk.inj hsplit
      exact fun hmem => hslash (subset_of_splitScheme hscheme hmem)
    · obtain ⟨-, rfl⟩ := Prod.mk.inj hsplit
      exact hslash
  split at h
  · rw [ofDataAddress_of_not_mem haddress h]
    exact List.mem_cons_self
  · split at h
    split at h
    exact mem_known_of_tables h

theorem ofPath_known {p : Path} (hp : AreProper p.parts) {type : String}
    (h : ofPath p = some type) : type ∈ known := by
  refine mem_known_of_ofName ?_ h
  unfold Path.name
  cases hlast : p.parts.getLast? with
  | none => simp [List.getLastD_eq_getLast?, hlast]
  | some name =>
    rw [List.getLastD_eq_getLast?, hlast, Option.getD_some]
    exact (hp name (List.mem_of_getLast? hlast)).2

/-- A media type from its part of a key: the first character that the key has lost was the slash, and
the others were plus signs. -/
def ofKeyPart (part : List Char) : List Char :=
  let front := part.takeWhile (· ≠ '_')
  front ++ '/' :: (part.drop (front.length + 1)).map fun c => if c = '_' then '+' else c

theorem ofKeyPart_known : ∀ t ∈ known.map String.toList,
    ofKeyPart (t.map fun c => if Fingerprint.isKeyChar c then c else '_') = t ∧
      t.length ≤ 100 := by
  decide +kernel

theorem keyPart_injective {t t' : String} (ht : t ∈ known) (ht' : t' ∈ known)
    (h : Fingerprint.keyPart t = Fingerprint.keyPart t') : t = t' := by
  have hlists := congrArg ofKeyPart (String.ofList_injective h)
  rw [(ofKeyPart_known _ (List.mem_map_of_mem ht)).1,
    (ofKeyPart_known _ (List.mem_map_of_mem ht')).1] at hlists
  exact String.toList_inj.mp hlists

end MediaType

/-! Keys -/

/-- A text without separators of path components is a component as it is. -/
theorem safeName_eq_self {name : String} (h : ∀ c ∈ name.toList, c ≠ '/' ∧ c ≠ '\\') :
    safeName name = name := by
  apply String.toList_inj.mp
  rw [safeName, String.toList_ofList]
  conv_rhs => rw [← List.map_id name.toList]
  refine List.map_congr_left fun c hc => ?_
  obtain ⟨hslash, hback⟩ := h c hc
  rw [if_neg (by simp [hslash, hback]), id]

namespace Fingerprint

/-- The hash is made of letters and digits. -/
structure IsHashed (i : Fingerprint) : Prop where
  length : i.hash.toList.length = 64
  hash : ∀ c ∈ i.hash.toList, c.isAlphanum = true

/-- The hash is made of letters and digits, and the media type is one that a file name shows. -/
structure IsPlain (i : Fingerprint) : Prop extends IsHashed i where
  mediaType : ∀ t, i.mediaType = some t → t ∈ MediaType.known

theorem isPlain_classify (bytes : List UInt8) {p : Path} (hp : AreProper p.parts)
    (options : ClassifyOptions) : (classify bytes p options).IsPlain where
  length := (Sha256.hexDigest_spec bytes).1
  hash := (Sha256.hexDigest_spec bytes).2
  mediaType _ h := MediaType.ofPath_known hp h

theorem IsHashed.ne_hyphen {i : Fingerprint} (hi : i.IsHashed) :
    ∀ c ∈ i.hash.toList, decide (c ≠ '-') = true := by
  intro c hc
  rw [decide_eq_true_eq]
  rintro rfl
  exact absurd (hi.hash _ hc) (by decide)

/-- What follows the hash in a key. -/
def keyRest (i : Fingerprint) : List Char :=
  match i.mediaType with
  | none => []
  | some t => '-' :: (keyPart t).toList

theorem toList_cacheKey (i : Fingerprint) : i.cacheKey.toList = i.hash.toList ++ i.keyRest := by
  unfold cacheKey keyRest
  cases i.mediaType with
  | none => simp
  | some t => simp

theorem IsHashed.takeWhile_cacheKey {i : Fingerprint} (hi : i.IsHashed) :
    i.cacheKey.toList.takeWhile (· ≠ '-') = i.hash.toList := by
  rw [toList_cacheKey, List.takeWhile_append_of_pos hi.ne_hyphen]
  unfold keyRest
  cases i.mediaType with
  | none => simp
  | some t => simp

/-- A key tells the hash and the media type. -/
theorem IsPlain.of_cacheKey {i i' : Fingerprint} (hi : i.IsPlain) (hi' : i'.IsPlain)
    (h : i.cacheKey = i'.cacheKey) : i.hash = i'.hash ∧ i.mediaType = i'.mediaType := by
  have hhash : i.hash = i'.hash := by
    apply String.toList_inj.mp
    rw [← hi.takeWhile_cacheKey, ← hi'.takeWhile_cacheKey, h]
  have hrest : i.keyRest = i'.keyRest := by
    have hlists := congrArg String.toList h
    rw [toList_cacheKey, toList_cacheKey, hhash] at hlists
    exact List.append_cancel_left hlists
  refine ⟨hhash, ?_⟩
  unfold keyRest at hrest
  cases ht : i.mediaType with
  | none =>
    cases ht' : i'.mediaType with
    | none => rfl
    | some t' => simp [ht, ht'] at hrest
  | some t =>
    cases ht' : i'.mediaType with
    | none => simp [ht, ht'] at hrest
    | some t' =>
      simp only [ht, ht', List.cons.injEq, true_and] at hrest
      rw [MediaType.keyPart_injective (hi.mediaType t ht) (hi'.mediaType t' ht')
        (String.toList_inj.mp hrest)]

theorem IsHashed.of_mem_cacheKey {i : Fingerprint} (hi : i.IsHashed) {c : Char}
    (hc : c ∈ i.cacheKey.toList) : isKeyChar c = true ∨ c = '_' := by
  rw [toList_cacheKey, List.mem_append] at hc
  rcases hc with hc | hc
  · left
    rw [isKeyChar, hi.hash c hc]
    rfl
  · unfold keyRest at hc
    cases ht : i.mediaType with
    | none => simp [ht] at hc
    | some t =>
      simp only [ht, List.mem_cons, keyPart, String.toList_ofList, List.mem_map] at hc
      rcases hc with rfl | ⟨c', _, rfl⟩
      · exact Or.inl rfl
      · split
        · rename_i hkey
          exact Or.inl hkey
        · exact Or.inr rfl

/-- A key holds no separator of path components, so it names its file as it is. -/
theorem IsHashed.safeName_cacheKey {i : Fingerprint} (hi : i.IsHashed) :
    safeName i.cacheKey = i.cacheKey := by
  refine safeName_eq_self fun c hc => ⟨?_, ?_⟩
  · rintro rfl
    exact absurd (hi.of_mem_cacheKey hc) (by decide)
  · rintro rfl
    exact absurd (hi.of_mem_cacheKey hc) (by decide)

theorem utf8Size_of_isKeyChar {c : Char} (h : isKeyChar c = true ∨ c = '_') : c.utf8Size = 1 := by
  rw [Char.utf8Size_eq_one_iff]
  rcases h with h | rfl
  · unfold isKeyChar Char.isAlphanum Char.isAlpha Char.isUpper Char.isLower Char.isDigit at h
    simp only [Bool.or_eq_true, Bool.and_eq_true, decide_eq_true_eq] at h
    rcases h with (((⟨_, h⟩ | ⟨_, h⟩) | ⟨_, h⟩) | rfl) | rfl
    · exact UInt32.le_trans h (by decide)
    · exact UInt32.le_trans h (by decide)
    · exact UInt32.le_trans h (by decide)
    · decide
    · decide
  · decide

theorem utf8ByteSize_eq_length {cs : List Char} (h : ∀ c ∈ cs, c.utf8Size = 1) :
    (String.ofList cs).utf8ByteSize = cs.length := by
  induction cs with
  | nil => rfl
  | cons c cs ih =>
    have hsplit : String.ofList (c :: cs) = String.singleton c ++ String.ofList cs := by
      apply String.toList_inj.mp
      simp
    rw [hsplit, String.utf8ByteSize_append, String.utf8ByteSize_singleton,
      h c (List.mem_cons_self ..), ih fun c' hc' => h c' (List.mem_cons_of_mem _ hc'),
      List.length_cons, Nat.add_comm]

/-- The name of a key's file is not too long. -/
theorem IsPlain.short {i : Fingerprint} (hi : i.IsPlain) :
    ¬ Volume.nameLimit < (Store.fileName i.cacheKey).utf8ByteSize := by
  have hrest : i.keyRest.length ≤ 101 := by
    unfold keyRest
    cases ht : i.mediaType with
    | none => simp
    | some t =>
      have hlength := (MediaType.ofKeyPart_known _ (List.mem_map_of_mem (hi.mediaType t ht))).2
      simp [keyPart] at hlength ⊢
      omega
  have hsize := utf8ByteSize_eq_length fun c hc => utf8Size_of_isKeyChar (hi.of_mem_cacheKey hc)
  rw [String.ofList_toList, toList_cacheKey, List.length_append, hi.length] at hsize
  rw [Store.fileName, hi.safeName_cacheKey, String.utf8ByteSize_append, hsize,
    show (".json" : String).utf8ByteSize = 5 from rfl, Volume.nameLimit]
  omega

end Fingerprint

/-- Keys that share a place in a store are one key. -/
theorem Store.cacheKey_of_slotOf {i i' : Fingerprint} (hi : i.IsPlain) (hi' : i'.IsPlain)
    {s : Store} (h : s.slotOf i'.cacheKey = s.slotOf i.cacheKey) : i'.cacheKey = i.cacheKey := by
  cases s with
  | table database space isOpen => exact h
  | folder root space =>
    have hnames : safeName i'.cacheKey ++ ".json" = safeName i.cacheKey ++ ".json" := h
    have hlists := congrArg String.toList hnames
    rw [hi.safeName_cacheKey, hi'.safeName_cacheKey, String.toList_append, String.toList_append]
      at hlists
    exact String.toList_inj.mp (List.append_cancel_right hlists)

end AssetCompiler
