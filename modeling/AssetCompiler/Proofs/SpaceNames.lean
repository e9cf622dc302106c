import AssetCompiler.Proofs.Tenancies
import AssetCompiler.Proofs.VersionBumps

/-!
The names of spaces. A space is named after the name and the version of its transformer, with a hyphen in
between. Where the hyphen can be found again, the space tells the two, and no result ever passes from one
transformer to another. Where the names or the versions have hyphens of their own, two transformers can
have one space, and then each is served what the other has made.
-/
namespace AssetCompiler

/-- A part before a separator and a part behind it can be told if the parts behind have none. -/
theorem append_cons_inj_right {α : Type} {a : α} {xs xs' ys ys' : List α} (h : a ∉ ys) (h' : a ∉ ys')
    (heq : xs ++ a :: ys = xs' ++ a :: ys') : xs = xs' ∧ ys = ys' := by
  rcases List.append_eq_append_iff.mp heq with ⟨zs, rfl, hrest⟩ | ⟨zs, rfl, hrest⟩
  · cases zs with
    | nil => exact ⟨(List.append_nil xs).symm, (List.cons.inj hrest).2⟩
    | cons z zs =>
      obtain ⟨rfl, rfl⟩ := List.cons.inj hrest
      simp at h
  · cases zs with
    | nil => exact ⟨List.append_nil xs', (List.cons.inj hrest).2.symm⟩
    | cons z zs =>
      obtain ⟨rfl, rfl⟩ := List.cons.inj hrest
      simp at h'

theorem append_cons_inj_left {α : Type} {a : α} {xs xs' ys ys' : List α} (h : a ∉ xs) (h' : a ∉ xs')
    (heq : xs ++ a :: ys = xs' ++ a :: ys') : xs = xs' ∧ ys = ys' := by
  have hreversed : ys.reverse ++ a :: xs.reverse = ys'.reverse ++ a :: xs'.reverse := by
    simpa using congrArg List.reverse heq
  have hparts := append_cons_inj_right (by simpa using h) (by simpa using h') hreversed
  exact ⟨List.reverse_inj.mp hparts.2, List.reverse_inj.mp hparts.1⟩

namespace Transformer

/-- The hyphens between names and versions are told from those in them: the versions have none, or the
names have none. -/
def AreHyphened (t t' : Transformer) : Prop :=
  ('-' ∉ t.version.toList ∧ '-' ∉ t'.version.toList) ∨
    ('-' ∉ t.name.toList ∧ '-' ∉ t'.name.toList)

theorem toList_space (t : Transformer) :
    t.space.toList = t.name.toList ++ '-' :: t.version.toList := by
  rw [space, String.toList_append, String.toList_append, List.append_assoc]
  rfl

theorem AreHyphened.of_space {t t' : Transformer} (h : AreHyphened t t') (hspace : t.space = t'.space) :
    t.name = t'.name ∧ t.version = t'.version := by
  have hlists := congrArg String.toList hspace
  rw [toList_space, toList_space] at hlists
  have hparts : t.name.toList = t'.name.toList ∧ t.version.toList = t'.version.toList := by
    rcases h with ⟨hversion, hversion'⟩ | ⟨hname, hname'⟩
    · exact append_cons_inj_right hversion hversion' hlists
    · exact append_cons_inj_left hname hname' hlists
  exact ⟨String.toList_inj.mp hparts.1, String.toList_inj.mp hparts.2⟩

/-- Two transformers whose stores can be told apart: where the stores are folders, there are no
separators of path components in the names and versions either. -/
structure AreTold (backend : Backend) (t t' : Transformer) : Prop where
  hyphened : AreHyphened t t'
  separators : backend = .sqlite ∨
    ∀ c ∈ t.space.toList ++ t'.space.toList, c ≠ '/' ∧ c ≠ '\\'

theorem AreTold.of_placeOf {backend : Backend} {d : Location} {t t' : Transformer}
    (h : AreTold backend t t')
    (hplace : Store.placeOf backend d t.space = Store.placeOf backend d t'.space) :
    t.name = t'.name ∧ t.version = t'.version := by
  refine h.hyphened.of_space ?_
  have hfolder : Store.Place.folder (d ++ [safeName t.space]) = .folder (d ++ [safeName t'.space]) →
      backend ≠ .sqlite → t.space = t'.space := by
    intro heq hbackend
    have hnames := (List.cons.inj (List.append_cancel_left (Store.Place.folder.inj heq))).1
    have hclear := h.separators.resolve_left hbackend
    rw [safeName_eq_self fun c hc => hclear c (List.mem_append_left _ hc),
      safeName_eq_self fun c hc => hclear c (List.mem_append_right _ hc)] at hnames
    exact hnames
  cases backend with
  | json => exact hfolder hplace nofun
  | sqlite => exact (Store.Place.rows.inj hplace).2
  | unknown name => exact hfolder hplace nofun

end Transformer

namespace Tenancy

variable {σ : Type} {t : Terms σ} {w₀ w : World σ} {hosts : List Host}

/-- Spaces tell names and versions where hyphens tell these. Then transformers never share results,
however many hosts there are over one directory of caches: what a call returns through a slot, this call
or an earlier one has made through a slot whose transformer has the same name and the same version. -/
theorem made_by_same_transformer (later : List (Visit σ)) {earlier : List (Visit σ)} {x : Visit σ}
    (ht : Tenancy t w₀ hosts (later ++ x :: earlier) w) {s : Slot Cache} {i : Fingerprint} {a : Artifact}
    (hreturns : x.Returns t.crew s i a) :
    (∀ p p' : Transformer, Transformer.AreHyphened p p' → p.name ≠ p'.name ∨ p.version ≠ p'.version →
      p.space ≠ p'.space) ∧
    ∃ y ∈ x :: earlier, ∃ s' i', y.Makes t.crew s' i' a ∧ i'.cacheKey = i.cacheKey ∧
      (Transformer.AreTold t.backend s'.transformer s.transformer →
        s'.transformer.name = s.transformer.name ∧
          s'.transformer.version = s.transformer.version) := by
  refine ⟨fun p p' hhyphened hdiffers hspace => ?_, ?_⟩
  · obtain ⟨hname, hversion⟩ := hhyphened.of_space hspace
    exact hdiffers.elim (fun hne => hne hname) fun hne => hne hversion
  · obtain ⟨y, hy, s', i', hmakes, hkey, hplace⟩ := ht.made_of_returns hreturns
    exact ⟨y, hy, s', i', hmakes, hkey, fun htold => htold.of_placeOf hplace⟩

/-! A host and a later one over the same caches -/

open Host.Bump in
def bumpTerms : Terms Unit :=
  ⟨crew, cacheRoot, cacheRoot, ["cache"], .sqlite, fun _ => True, fun _ => True⟩

open Host.Bump in
def planWith (p : Transformer) : Plan := ⟨typesWith p, none, none, given⟩

open Host.Bump in
theorem begins_bump : bumpTerms.Begins world :=
  .of_fresh (expandHome?_cacheRoot _) (by decide) nofun world_isDate rfl trivial

open Host.Bump in
theorem bump_run : Tenancy bumpTerms world [later, earlier]
    [⟨later, true, "/p.txt", rebuilt⟩, ⟨earlier, true, "/p.txt", built⟩]
    (Visit.run crew ⟨later, true, "/p.txt", rebuilt⟩).2 := by
  have hfirst : Tenancy bumpTerms world [earlier] [] built :=
    .build (planWith (second 1 "1")) (n := 0) (.start begins_bump) trivial rfl ⟨_, rfl⟩
      earlier_run isSeen_built.isRoot
  have hcompiled : (Visit.run crew ⟨earlier, true, "/p.txt", built⟩).2 = compiled := by
    have hmode : earlier.readOnly = false := (Host.of_run_build earlier_run).2.2.1
    rw [Visit.run_full, ← Host.run_compile_of_full hmode]
    exact compiled.eq_1.symm
  have hvisited : Tenancy bumpTerms world [earlier] [⟨earlier, true, "/p.txt", built⟩] compiled := by
    rw [← hcompiled]
    exact hfirst.visit true "/p.txt" List.mem_cons_self
  have hlater : Tenancy bumpTerms world [later, earlier] [⟨earlier, true, "/p.txt", built⟩] rebuilt := by
    obtain ⟨f, hf⟩ := (hvisited.holds.lodges earlier List.mem_cons_self).seated
    rw [(Host.of_run_build earlier_run).2.1] at hf
    exact .build (planWith (second 2 "2")) (n := 0) hvisited trivial rfl ⟨f, hf⟩ later_run
      isSeen_rebuilt.isRoot
  exact hlater.visit true "/p.txt" List.mem_cons_self

open Host.Bump in
/-- What the later host returns was made by a transformer of the same name and version. -/
theorem made_by_same_transformer_bump :
    (second 1 "1").space ≠ (second 2 "2").space ∧
    ∃ y ∈ [(⟨later, true, "/p.txt", rebuilt⟩ : Visit Unit), ⟨earlier, true, "/p.txt", built⟩],
      ∃ s' i', y.Makes crew s' i' result ∧ ('-' ∉ s'.transformer.version.toList →
        s'.transformer.name = "first" ∧ s'.transformer.version = "1") := by
  obtain ⟨s, isFallback, hselect, hname, hversion⟩ := of_slotFor slotFor_later
  have htaken : ((Work.fingerprint later.desk (Path.ofText "/p.txt")).run rebuilt).1 =
      .ok (Fingerprint.classify [97] ⟨"/", ["p.txt"]⟩ .standard) :=
    eq_ok_of_toOption (by decide +kernel)
  have hreturned : ((later.compileFull crew "/p.txt").run rebuilt).1 = .ok result := by
    rw [← Host.run_compile_of_full (Host.of_run_build later_run).2.2.1]
    obtain ⟨_, -, -, hserved⟩ := succession.served earlier_compiles slotFor_earlier slotFor_later rfl
    rw [hserved crew]
  obtain ⟨hspaces, y, hy, s', i', hmakes, -, hsame⟩ :=
    made_by_same_transformer [] bump_run
      (Visit.returns_of_full htaken hselect hreturned)
  refine ⟨hspaces _ _ (Or.inl ⟨by decide, by decide⟩) (Or.inr (by decide)), y, hy, s', i', hmakes,
    fun hhyphen => ?_⟩
  have hclear : '-' ∉ s.transformer.version.toList := by
    rw [hversion]
    decide
  rw [← hname, ← hversion]
  exact hsame ⟨Or.inl ⟨hhyphen, hclear⟩, Or.inl rfl⟩

end Tenancy

/-! Two transformers of one space -/

namespace Host.Hyphens

open Bump Volume

def one : Transformer := ⟨0, .custom "Tag", "a-b", "c", [MediaType.plainText]⟩

def two : Transformer := ⟨1, .custom "Tag", "a", "b-c", [MediaType.plainText]⟩

example : one.space = two.space := by decide

def buildWith (t : Transformer) : Work Unit Host :=
  build cacheRoot [(MediaType.plainText, t)] 0 none none given

def earlier : Host := (Work.left (buildWith one) world).1

def built : World Unit := (Work.left (buildWith one) world).2

/-- The host with the first transformer has compiled the file. -/
def compiled : World Unit := ((earlier.compileFull crew "/p.txt").run built).2

def later : Host := (Work.left (buildWith two) compiled).1

def rebuilt : World Unit := (Work.left (buildWith two) compiled).2

/-- The hosts are built and see the file, and the earlier one compiles it. Without a cache the later one
would make another result. -/
theorem computed : ((buildWith one).run world).1.isOk = true ∧
    ((buildWith two).run compiled).1.isOk = true ∧
    sees cacheRoot ["cache"] files built.volume = true ∧
    sees cacheRoot ["cache"] files rebuilt.volume = true ∧
    ((earlier.compileFull crew "/p.txt").run built).1.toOption =
      some ⟨some ⟨"ac", "text/css"⟩, []⟩ ∧
    slotFor earlier = some ("a-b", "c") ∧ slotFor later = some ("a", "b-c") ∧
    ((later.compileUncached crew "/p.txt"
      (Fingerprint.classify [97] ⟨"/", ["p.txt"]⟩ .standard) two).run rebuilt).1.toOption =
        some ⟨some ⟨"ab-c", "text/css"⟩, []⟩ := by
  decide +kernel

theorem earlier_run : (buildWith one).run world = (.ok earlier, built) := Work.run_eq_left computed.1

theorem later_run : (buildWith two).run compiled = (.ok later, rebuilt) :=
  Work.run_eq_left computed.2.1

theorem isSeen_built : IsSeen cacheRoot ["cache"] files built.volume := .of_sees computed.2.2.1

theorem isSeen_rebuilt : IsSeen cacheRoot ["cache"] files rebuilt.volume :=
  .of_sees computed.2.2.2.1

theorem compiled_run : ((earlier.compile crew "/p.txt").run built).2 = compiled := by
  rw [run_compile_of_full (of_run_build earlier_run).2.2.1]
  exact compiled.eq_1.symm

theorem succession :
    Succession [(MediaType.plainText, one)] [(MediaType.plainText, two)] earlier later built compiled
      rebuilt where
  built := earlier_run
  rooted := isSeen_built.isRoot
  there := isSeen_built.inspects ("/p.txt", _, _, _) List.mem_cons_self
  compiled := compiled_run
  rebuilt := later_run
  still := isSeen_rebuilt.inspects ("/p.txt", _, _, _) List.mem_cons_self

/-- The two transformers have other names and other versions, and one space. The host with the second one
returns what the first one has made, and would make another result. -/
theorem result_of_other_transformer_served :
    one.name ≠ two.name ∧ one.version ≠ two.version ∧ one.space = two.space ∧
    (buildWith one).run world = (.ok earlier, built) ∧
    (buildWith two).run compiled = (.ok later, rebuilt) ∧
    ((earlier.compileFull crew "/p.txt").run built).1 = .ok ⟨some ⟨"ac", "text/css"⟩, []⟩ ∧
    ((later.compileFull crew "/p.txt").run rebuilt).1 = .ok ⟨some ⟨"ac", "text/css"⟩, []⟩ ∧
    ((later.compileUncached crew "/p.txt"
      (Fingerprint.classify [97] ⟨"/", ["p.txt"]⟩ .standard) two).run rebuilt).1 =
        .ok ⟨some ⟨"ab-c", "text/css"⟩, []⟩ := by
  obtain ⟨-, -, -, -, hreturns, hslot, hslot', hanew⟩ := computed
  have hfirst := eq_ok_of_toOption hreturns
  have hsecond : ((later.compileFull crew "/p.txt").run rebuilt).1 =
      .ok ⟨some ⟨"ac", "text/css"⟩, []⟩ := by
    rw [← run_compile_of_full (of_run_build earlier_run).2.2.1] at hfirst
    obtain ⟨_, -, -, hserved⟩ := succession.served hfirst hslot hslot' (by decide)
    rw [← run_compile_of_full (of_run_build later_run).2.2.1, hserved crew]
  exact ⟨by decide, by decide, by decide, earlier_run, later_run, hfirst, hsecond,
    eq_ok_of_toOption hanew⟩

end Host.Hyphens
end AssetCompiler
