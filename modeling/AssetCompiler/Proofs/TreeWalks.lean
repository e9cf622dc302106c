import AssetCompiler.Proofs.LikeVolumes
import AssetCompiler.Proofs.Permits
import AssetCompiler.Walk

/-!
Walks over the files below a directory, for visitors whose visits come to what depends only on the file. However the
visits are interleaved, every file is visited once and no more visits are under way than the limit allows; and a walk
that visits one file after the other ends in the same way.
-/
namespace AssetCompiler

variable {σ : Type}

/-! The files below a directory -/

namespace Volume

theorem before_append (root a b : List String) : before (root ++ a) (root ++ b) = before a b := by
  induction root with
  | nil => rfl
  | cons x xs ih =>
    rw [List.cons_append, List.cons_append, before, if_pos rfl]
    exact ih

theorem mem_below {v : Volume} {l rest : Location} :
    rest ∈ v.below l ↔ rest ≠ [] ∧ (v.nodeAt? (l ++ rest)).isSome = true := by
  have hkeys : rest ≠ [] → ((v.nodeAt? (l ++ rest)).isSome = true ↔ l ++ rest ∈ v.nodes.keys) := by
    intro hrest
    rw [nodeAt?, if_neg (by simp [hrest]), Option.isSome_iff_ne_none, Ne, Keyed.find?_eq_none_iff, not_not]
  unfold below
  simp only [List.mem_mergeSort, List.mem_filterMap, Option.ite_none_right_eq_some, Bool.and_eq_true,
    List.isPrefixOf_iff_prefix, decide_eq_true_eq, Option.some.injEq]
  constructor
  · rintro ⟨⟨l', node⟩, hmem, ⟨⟨rest', rfl⟩, hlong⟩, hdrop⟩
    rw [List.drop_left] at hdrop
    subst hdrop
    have hrest : rest' ≠ [] := by
      rintro rfl
      simp at hlong
    exact ⟨hrest, (hkeys hrest).mpr (List.mem_map.mpr ⟨_, hmem, rfl⟩)⟩
  · rintro ⟨hrest, hthere⟩
    obtain ⟨⟨l', node⟩, hmem, rfl⟩ := List.mem_map.mp ((hkeys hrest).mp hthere)
    refine ⟨⟨l ++ rest, node⟩, hmem, ⟨List.prefix_append l rest, ?_⟩, List.drop_left⟩
    rw [List.length_append]
    exact Nat.lt_add_of_pos_right (List.length_pos_iff.mpr hrest)

/-- The files below a directory in path order, each of them once. -/
structure IsListing (v : Volume) (root : Path) (files : List Path) : Prop where
  nodup : files.Nodup
  sorted : files.Pairwise fun p q => before p.parts q.parts = true
  mem : ∀ l, v.stat root = .ok (l, .directory) → ∀ p, p ∈ files ↔
    v.isFile p = .ok true ∧ ∃ rest, rest ≠ [] ∧ (v.nodeAt? (l ++ rest)).isSome = true ∧
      p = ⟨root.root, root.parts ++ rest⟩

theorem isListing_files {v : Volume} (hnodes : v.nodes.keys.Nodup) (root : Path) :
    IsListing v root (v.files root) := by
  have hpaths : v.paths root = [] ∨ ∃ l, v.stat root = .ok (l, .directory) ∧
      v.paths root = (v.below l).map fun rest => ⟨root.root, root.parts ++ rest⟩ := by
    unfold paths
    split
    · rename_i l hstat
      exact .inr ⟨l, hstat, rfl⟩
    · exact .inl rfl
  have hinjective : Function.Injective fun rest : Location => (⟨root.root, root.parts ++ rest⟩ : Path) := by
    intro rest rest' heq
    exact List.append_cancel_left (Path.mk.inj heq).2
  unfold files
  refine ⟨?_, ?_, ?_⟩
  · refine List.Nodup.filter _ ?_
    rcases hpaths with hnone | ⟨l, -, hpaths⟩
    · exact hnone ▸ List.nodup_nil
    · exact hpaths ▸ (nodup_below hnodes l).map hinjective
  · refine List.Pairwise.filter _ ?_
    rcases hpaths with hnone | ⟨l, -, hpaths⟩
    · exact hnone ▸ List.Pairwise.nil
    · rw [hpaths, List.pairwise_map]
      simp only [before_append]
      exact pairwise_below v l
  · intro l hstat p
    have hbelow : v.paths root = (v.below l).map fun rest => ⟨root.root, root.parts ++ rest⟩ := by
      unfold paths
      rw [hstat]
    rw [List.mem_filter, hbelow, List.mem_map, and_comm]
    refine and_congr ?_ (exists_congr fun rest => ?_)
    · cases v.isFile p with
      | error e => simp
      | ok b => simp
    · rw [mem_below, and_assoc]
      exact and_congr_right fun _ => and_congr_right fun _ => eq_comm

end Volume

namespace Walk

/-- What an opening comes to that no one else has a share in. -/
def Comes (outcome : Except Failure Artifact) : Except Failure Opening → Prop
  | .error e => outcome = .error e
  | .ok (.settled o) | .ok (.busy _ o) => outcome = o
  | .ok (.shared _ _) => False

/-- A visitor: when it is called with a file it notes that in its book, it leaves the files as they are, and it ends
at once or gives way as often as it likes. What it comes to depends only on the file. -/
structure IsVisitor (outcome : String → Except Failure Artifact) (book : σ → List String)
    (visit : String → Work σ Opening) : Prop where
  comes : ∀ file w, Comes (outcome file) ((visit file).run w).1
  noted : ∀ file w, book ((visit file).run w).2.tools = file :: book w.tools
  files : ∀ file w, ((visit file).run w).2.volume = w.volume

/-- The same for a visitor that never gives way. -/
structure IsPlainVisitor (outcome : String → Except Failure Artifact) (book : σ → List String)
    (visit : String → Work σ Artifact) : Prop where
  comes : ∀ file w, ((visit file).run w).1 = outcome file
  noted : ∀ file w, book ((visit file).run w).2.tools = file :: book w.tools
  files : ∀ file w, ((visit file).run w).2.volume = w.volume

/-- How a walk has to end, and what it has to log, the newest first: with the number of files, or with the failure of
the first file that fails, and then the failures of later files are logged. -/
inductive Verdict (root : Path) (outcome : String → Except Failure Artifact) (files : List Path) :
    Except Failure Nat → List Log.Event → Prop
  | good (all : ∀ p ∈ files, ∃ a, outcome p.text = .ok a) :
      Verdict root outcome files (.ok files.length) [.visited files.length root.text]
  | bad {before : List Path} {p : Path} {after : List Path} {e : Failure} (split : files = before ++ p :: after)
      (good : ∀ q ∈ before, ∃ a, outcome q.text = .ok a) (first : outcome p.text = .error e) :
      Verdict root outcome files (.error e) (after.filterMap fun q =>
        match outcome q.text with
        | .error e => some (.visitFailed q.text e)
        | .ok _ => none).reverse

/-- The journal after some events, the newest first. -/
def logged (events : List Log.Event) (journal : List Log.Entry) : List Log.Entry :=
  events.map (fun event => ⟨Log.Context.none, event⟩) ++ journal

theorem run_reportAll (failures : List (Path × Failure)) (w : World σ) :
    (reportAll failures).run w = (.ok (), { w with
      journal := logged (failures.map fun f => .visitFailed f.1.text f.2).reverse w.journal }) := by
  induction failures generalizing w with
  | nil => rfl
  | cons failure rest ih =>
    unfold reportAll
    rw [Action.run_bind_ok (Work.run_report _ w), ih]
    simp [logged]

theorem failures_zip (outcome : String → Except Failure Artifact) (files : List Path) :
    failures (files.zip (files.map fun p => outcome p.text)) = files.filterMap fun p =>
      match outcome p.text with
      | .error e => some (p, e)
      | .ok _ => none := by
  unfold failures
  induction files with
  | nil => rfl
  | cons p rest ih =>
    cases hp : outcome p.text with
    | error e => simp [hp, ih]
    | ok a => simp [hp, ih]

/-- The end of a walk is the one that it has to have. -/
theorem conclude_verdict (root : Path) (outcome : String → Except Failure Artifact) (files : List Path) :
    ∃ r events, Verdict root outcome files r events ∧ ∀ w : World σ,
      (conclude root (files.zip (files.map fun p => outcome p.text))).run w =
        (r, { w with journal := logged events w.journal }) := by
  have hzip := failures_zip outcome files
  unfold conclude
  cases hfailures : failures (files.zip (files.map fun p => outcome p.text)) with
  | nil =>
    rw [hfailures] at hzip
    refine ⟨.ok files.length, _, .good ?_, fun w => ?_⟩
    · intro p hp
      have hnone := List.filterMap_eq_nil_iff.mp hzip.symm p hp
      cases hp : outcome p.text with
      | error e =>
        rw [hp] at hnone
        cases hnone
      | ok a => exact ⟨a, rfl⟩
    · have hlength : (files.zip (files.map fun p => outcome p.text)).length = files.length := by
        rw [List.length_zip, List.length_map, Nat.min_self]
      rw [hlength, Action.run_bind_ok (Work.run_report _ w)]
      rfl
  | cons failure later =>
    rw [hfailures] at hzip
    obtain ⟨before, p, after, rfl, hgood, hfirst, rfl⟩ := List.filterMap_eq_cons_iff.mp hzip.symm
    have hfails : outcome p.text = .error failure.2 := by
      cases hp : outcome p.text with
      | error e =>
        rw [hp] at hfirst
        cases hfirst
        rfl
      | ok a =>
        rw [hp] at hfirst
        cases hfirst
    refine ⟨.error failure.2, _, .bad rfl ?_ hfails, fun w => ?_⟩
    · intro q hq
      have hnone := hgood q hq
      cases hp : outcome q.text with
      | error e =>
        rw [hp] at hnone
        cases hnone
      | ok a => exact ⟨a, rfl⟩
    · rw [Action.run_bind_ok (run_reportAll _ w), List.map_filterMap]
      have hevents : (fun q : Path => Option.map (fun f : Path × Failure => Log.Event.visitFailed f.1.text f.2)
          (match outcome q.text with
            | .error e => some (q, e)
            | .ok _ => none)) = fun q => match outcome q.text with
              | .error e => some (.visitFailed q.text e)
              | .ok _ => none := by
        funext q
        cases outcome q.text <;> rfl
      rw [hevents]
      rfl

/-! One visit after the other -/

/-- Visits in turn come to what they have to, whatever they do to the world. -/
theorem run_visitEach {outcome : String → Except Failure Artifact} {book : σ → List String}
    {visit : String → Work σ Artifact} (hvisit : IsPlainVisitor outcome book visit)
    (hsignals : ∀ file e, outcome file = .error e → e.isSignal = false) (files : List Path) (w : World σ) :
    ∃ w', (visitEach visit files).run w = (.ok (files.zip (files.map fun p => outcome p.text)), w') ∧
      book w'.tools = (files.map Path.text).reverse ++ book w.tools ∧ w'.volume = w.volume := by
  induction files generalizing w with
  | nil => exact ⟨w, rfl, rfl, rfl⟩
  | cons p rest ih =>
    obtain ⟨w', hrest, hbook, hvolume⟩ := ih ((visit p.text).run w).2
    have hnoted := hvisit.noted p.text w
    refine ⟨w', ?_, ?_, hvolume.trans (hvisit.files p.text w)⟩
    · unfold visitEach
      rw [Action.run_bind_ok (Work.run_outcome _ w), hvisit.comes]
      cases hp : outcome p.text with
      | ok a =>
        simp only
        rw [Action.run_bind_ok hrest, List.map_cons, List.zip_cons_cons, hp]
        rfl
      | error e =>
        simp only [hsignals p.text e hp, Bool.false_eq_true, if_false]
        rw [Action.run_bind_ok hrest, List.map_cons, List.zip_cons_cons, hp]
        rfl
    · rw [hbook, hnoted, List.map_cons, List.reverse_cons, List.append_assoc]
      rfl

end Walk

/-! Visits that are interleaved -/

namespace Concurrent

/-- A request has begun. -/
def Request.hasBegun : Request → Bool
  | .fresh | .parked => false
  | _ => true

namespace Machine

/-- The visits so far: those that have begun are noted, and come to what they have to. -/
structure Visits (outcome : String → Except Failure Artifact) (book : σ → List String) (w : World σ)
    (files : List String) (m : Machine σ) : Prop where
  noted : ∃ begun : List Nat, book m.world.tools = begun.filterMap (files[·]?) ++ book w.tools ∧
    begun.Nodup ∧ ∀ i, i ∈ begun ↔ i < files.length ∧ (m.request i).hasBegun = true
  volume : m.world.volume = w.volume
  comes : ∀ (i : Nat) (file : String), files[i]? = some file → (m.request i).hasBegun = true →
    (∃ n, m.request i = .busy n (outcome file)) ∨ m.request i = .settled (outcome file)
  calm : m.isInterrupted = false
  flights : m.flights = []

section Visiting

variable {outcome : String → Except Failure Artifact} {book : σ → List String} {visit : String → Work σ Opening}
variable {crew : Crew σ} {w : World σ} {files : List String} {m m' : Machine σ} {i limit : Nat} {file : String}

theorem Visits.same (h : Visits outcome book w files m) (hworld : m'.world = m.world)
    (hrequests : m'.requests = m.requests) (hcalm : m'.isInterrupted = m.isInterrupted)
    (hflights : m'.flights = m.flights) :
    Visits outcome book w files m' := by
  have hrequest : ∀ j, m'.request j = m.request j := request_congr hrequests
  refine ⟨?_, hworld ▸ h.volume, ?_, hcalm.trans h.calm, hflights.trans h.flights⟩
  · simp only [hworld, hrequest]
    exact h.noted
  · simp only [hrequest]
    exact h.comes

/-- A request waits for a permit before it begins. -/
theorem Visits.parks (h : Visits outcome book w files m) (hi : i < m.requests.length)
    (hfresh : (m.request i).hasBegun = false) (hworld : m'.world = m.world)
    (hrequests : m'.requests = m.requests.set i .parked) (hcalm : m'.isInterrupted = m.isInterrupted)
    (hflights : m'.flights = m.flights) :
    Visits outcome book w files m' := by
  have hself : m'.request i = .parked := by
    rw [request_congr (m := m.setRequest i .parked) hrequests]
    exact request_setRequest_self hi _
  have hothers : ∀ j ≠ i, m'.request j = m.request j := fun j hj => by
    rw [request_congr (m := m.setRequest i .parked) hrequests]
    exact request_setRequest_of_ne m hj _
  have hbegun : ∀ j, (m'.request j).hasBegun = (m.request j).hasBegun := by
    intro j
    by_cases hji : j = i
    · subst hji
      rw [hself, hfresh]
      rfl
    · rw [hothers j hji]
  refine ⟨?_, hworld ▸ h.volume, ?_, hcalm.trans h.calm, hflights.trans h.flights⟩
  · simp only [hworld, hbegun]
    exact h.noted
  · intro j file hj hbegins
    have hji : j ≠ i := by
      rintro rfl
      rw [hself] at hbegins
      cases hbegins
    rw [hothers j hji] at hbegins ⊢
    exact h.comes j file hj hbegins

/-- A visit gives way or ends. It may have begun just now. -/
theorem Visits.comesTo (h : Visits outcome book w files m) (hi : i < m.requests.length)
    (hfile : files[i]? = some file) {r : Request}
    (hr : (∃ n, r = .busy n (outcome file)) ∨ r = .settled (outcome file))
    (hworld : (m.request i).hasBegun = true ∧ m'.world = m.world ∨
      (m.request i).hasBegun = false ∧ book m'.world.tools = file :: book m.world.tools ∧
        m'.world.volume = m.world.volume)
    (hrequests : m'.requests = m.requests.set i r) (hcalm : m'.isInterrupted = m.isInterrupted)
    (hflights : m'.flights = m.flights) :
    Visits outcome book w files m' := by
  have hself : m'.request i = r := by
    rw [request_congr (m := m.setRequest i r) hrequests]
    exact request_setRequest_self hi _
  have hothers : ∀ j ≠ i, m'.request j = m.request j := fun j hj => by
    rw [request_congr (m := m.setRequest i r) hrequests]
    exact request_setRequest_of_ne m hj _
  have hbegins : (m'.request i).hasBegun = true := by
    rw [hself]
    rcases hr with ⟨n, rfl⟩ | rfl <;> rfl
  obtain ⟨begun, hbook, hnodup, hmem⟩ := h.noted
  refine ⟨?_, ?_, ?_, hcalm.trans h.calm, hflights.trans h.flights⟩
  · rcases hworld with ⟨hbegan, hworld⟩ | ⟨hfresh, hnoted, -⟩
    · refine ⟨begun, hworld ▸ hbook, hnodup, fun j => ?_⟩
      rw [hmem]
      by_cases hji : j = i
      · subst hji
        rw [hbegan, hbegins]
      · rw [hothers j hji]
    · refine ⟨i :: begun, ?_, ?_, fun j => ?_⟩
      · rw [hnoted, hbook, List.filterMap_cons_some hfile]
        rfl
      · refine List.nodup_cons.mpr ⟨fun hin => ?_, hnodup⟩
        rw [hmem, hfresh] at hin
        cases hin.2
      · rw [List.mem_cons, hmem]
        by_cases hji : j = i
        · subst hji
          simp only [true_or, hbegins, and_true, true_iff]
          exact (List.getElem?_eq_some_iff.mp hfile).1
        · rw [hothers j hji, or_iff_right hji]
  · rcases hworld with ⟨-, hworld⟩ | ⟨-, -, hvolume⟩
    · exact hworld ▸ h.volume
    · exact hvolume.trans h.volume
  · intro j file' hj hbegun
    by_cases hji : j = i
    · subst hji
      cases hfile.symm.trans hj
      rw [hself]
      exact hr
    · rw [hothers j hji] at hbegun ⊢
      exact h.comes j file' hj hbegun

theorem release_keeps (m : Machine σ) : m.release.world = m.world ∧ m.release.requests = m.requests ∧
    m.release.isInterrupted = m.isInterrupted ∧ m.release.flights = m.flights := by
  unfold Machine.release
  split
  · exact ⟨rfl, rfl, rfl, rfl⟩
  · split
    · exact ⟨rfl, rfl, rfl, rfl⟩
    · exact ⟨rfl, rfl, rfl, rfl⟩

theorem settle_keeps (m : Machine σ) (i : Nat) {o : Except Failure Artifact} (ho : isInterruption o = false) :
    (m.settle i o).world = m.world ∧ (m.settle i o).requests = m.requests.set i (.settled o) ∧
      (m.settle i o).isInterrupted = m.isInterrupted ∧ (m.settle i o).flights = m.flights := by
  unfold Machine.settle
  simp only
  rw [if_neg (by rw [ho]; exact nofun)]
  exact release_keeps _

section Performing

variable (hvisit : Walk.IsVisitor outcome book visit)
variable (hsignals : ∀ file e, outcome file = .error e → e.isSignal = false)

include hsignals in
theorem isInterruption_outcome (file : String) : isInterruption (outcome file) = false := by
  cases ho : outcome file with
  | ok a => rfl
  | error e =>
    have he := hsignals file e ho
    cases e <;> first | rfl | cases he

include hsignals in
theorem Visits.settle (h : Visits outcome book w files m) (hi : i < m.requests.length)
    (hfile : files[i]? = some file) (hbegun : (m.request i).hasBegun = true) :
    Visits outcome book w files (m.settle i (outcome file)) := by
  obtain ⟨hworld, hrequests, hcalm, hflights⟩ := settle_keeps m i (isInterruption_outcome hsignals file)
  exact h.comesTo hi hfile (.inr rfl) (.inl ⟨hbegun, hworld⟩) hrequests hcalm hflights

include hvisit hsignals in
/-- A visit begins. -/
theorem Visits.start (h : Visits outcome book w files m) (hi : i < m.requests.length)
    (hfile : files[i]? = some file) (hfresh : (m.request i).hasBegun = false) :
    Visits outcome book w files (m.start (numbered (files.map visit)) i) := by
  have hplan : numbered (files.map visit) i = visit file := by
    unfold numbered
    rw [List.getElem?_map, hfile]
    rfl
  have hcomes := hvisit.comes file m.world
  have hbegins : ∀ m' r, ((∃ n, r = .busy n (outcome file)) ∨ r = .settled (outcome file)) →
      m'.world = ((visit file).run m.world).2 → m'.requests = m.requests.set i r →
      m'.isInterrupted = m.isInterrupted → m'.flights = m.flights → Visits outcome book w files m' := by
    intro m' r hr hworld hrequests hcalm hflights
    refine h.comesTo hi hfile hr (.inr ⟨hfresh, ?_, ?_⟩) hrequests hcalm hflights
    · rw [hworld]
      exact hvisit.noted file m.world
    · rw [hworld]
      exact hvisit.files file m.world
  unfold Machine.start Machine.act
  simp only [hplan]
  rcases hrun : (visit file).run m.world with ⟨opening, w'⟩
  rw [hrun] at hcomes
  have hsettles : ∀ o, outcome file = o → Visits outcome book w files
      ((m.counted w').settle i o) := by
    rintro _ rfl
    obtain ⟨hworld, hrequests, hcalm, hflights⟩ :=
      settle_keeps (m.counted w') i (isInterruption_outcome hsignals file)
    exact hbegins _ _ (.inr rfl) (hworld.trans (by rw [hrun]; rfl)) hrequests hcalm hflights
  rcases opening with e | opening
  · exact hsettles _ hcomes
  · cases opening with
    | settled o => exact hsettles _ hcomes
    | shared owner errand => exact hcomes.elim
    | busy pauses o =>
      cases pauses with
      | zero => exact hsettles _ hcomes
      | succ n =>
        cases hcomes
        exact hbegins _ _ (.inl ⟨n, rfl⟩) (by rw [hrun]; rfl) rfl rfl rfl

include hvisit hsignals in
theorem Visits.admission (h : Visits outcome book w files m) (hi : i < m.requests.length)
    (hfile : files[i]? = some file) (hfresh : (m.request i).hasBegun = false) :
    Visits outcome book w files (m.admission (numbered (files.map visit)) i) := by
  unfold Machine.admission
  split
  · exact h.start hvisit hsignals hi hfile hfresh
  · exact h.parks hi hfresh rfl rfl rfl rfl
  · rename_i n _
    split
    · have hgranted : Visits outcome book w files { m with permits := some n } := h.same rfl rfl rfl rfl
      exact hgranted.start hvisit hsignals hi hfile hfresh
    · exact h.parks hi hfresh rfl rfl rfl rfl

include hvisit hsignals in
/-- Whatever pending job is performed. -/
theorem Visits.perform (h : Visits outcome book w files m) (horderly : m.IsOrderly limit files.length)
    {before after : List Job} {job : Job} (hpending : m.queue = before ++ job :: after) :
    Visits outcome book w files
      ({ m with queue := before ++ after }.perform crew (numbered (files.map visit)) job) := by
  have hkeeps : Keeps limit files.length .empty m := horderly.resolve_left fun hended => by
    rw [h.calm] at hended
    cases hended.1
  have htaken : Visits outcome book w files { m with queue := before ++ after } := h.same rfl rfl rfl rfl
  -- the request of the job is one of the visits, and stands as the job is meant
  have hsuits : ∀ i, job.request? = some i → i < m.requests.length ∧ (∃ file, files[i]? = some file) ∧
      Suits [] i job (m.request i) := by
    intro i hi
    obtain ⟨hone, -, hsuited⟩ := hkeeps.attends.suits hpending hi
    have hlt := hkeeps.attends.known i (.inl (hone ▸ List.cons_ne_nil _ _))
    exact ⟨hkeeps.attends.length.symm ▸ hlt, ⟨files[i], List.getElem?_eq_getElem hlt⟩, h.flights ▸ hsuited⟩
  cases job with
  | begin i =>
    obtain ⟨hi, ⟨file, hfile⟩, hsuited⟩ := hsuits i rfl
    have hfresh : (m.request i).hasBegun = false := by
      generalize m.request i = r at hsuited
      cases hsuited
      rfl
    exact htaken.admission hvisit hsignals hi hfile hfresh
  | enter i =>
    obtain ⟨hi, ⟨file, hfile⟩, hsuited⟩ := hsuits i rfl
    have hfresh : (m.request i).hasBegun = false := by
      generalize m.request i = r at hsuited
      cases hsuited
      rfl
    exact htaken.start hvisit hsignals hi hfile hfresh
  | tick i =>
    obtain ⟨hi, ⟨file, hfile⟩, hsuited⟩ := hsuits i rfl
    have hcomes := h.comes i file hfile
    have hrequest : request { m with queue := before ++ after } i = m.request i := rfl
    unfold Machine.perform
    simp only [hrequest]
    generalize hr : m.request i = r at hsuited hcomes
    cases hsuited with
    | @tick n o =>
      have ho : o = outcome file := by
        rcases hcomes rfl with ⟨n, heq⟩ | heq <;> cases heq
        rfl
      subst ho
      have hbegun : (request { m with queue := before ++ after } i).hasBegun = true := by
        rw [hrequest, hr]
        rfl
      cases n with
      | zero => exact htaken.settle hsignals hi hfile hbegun
      | succ n => exact htaken.comesTo hi hfile (.inl ⟨n, rfl⟩) (.inl ⟨hbegun, rfl⟩) rfl rfl rfl
  | advance f =>
    have hnone : (Machine.flights { m with queue := before ++ after })[f]? = none := by
      rw [htaken.flights]
      rfl
    unfold Machine.perform Machine.advance
    simp only [hnone]
    exact htaken
  | forget f =>
    have hnone : (Machine.flights { m with queue := before ++ after })[f]? = none := by
      rw [htaken.flights]
      rfl
    unfold Machine.perform
    simp only [hnone]
    exact htaken
  | deliver f i =>
    obtain ⟨-, -, hsuited⟩ := hsuits i rfl
    generalize m.request i = r at hsuited
    cases hsuited with
    | deliver found => cases found
  | resume i =>
    obtain ⟨hi, ⟨file, hfile⟩, hsuited⟩ := hsuits i rfl
    have hcomes := h.comes i file hfile
    generalize m.request i = r at hsuited hcomes
    cases hsuited
    rcases hcomes rfl with ⟨n, heq⟩ | heq <;> cases heq
  | cancel i =>
    obtain ⟨-, -, hsuited⟩ := hsuits i rfl
    generalize m.request i = r at hsuited
    cases hsuited

include hvisit hsignals in
/-- All through a run. -/
theorem Visits.steps (h : Visits outcome book w files m) (horderly : m.IsOrderly limit files.length)
    (hsteps : Relation.ReflTransGen (Step crew (numbered (files.map visit))) m m') :
    Visits outcome book w files m' := by
  induction hsteps with
  | refl => exact h
  | tail hearlier hstep ih =>
    obtain ⟨before, job, after, hpending⟩ := hstep
    exact ih.perform hvisit hsignals (horderly.steps hearlier) hpending

end Performing

theorem Visits.initial (outcome : String → Except Failure Artifact) (book : σ → List String) (w : World σ)
    (files : List String) (permits : Option Nat) :
    Visits outcome book w files (Machine.initial w files.length permits) := by
  have hfresh : ∀ i, ((Machine.initial w files.length permits).request i).hasBegun = false := by
    intro i
    change (((List.replicate files.length Request.fresh)[i]?).getD .fresh).hasBegun = false
    rw [List.getElem?_replicate]
    split <;> rfl
  refine ⟨⟨[], rfl, List.nodup_nil, fun i => ?_⟩, rfl, ?_, rfl, rfl⟩
  · rw [hfresh]
    simp
  · intro i file _ hbegun
    rw [hfresh] at hbegun
    cases hbegun

theorem filterMap_range {α : Type} (l : List α) : (List.range l.length).filterMap (l[·]?) = l := by
  have hmap : (List.range l.length).map (l[·]?) = l.map some := by
    refine List.ext_getElem (by simp) fun i hi hi' => ?_
    rw [List.length_map] at hi'
    simp only [List.getElem_map, List.getElem_range, List.getElem?_eq_getElem hi']
  have hid : (List.range l.length).filterMap (l[·]?) = ((List.range l.length).map (l[·]?)).filterMap id := by
    rw [List.filterMap_map]
    rfl
  rw [hid, hmap, List.filterMap_map]
  exact List.filterMap_some

/-- When all visits have settled, each has been noted once, and their outcomes are those of the files. -/
theorem Visits.rest (h : Visits outcome book w files m) (hlength : m.requests.length = files.length)
    (hrest : ∀ i < files.length, ∃ o, m.request i = .settled o) :
    (∃ called, called.Perm files ∧ book m.world.tools = called ++ book w.tools) ∧
      m.requests = files.map fun file => .settled (outcome file) := by
  have hsettled : ∀ (i : Nat) (hi : i < files.length), m.request i = .settled (outcome files[i]) := by
    intro i hi
    obtain ⟨o, ho⟩ := hrest i hi
    have hcomes := h.comes i files[i] (List.getElem?_eq_getElem hi) (by rw [ho]; rfl)
    exact hcomes.resolve_left fun ⟨n, hbusy⟩ => by cases ho.symm.trans hbusy
  constructor
  · obtain ⟨begun, hbook, hnodup, hmem⟩ := h.noted
    refine ⟨begun.filterMap (files[·]?), ?_, hbook⟩
    have hall : begun.Perm (List.range files.length) := by
      refine (List.perm_ext_iff_of_nodup hnodup List.nodup_range).mpr fun i => ?_
      rw [hmem, List.mem_range, and_iff_left_iff_imp]
      intro hi
      rw [hsettled i hi]
      rfl
    calc (begun.filterMap (files[·]?)).Perm ((List.range files.length).filterMap (files[·]?)) := hall.filterMap _
      _ = files := filterMap_range files
  · refine List.ext_getElem (by rw [List.length_map, hlength]) fun i hi hi' => ?_
    rw [List.length_map] at hi'
    have hrequest : m.request i = m.requests[i] := by
      unfold request
      rw [List.getElem?_eq_getElem hi]
      rfl
    rw [← hrequest, hsettled i hi', List.getElem_map]

end Visiting
end Machine
end Concurrent

namespace Walk

open Concurrent (Machine numbered)

/-- The visits of a walk have been gone on with so far, always with any job that is pending. -/
def Interleaves (crew : Crew σ) (root : Path) (limit : Nat) (visit : String → Work σ Opening) (w : World σ) :
    Machine σ → Prop :=
  Relation.ReflTransGen (Machine.Step crew (numbered ((w.volume.files root).map fun p => visit p.text)))
    (Machine.initial w (w.volume.files root).length (some limit))

/-- What a walk comes to when its visits have come to rest. -/
def finish (root : Path) (files : List Path) (m : Machine σ) : Work σ Nat := do
  let result ← m.harvest
  conclude root (files.zip result.outcomes)

section Interleaving

variable {crew : Crew σ} {root : Path} {limit : Nat} {outcome : String → Except Failure Artifact}
variable {book : σ → List String} {visit : String → Work σ Opening} {w : World σ} {m : Machine σ}

theorem Interleaves.orderly (h : Interleaves crew root limit visit w m) :
    m.IsOrderly limit (w.volume.files root).length :=
  (Machine.IsOrderly.initial w _).steps h

theorem Interleaves.visits (h : Interleaves crew root limit visit w m) (hvisit : IsVisitor outcome book visit)
    (hsignals : ∀ file e, outcome file = .error e → e.isSignal = false) :
    Machine.Visits outcome book w ((w.volume.files root).map Path.text) m := by
  have horderly : (Machine.initial w ((w.volume.files root).map Path.text).length (some limit)).IsOrderly limit
      ((w.volume.files root).map Path.text).length := Machine.IsOrderly.initial w _
  have hsteps : Relation.ReflTransGen
      (Machine.Step crew (numbered (((w.volume.files root).map Path.text).map visit)))
      (Machine.initial w ((w.volume.files root).map Path.text).length (some limit)) m := by
    rw [List.map_map, List.length_map]
    exact h
  exact (Machine.Visits.initial outcome book w _ (some limit)).steps hvisit hsignals horderly hsteps

/-- The end of the visits of a walk. -/
theorem Interleaves.rest (h : Interleaves crew root limit visit w m) (hlimit : 0 < limit)
    (hvisit : IsVisitor outcome book visit)
    (hsignals : ∀ file e, outcome file = .error e → e.isSignal = false) (hrest : m.queue = []) :
    (∃ called, called.Perm ((w.volume.files root).map Path.text) ∧
      book m.world.tools = called ++ book w.tools) ∧
    m.requests = (w.volume.files root).map (fun p => .settled (outcome p.text)) ∧
    ∀ w', m.harvest.run w' =
      (.ok ⟨(w.volume.files root).map fun p => outcome p.text, m.peak⟩, m.world) := by
  have hvisits := h.visits hvisit hsignals
  have hlength : m.requests.length = (w.volume.files root).length := by
    rcases h.orderly with ⟨hended, -⟩ | hkeeps
    · cases hvisits.calm.symm.trans hended
    · exact hkeeps.attends.length
  have hsettled := hvisits.rest (by rw [hlength, List.length_map]) fun i hi => by
    rw [List.length_map] at hi
    exact h.orderly.rest hlimit hrest hvisits.calm hi
  rw [List.map_map] at hsettled
  obtain ⟨hbook, hrequests⟩ := hsettled
  refine ⟨hbook, hrequests, fun w' => ?_⟩
  unfold Machine.harvest
  rw [Action.run_bind_ok (Action.run_set w' _), if_neg (by rw [hvisits.calm]; exact nofun), hrequests,
    List.map_map]
  rfl

end Interleaving

/-- Walks for visitors whose visits come to what depends only on the file. The visitor is called once with each
file below the root; however the visits are interleaved they all settle, no more of them at once than the limit
allows, and the walk ends as it has to. A walk that visits one file after the other ends and logs the same. -/
theorem walks_alike (crew : Crew σ) {root : Path} {limit : Nat} (hlimit : 0 < limit)
    {outcome : String → Except Failure Artifact} {book : σ → List String} {visit : String → Work σ Opening}
    {plain : String → Work σ Artifact} (hvisit : IsVisitor outcome book visit)
    (hplain : IsPlainVisitor outcome book plain)
    (hsignals : ∀ file e, outcome file = .error e → e.isSignal = false) {w : World σ}
    (hroot : w.volume.isDirectory root = .ok true) (hnodes : w.volume.nodes.keys.Nodup) :
    Volume.IsListing w.volume root (w.volume.files root) ∧
    ∃ r events, Verdict root outcome (w.volume.files root) r events ∧
      -- every interleaving
      (∀ run : Nat → Machine σ, ∃ n,
        ¬ Machine.Step crew (numbered ((w.volume.files root).map fun p => visit p.text)) (run n) (run (n + 1))) ∧
      (∀ m, Interleaves crew root limit visit w m → m.underWay ≤ limit ∧ m.peak ≤ limit ∧ (m.queue = [] →
        (∃ called, called.Perm ((w.volume.files root).map Path.text) ∧
          book m.world.tools = called ++ book w.tools) ∧
        m.requests = (w.volume.files root).map (fun p => .settled (outcome p.text)) ∧
        m.world.volume = w.volume ∧
        ∀ w', (finish root (w.volume.files root) m).run w' =
          (r, { m.world with journal := logged events m.world.journal }))) ∧
      -- the one in which always the job goes on that has waited longest
      (∃ m, Interleaves crew root limit visit w m ∧ m.queue = [] ∧ (together crew root limit visit).run w =
        (.ok (r, m.peak), { m.world with journal := logged events m.world.journal })) ∧
      -- one visit after the other
      ∃ w' : World σ, (oneByOne root plain).run w = (r, { w' with journal := logged events w'.journal }) ∧
        book w'.tools = ((w.volume.files root).map Path.text).reverse ++ book w.tools ∧
        w'.volume = w.volume := by
  obtain ⟨r, events, hverdict, hconclude⟩ :=
    conclude_verdict (σ := σ) root outcome (w.volume.files root)
  have hchecked : (checkRoot root).run w = (.ok (), w) := by
    unfold checkRoot
    rw [Action.run_bind, Work.run_look, hroot]
    rfl
  have hfiles : (files root : Work σ (List Path)).run w = (.ok (w.volume.files root), w) := rfl
  have hends : ∀ m, Interleaves crew root limit visit w m → m.queue = [] → ∀ w',
      (finish root (w.volume.files root) m).run w' =
        (r, { m.world with journal := logged events m.world.journal }) := by
    intro m hm hrest w'
    unfold finish
    rw [Action.run_bind_ok ((hm.rest hlimit hvisit hsignals hrest).2.2 w'), hconclude]
  refine ⟨Volume.isListing_files hnodes root, r, events, hverdict, Machine.exists_not_step crew _, ?_, ?_, ?_⟩
  · intro m hm
    have hvisits := hm.visits hvisit hsignals
    have hkeeps : Machine.Keeps limit (w.volume.files root).length .empty m :=
      hm.orderly.resolve_left fun hended => by cases hvisits.calm.symm.trans hended.1
    refine ⟨hkeeps.underWay_le, hkeeps.counts.peak, fun hrest => ?_⟩
    obtain ⟨hbook, hrequests, -⟩ := hm.rest hlimit hvisit hsignals hrest
    exact ⟨hbook, hrequests, hvisits.volume, hends m hm hrest⟩
  · have hrun := Concurrent.run_runTogether crew
      ((w.volume.files root).map fun p => visit p.text) (some limit) [] w
    rw [List.length_map, Machine.push_nil] at hrun
    obtain ⟨hsteps, hrest⟩ := Machine.steps_runToRest crew
      (numbered ((w.volume.files root).map fun p => visit p.text))
      (Machine.initial w (w.volume.files root).length (some limit))
    generalize (Machine.initial w (w.volume.files root).length (some limit)).runToRest crew
      (numbered ((w.volume.files root).map fun p => visit p.text)) = m at hsteps hrest hrun
    have hm : Interleaves crew root limit visit w m := hsteps
    rw [(hm.rest hlimit hvisit hsignals hrest).2.2 w] at hrun
    have hnat : ¬ (limit : Int) < 0 := by omega
    refine ⟨m, hm, hrest, ?_⟩
    unfold together
    simp only [hnat, if_false, Int.toNat_natCast]
    rw [Action.run_bind_ok hchecked, Action.run_bind_ok hfiles, Action.run_bind_ok hrun,
      Action.run_bind_ok (Work.run_outcome _ m.world), hconclude]
    rfl
  · obtain ⟨w', hvisits, hbook, hvolume⟩ := run_visitEach hplain hsignals (w.volume.files root) w
    refine ⟨w', ?_, hbook, hvolume⟩
    unfold oneByOne
    rw [Action.run_bind_ok hchecked, Action.run_bind_ok hfiles, Action.run_bind_ok hvisits, hconclude]

section Small

/-- A directory with two files; the tools are the book of the visitor. -/
def smallTree : World (List String) where
  volume := ⟨[(["d"], .directory), (["d", "a"], .file [] 0), (["d", "b"], .file [] 0)], [], 0⟩
  environment := []
  desks := []
  journal := []
  now := default
  tools := []

/-- The first file fails. -/
def smallOutcome (file : String) : Except Failure Artifact :=
  if file = "/d/a" then .error (.raised "RuntimeError" file) else .ok ⟨none, []⟩

/-- A visit that gives way before it ends. -/
def smallVisit (file : String) : Work (List String) Opening := do
  modify fun w => { w with tools := file :: w.tools }
  return .busy 1 (smallOutcome file)

def smallPlain (file : String) : Work (List String) Artifact := do
  modify fun w => { w with tools := file :: w.tools }
  Work.lift (smallOutcome file)

def smallCrew : Crew (List String) := ⟨fun _ s => (⟨.ok .null, []⟩, s), fun _ => 0⟩

theorem smallVisit_isVisitor : IsVisitor smallOutcome id smallVisit :=
  ⟨fun _ _ => rfl, fun _ _ => rfl, fun _ _ => rfl⟩

theorem run_smallPlain (file : String) (w : World (List String)) :
    (smallPlain file).run w = (smallOutcome file, { w with tools := file :: w.tools }) := by
  unfold smallPlain
  rw [Action.run_bind_ok (Action.run_modify _ w), Work.run_lift]

theorem smallPlain_isPlainVisitor : IsPlainVisitor smallOutcome id smallPlain :=
  ⟨fun file w => by rw [run_smallPlain], fun file w => by rw [run_smallPlain]; rfl,
    fun file w => by rw [run_smallPlain]⟩

theorem smallOutcome_isNoSignal (file : String) (e : Failure) (h : smallOutcome file = .error e) :
    e.isSignal = false := by
  unfold smallOutcome at h
  split at h
  · cases h
    rfl
  · cases h

/-- With one visit at a time or in turn, the two files are visited and the walk ends in one way. -/
theorem walks_alike_small : 0 < 1 ∧ IsVisitor smallOutcome id smallVisit ∧
    IsPlainVisitor smallOutcome id smallPlain ∧
    (∀ file e, smallOutcome file = .error e → e.isSignal = false) ∧
    smallTree.volume.isDirectory (Path.ofText "/d") = .ok true ∧ smallTree.volume.nodes.keys.Nodup ∧
    ∃ r events, Verdict (Path.ofText "/d") smallOutcome (smallTree.volume.files (Path.ofText "/d")) r events ∧
      (∀ m, Interleaves smallCrew (Path.ofText "/d") 1 smallVisit smallTree m → m.queue = [] →
        ∀ w', ((finish (Path.ofText "/d") (smallTree.volume.files (Path.ofText "/d")) m).run w').1 = r) ∧
      ((oneByOne (Path.ofText "/d") smallPlain).run smallTree).1 = r := by
  have hroot : smallTree.volume.isDirectory (Path.ofText "/d") = .ok true := by rfl
  have hnodes : smallTree.volume.nodes.keys.Nodup := by decide
  obtain ⟨-, r, events, hverdict, -, hall, -, w', hplain, -⟩ := walks_alike smallCrew Nat.zero_lt_one
    smallVisit_isVisitor smallPlain_isPlainVisitor smallOutcome_isNoSignal hroot hnodes
  refine ⟨Nat.zero_lt_one, smallVisit_isVisitor, smallPlain_isPlainVisitor, smallOutcome_isNoSignal, hroot,
    hnodes, r, events, hverdict, fun m hm hrest w' => ?_, ?_⟩
  · rw [((hall m hm).2.2 hrest).2.2.2 w']
  · rw [hplain]

end Small

end Walk
end AssetCompiler
