import AssetCompiler.Proofs.GuardedRuns
import AssetCompiler.Proofs.LoneCompilations
import AssetCompiler.Proofs.Sessions
import AssetCompiler.Proofs.StartingOrder

/-!
Files that are compiled together share flights: those with one key have the flight that the first of them in path
order has started, and the flights go on in any order. What a flight makes is what would have been made of the file
at first, and all that have a share in it are told the same.
-/
namespace AssetCompiler

variable {σ : Type}

namespace Host

open Concurrent

/-! What is visited -/

/-- What a visit comes to when nothing else is done. -/
def visited (h : Host) (crew : Crew σ) (w : World σ) (wanted : String → Bool) (file : String) :
    Except Failure Artifact :=
  if wanted file then h.made crew w file else .ok ⟨none, []⟩

/-! Flights -/

/-- How the flight for a file may stand, since a state of the world: it makes what would have been made at
first, and when it has landed with a result then this is served. -/
def StageFor (h : Host) (crew : Crew σ) (w₀ : World σ) (file : String) (s : Slot Cache) (i : Fingerprint)
    (w : World σ) : Stage → Prop
  | .looking => True
  | .fetching _ rest => s.cache.store.answer? w₀.volume i.cacheKey = none ∧ rest.ReadsOnly file ∧
    (rest.course crew w₀.volume w₀.tools).outcome = h.reduced crew w₀ file s i
  | .landed o => EndAlike (h.made crew w₀ file) o ∧
    ∀ a, o = .ok a → s.cache.store.answer? w.volume i.cacheKey = some (.ok a)

section Flying

variable {h : Host} {crew : Crew σ} {q : Path} {d : Location} {files : List String} {w₀ w : World σ}
variable {file : String} {s : Slot Cache} {i : Fingerprint}

/-- What progress leads to. -/
theorem Since.reached (hsince : h.Since crew q d files w₀ w) (ready : h.IsReadyFor q d w₀ files)
    (hsteady : crew.IsSteady) (hfile : file ∈ files) (hpicks : h.Picks w₀ file s i)
    (hlacks : s.cache.store.answer? w₀.volume i.cacheKey = none) {progress : Reduction.Progress}
    (hreads : progress.ReadsOnly file)
    (houtcome : progress.outcome crew w₀.volume w₀.tools = h.reduced crew w₀ file s i) :
    let reached := Flight.reached (h.errandFor file i s) w (.ok progress)
    h.Since crew q d files w₀ reached.2 ∧ h.ServesOn w.volume reached.2.volume ∧
      h.StageFor crew w₀ file s i reached.2 reached.1 := by
  cases progress with
  | waiting waited rest => exact ⟨hsince, servesOn_refl h _, hlacks, hreads, houtcome⟩
  | finished outcome =>
    cases outcome with
    | error e =>
      refine ⟨hsince, servesOn_refl h _, ?_, nofun⟩
      rw [hpicks.made_eq ready.tidy, hlacks, ← houtcome]
      exact .refl _
    | ok a =>
      obtain ⟨hend, hstored, hserves, hserved⟩ :=
        hsince.stored ready hsteady hfile hpicks hlacks houtcome.symm
      have hdeliver : ((h.errandFor file i s).deliver a).run w =
          ((put w s i.cacheKey a).1.map fun _ => a, { w with volume := (put w s i.cacheKey a).2 }) :=
        Errand.run_deliver_put _ (reduced_isWhole houtcome.symm).isPrecompiled w
      simp only [Flight.reached, hdeliver]
      refine ⟨hstored, hserves, hend, fun b hb => ?_⟩
      cases hput : (put w s i.cacheKey a).1 with
      | error e =>
        rw [hput] at hb
        cases hb
      | ok u =>
        rw [hput] at hb
        cases hb
        exact hserved hput

/-- What going on with a reduction leads to. -/
theorem Since.proceed (hsince : h.Since crew q d files w₀ w) (ready : h.IsReadyFor q d w₀ files)
    (hsteady : crew.IsSteady) (hfile : file ∈ files) (hpicks : h.Picks w₀ file s i)
    (hlacks : s.cache.store.answer? w₀.volume i.cacheKey = none) {rest : Reduction} (waited : Nat)
    (hreads : rest.ReadsOnly file)
    (houtcome : (rest.course crew w₀.volume w₀.tools).outcome = h.reduced crew w₀ file s i) :
    let reached := Flight.reached (h.errandFor file i s) ((rest.proceed crew waited).run w).2
      ((rest.proceed crew waited).run w).1
    h.Since crew q d files w₀ reached.2 ∧ h.ServesOn w.volume reached.2.volume ∧
      h.StageFor crew w₀ file s i reached.2 reached.1 := by
  obtain ⟨progress, hrun, hreads', houtcome'⟩ := hreads.proceed hsteady waited w w₀.tools
    ((ready.apart file hfile).read hsince.advances)
  have hkept := rest.keeps_proceed crew waited w
  simp only [Work.knowledge, Work.surroundings, Prod.mk.injEq] at hkept
  obtain ⟨⟨hvolume, -, hnow⟩, hdesks⟩ := hkept
  rw [hrun, ← hvolume]
  exact (hsince.congr_desks hvolume hnow hdesks).reached ready hsteady hfile hpicks hlacks hreads'
    (houtcome'.trans houtcome)

/-- The next part of a flight. -/
theorem Since.next (hsince : h.Since crew q d files w₀ w) (ready : h.IsReadyFor q d w₀ files)
    (hsteady : crew.IsSteady) (hfile : file ∈ files) (hpicks : h.Picks w₀ file s i) {stage : Stage}
    (hstage : h.StageFor crew w₀ file s i w stage) :
    let next := Flight.next crew (h.errandFor file i s) w stage
    h.Since crew q d files w₀ next.2 ∧ h.ServesOn w.volume next.2.volume ∧
      h.StageFor crew w₀ file s i next.2 next.1 := by
  cases stage with
  | landed o => exact ⟨hsince, servesOn_refl h _, hstage⟩
  | fetching waited rest =>
    exact hsince.proceed ready hsteady hfile hpicks hstage.1 waited hstage.2.1 hstage.2.2
  | looking =>
    unfold Flight.next
    cases hanswer : s.cache.store.answer? w.volume i.cacheKey with
    | some answer =>
      obtain ⟨journal, hstored⟩ := Errand.run_stored?_answer (e := h.errandFor file i s) hanswer
      have hlooked : h.Since crew q d files w₀ { w with journal := journal } :=
        hsince.congr_desks rfl rfl rfl
      have hmade := hsince.answered ready hsteady hfile hpicks hanswer
      rw [hstored]
      cases answer with
      | error e => exact ⟨hlooked, servesOn_refl h _, hmade ▸ .refl _, nofun⟩
      | ok a =>
        refine ⟨hlooked, servesOn_refl h _, hmade ▸ .refl _, fun b hb => ?_⟩
        cases hb
        exact hanswer
    | none =>
      obtain ⟨journal, hstored⟩ :=
        (h.errandFor file i s).run_stored? (Store.answer?_eq_none.mp hanswer)
      have hlooked : h.Since crew q d files w₀ { w with journal := journal } :=
        hsince.congr_desks rfl rfl rfl
      rw [hstored]
      exact hlooked.proceed ready hsteady hfile hpicks (hsince.lacks (hpicks.slot? ready.tidy) hanswer) 0
        (Reduction.readsOnly_passes h.next? h.settings.maxPasses _ 0 i s.transformer [] []) rfl

end Flying

/-! Visits together -/

/-- A flight is for a wanted file, the one of the request that started it. -/
structure Carries (h : Host) (crew : Crew σ) (wanted : String → Bool) (files : List String) (w₀ w : World σ)
    (starter : Nat) (key : FlightKey) (errand : Errand) (stage : Stage) : Prop where
  flight : ∃ file s i, files[starter]? = some file ∧ wanted file = true ∧ h.Picks w₀ file s i ∧
    key = (s.id, i.cacheKey) ∧ errand = h.errandFor file i s ∧ h.StageFor crew w₀ file s i w stage

/-- How a visit may end: with a result just where it would have ended so, and then this is served; and with
the failure of a visit of this or of an earlier file. -/
structure Tells (h : Host) (crew : Crew σ) (wanted : String → Bool) (files : List String) (w₀ w : World σ)
    (i : Nat) (file : String) (o : Except Failure Artifact) : Prop where
  result : ∀ a, o = .ok a ↔ h.visited crew w₀ wanted file = .ok a
  served : ∀ a s print, o = .ok a → wanted file = true → h.Picks w₀ file s print →
    s.cache.store.answer? w.volume print.cacheKey = some (.ok a)
  earlier : ∃ j ≤ i, ∃ file', files[j]? = some file' ∧ EndAlike (h.visited crew w₀ wanted file') o

/-- What is watched when files are visited together. -/
def agreeing (h : Host) (crew : Crew σ) (q : Path) (d : Location) (wanted : String → Bool)
    (files : List String) (w₀ : World σ) : Watch σ where
  fine := h.Since crew q d (files.filter wanted) w₀
  later w w' := h.ServesOn w.volume w'.volume
  wants i key := ∃ file s print, files[i]? = some file ∧ wanted file = true ∧ h.Picks w₀ file s print ∧
    key = (s.id, print.cacheKey)
  meant := h.Carries crew wanted files w₀
  told w i o := files[i]? = none ∧ o = .error .cancelled ∨
    ∃ file, files[i]? = some file ∧ h.Tells crew wanted files w₀ w i file o
  before j i := j ≤ i

section Agreeing

variable {h : Host} {crew : Crew σ} {q : Path} {d : Location} {wanted : String → Bool}
variable {files : List String} {w₀ w w' : World σ} {file : String} {i : Nat}

theorem Tells.of_self {o : Except Failure Artifact} (hi : files[i]? = some file)
    (hend : EndAlike (h.visited crew w₀ wanted file) o)
    (hserved : ∀ a s print, o = .ok a → wanted file = true → h.Picks w₀ file s print →
      s.cache.store.answer? w.volume print.cacheKey = some (.ok a)) :
    h.Tells crew wanted files w₀ w i file o :=
  ⟨hend.ok_iff, hserved, i, le_rfl, file, hi, hend⟩

theorem Tells.later {o : Except Failure Artifact} (htidy : h.IsTidy)
    (htells : h.Tells crew wanted files w₀ w i file o) (hserves : h.ServesOn w.volume w'.volume) :
    h.Tells crew wanted files w₀ w' i file o where
  result := htells.result
  served a s print ha hwanted hpicks :=
    hserves s.id s _ a (hpicks.slot? htidy) (htells.served a s print ha hwanted hpicks)
  earlier := htells.earlier

theorem mem_asked (hi : files[i]? = some file) (hwanted : wanted file = true) :
    file ∈ files.filter wanted :=
  List.mem_filter.mpr ⟨List.mem_of_getElem? hi, hwanted⟩

theorem visited_of_wanted (hwanted : wanted file = true) :
    h.visited crew w₀ wanted file = h.made crew w₀ file := if_pos hwanted

/-- The first part of a visit. -/
theorem Since.opensVisit (hsince : h.Since crew q d (files.filter wanted) w₀ w)
    (hmode : h.readOnly = false) (ready : h.IsReadyFor q d w₀ (files.filter wanted))
    (hi : files[i]? = some file) :
    h.Since crew q d (files.filter wanted) w₀ ((h.visit wanted file).run w).2 ∧
      h.ServesOn w.volume ((h.visit wanted file).run w).2.volume ∧
      (h.agreeing crew q d wanted files w₀).Opens ((h.visit wanted file).run w).2 i
        ((h.visit wanted file).run w).1 := by
  unfold visit
  by_cases hwanted : wanted file = true
  · have hfile := mem_asked hi hwanted
    rw [if_pos hwanted, openCompile, hmode, if_neg Bool.false_ne_true]
    have hopens := run_openFull_opening ready.tidy w file
    have hlooked : h.Since crew q d (files.filter wanted) w₀
        ((Work.fingerprint h.desk (Path.ofText file)).run w).2 :=
      hsince.looked ready.here file rfl rfl rfl
    have hkept := Work.keeps_fingerprint h.desk (Path.ofText file) w
    have hopening := opening_congr (hsince.prints file hfile)
    generalize ((Work.fingerprint h.desk (Path.ofText file)).run w).2 = w₁ at hopens hlooked hkept
    simp only [Work.surroundings, Prod.mk.injEq] at hkept
    obtain ⟨journal, hrun⟩ := hopens
    have hvolume : w₁.volume = w.volume := hkept.1
    rw [hrun, hopening]
    refine ⟨hlooked.congr_desks rfl rfl rfl, ?_, ?_⟩
    · change h.ServesOn w.volume w₁.volume
      exact hvolume.symm ▸ servesOn_refl h w.volume
    · have hfails : ∀ e, h.opening w₀ file = .error e → h.made crew w₀ file = .error e :=
        fun _ => made_of_error crew ready.tidy
      have hcases := h.opening_cases w₀ file
      generalize h.opening w₀ file = opening at hfails hcases ⊢
      rcases hcases with ⟨e, rfl, -⟩ | ⟨s, print, hpicks, rfl⟩
      · refine .inr ⟨file, hi, .of_self hi ?_ fun _ _ _ hok _ _ => ?_⟩
        · rw [visited_of_wanted hwanted, hfails e rfl]
          exact .refl _
        · cases hok
      · exact ⟨⟨file, s, print, hi, hwanted, hpicks, rfl⟩, ⟨file, s, print, hi, hwanted, hpicks, rfl, rfl,
          trivial⟩⟩
  · rw [if_neg hwanted]
    refine ⟨hsince, servesOn_refl h _, .inr ⟨file, hi, .of_self hi ?_ ?_⟩⟩
    · rw [visited, if_neg hwanted]
      exact .refl _
    · exact fun _ _ _ _ hwanted' => absurd hwanted' hwanted

theorem agreeing_rules (hmode : h.readOnly = false) (hsteady : crew.IsSteady)
    (ready : h.IsReadyFor q d w₀ (files.filter wanted)) :
    (h.agreeing crew q d wanted files w₀).Rules crew (h.visits wanted files) where
  stays w := servesOn_refl h w.volume
  goes _ _ _ := ServesOn.trans
  start i := le_rfl
  opens w i hsince := by
    rw [visits_eq]
    cases hi : files[i]? with
    | none => exact ⟨hsince, servesOn_refl h _, .inl ⟨hi, rfl⟩⟩
    | some file => exact hsince.opensVisit hmode ready hi
  notes w journal hsince := ⟨hsince.congr_desks rfl rfl rfl, servesOn_refl h _⟩
  carries w j key errand stage hsince hmeant := by
    obtain ⟨file, s, print, hj, hwanted, hpicks, hkey, rfl, hstage⟩ := hmeant.flight
    obtain ⟨hnext, hserves, hstage'⟩ := hsince.next ready hsteady (mem_asked hj hwanted) hpicks hstage
    exact ⟨hnext, hserves, file, s, print, hj, hwanted, hpicks, hkey, rfl, hstage'⟩
  keepsMeant w w' j key errand stage hserves hmeant := by
    obtain ⟨file, s, print, hj, hwanted, hpicks, hkey, herrand, hstage⟩ := hmeant.flight
    refine ⟨file, s, print, hj, hwanted, hpicks, hkey, herrand, ?_⟩
    cases stage with
    | looking => trivial
    | fetching waited rest => exact hstage
    | landed o => exact ⟨hstage.1, fun a ha => hserves s.id s _ a (hpicks.slot? ready.tidy) (hstage.2 a ha)⟩
  keepsTold w w' i o hserves htold :=
    htold.imp_right fun ⟨file, hi, htells⟩ => ⟨file, hi, htells.later ready.tidy hserves⟩
  tells w i j key errand o hsince hwants hbefore hmeant := by
    obtain ⟨file, s, print, hi, hwanted, hpicks, rfl⟩ := hwants
    obtain ⟨file', s', print', hj, hwanted', hpicks', hsame, -, hend, hserved⟩ := hmeant.flight
    -- one key: one slot, and one place in its store
    obtain ⟨hid, hkey⟩ := Prod.mk.inj hsame
    obtain rfl : s = s' := by
      have hs := hpicks.slot? ready.tidy
      rw [hid, hpicks'.slot? ready.tidy] at hs
      exact (Option.some.inj hs).symm
    have halike := ready.made_alike hsteady (mem_asked hj hwanted') (mem_asked hi hwanted) hpicks' hpicks
      (congrArg s.cache.store.slotOf hkey)
    refine .inr ⟨file, hi, fun a => ?_, fun a s'' print'' ha _ hpicks'' => ?_, j, hbefore, file', hj, ?_⟩
    · rw [visited_of_wanted hwanted, halike, hend.ok_iff]
    · obtain ⟨rfl, rfl⟩ := hpicks.unique hpicks''
      rw [hkey]
      exact hserved a ha
    · rw [visited_of_wanted hwanted']
      exact hend

theorem isSignal_visited (hquiet : crew.RaisesNoSignal)
    (ready : h.IsReadyFor q d w₀ (files.filter wanted)) (hi : files[i]? = some file) {e : Failure}
    (hvisited : h.visited crew w₀ wanted file = .error e) : e.isSignal = false := by
  by_cases hwanted : wanted file = true
  · rw [visited_of_wanted hwanted] at hvisited
    exact ready.isSignal_made hquiet (mem_asked hi hwanted) hvisited
  · rw [visited, if_neg hwanted] at hvisited
    cases hvisited

theorem isInterruption_of_endAlike {o o' : Except Failure Artifact} (hend : EndAlike o o')
    (hquiet : ∀ e, o = .error e → e.isSignal = false) : Machine.isInterruption o' = false := by
  cases o' with
  | ok a => rfl
  | error e =>
    have hsignal := hend.isSignal rfl hquiet
    cases e with
    | interrupted => cases hsignal
    | _ => rfl

theorem agreeing_isCalm (hquiet : crew.RaisesNoSignal)
    (ready : h.IsReadyFor q d w₀ (files.filter wanted)) :
    Machine.IsCalm (h.agreeing crew q d wanted files w₀) where
  told w i o htold := by
    rcases htold with ⟨-, rfl⟩ | ⟨file, -, htells⟩
    · rfl
    · obtain ⟨j, -, file', hj, hend⟩ := htells.earlier
      exact isInterruption_of_endAlike hend fun e he => isSignal_visited hquiet ready hj he
  meant w j key errand o hmeant := by
    obtain ⟨file, s, print, hj, hwanted, -, -, -, hend, -⟩ := hmeant.flight
    exact isInterruption_of_endAlike hend fun e he =>
      ready.isSignal_made hquiet (mem_asked hj hwanted) he

end Agreeing

end Host
end AssetCompiler
