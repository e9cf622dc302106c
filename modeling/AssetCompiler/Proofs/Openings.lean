import AssetCompiler.Proofs.Compilations

/-!
How compilations open. The fingerprint of a file does not depend on whose fingerprints are taken before, and by
it the slot is picked. So what a full compilation opens with follows from the file and from the world, whatever
a fingerprinter remembers.
-/
namespace AssetCompiler

variable {σ : Type}

namespace Work

variable {n : Nat} {w : World σ} {p p' real : Path} {bytes : List UInt8} {mtime : Int}

/-- The fingerprint that a file gets is the one that is remembered, if there is one. -/
theorem fingerprint_fst (h : w.volume.inspect p = .ok (real, bytes, mtime)) :
    ((fingerprint n p).run w).1 = .ok (((w.fingerprinter n).known? real.text bytes.length mtime).getD
      (Fingerprint.classify bytes real (w.fingerprinter n).options)) := by
  rw [run_fingerprint_at n h]
  cases (w.fingerprinter n).known? real.text bytes.length mtime <;> rfl

theorem run_fingerprint_journal (n : Nat) (p : Path) (w : World σ) (journal : List Log.Entry) :
    (fingerprint n p).run { w with journal := journal } =
      (((fingerprint n p).run w).1, { ((fingerprint n p).run w).2 with journal := journal }) := by
  cases hinspect : w.volume.inspect p with
  | error e =>
    rw [run_fingerprint_error (w := w) hinspect,
      run_fingerprint_error (w := { w with journal := journal }) hinspect]
  | ok found =>
    obtain ⟨real, bytes, mtime⟩ := found
    rw [run_fingerprint_at (w := w) n hinspect,
      run_fingerprint_at (w := { w with journal := journal }) n hinspect]
    have hdesk : ({ w with journal := journal } : World σ).fingerprinter n = w.fingerprinter n := rfl
    rw [hdesk]
    cases (w.fingerprinter n).known? real.text bytes.length mtime <;> rfl

/-- Fingerprints do not depend on which of them are taken before. -/
theorem fingerprint_other (hhere : AreProper w.volume.here) (hp : AreProper p.parts)
    (hp' : AreProper p'.parts) :
    ((fingerprint n p').run ((fingerprint n p).run w).2).1 = ((fingerprint n p').run w).1 := by
  cases hinspect : w.volume.inspect p with
  | error e => rw [run_fingerprint_error hinspect]
  | ok found =>
    obtain ⟨real, bytes, mtime⟩ := found
    rw [run_fingerprint_at n hinspect]
    cases hknown : (w.fingerprinter n).known? real.text bytes.length mtime with
    | some i => rfl
    | none =>
      simp only
      generalize hw' : ({ w with desks := w.desks.set n ((w.fingerprinter n).remember real.text
        ⟨bytes.length, mtime, Fingerprint.classify bytes real (w.fingerprinter n).options⟩) } :
          World σ) = w'
      have hvolume : w'.volume = w.volume := by rw [← hw']
      have hdesk : w'.fingerprinter n = (w.fingerprinter n).remember real.text
          ⟨bytes.length, mtime, Fingerprint.classify bytes real (w.fingerprinter n).options⟩ := by
        rw [← hw', World.fingerprinter, Keyed.find?_set_self, Option.getD_some]
      cases hinspect' : w.volume.inspect p' with
      | error e => rw [run_fingerprint_error hinspect', run_fingerprint_error (hvolume ▸ hinspect')]
      | ok found' =>
        obtain ⟨real', bytes', mtime'⟩ := found'
        rw [fingerprint_fst hinspect', fingerprint_fst (hvolume ▸ hinspect'), hdesk]
        by_cases htext : real'.text = real.text
        · -- the two paths lead to one file, which was unknown before
          obtain rfl : real' = real := Volume.realPath_unique hhere hhere hp' hp
            (Volume.inspect_ok.mp hinspect').1 (Volume.inspect_ok.mp hinspect).1 htext
          obtain ⟨rfl, rfl⟩ := Volume.inspect_unique hinspect hinspect'
          rw [hknown, known?_remember _ real'.text ⟨bytes'.length, mtime', _⟩]
          rfl
        · congr 2
          unfold Fingerprinter.known? Fingerprinter.remember
          simp only
          rw [Keyed.find?_set, if_neg htext]

end Work

namespace Host

/-- The fingerprint that a file gets. -/
def print (h : Host) (w : World σ) (file : String) : Except Failure Fingerprint :=
  ((Work.fingerprint h.desk (Path.ofText file)).run w).1

/-- The slot that is picked for a file, by its fingerprint. -/
def Picks (h : Host) (w : World σ) (file : String) (s : Slot Cache) (i : Fingerprint) : Prop :=
  h.print w file = .ok i ∧
    ∃ isFallback, h.registry.select? (Path.ofText file) i = some (s, isFallback)

/-- How a full compilation of a file opens. -/
def opening (h : Host) (w : World σ) (file : String) : Except Failure Opening :=
  match h.print w file with
  | .error e => .error e
  | .ok i =>
    match h.registry.select? (Path.ofText file) i with
    | some (s, _) => .ok (.shared s.id (h.errandFor file i s))
    | none => .error (.noTransformer file)

variable {h : Host} {w : World σ} {file : String}

theorem Picks.unique {s s' : Slot Cache} {i i' : Fingerprint} (hpicks : h.Picks w file s i)
    (hpicks' : h.Picks w file s' i') : s' = s ∧ i' = i := by
  obtain ⟨hprint, _, hselect⟩ := hpicks
  obtain ⟨hprint', _, hselect'⟩ := hpicks'
  obtain rfl := Except.ok.inj (hprint'.symm.trans hprint)
  rw [hselect] at hselect'
  cases hselect'
  exact ⟨rfl, rfl⟩

theorem Picks.slot? (htidy : h.IsTidy) {s : Slot Cache} {i : Fingerprint}
    (hpicks : h.Picks w file s i) : h.registry.slot? s.id = some s := by
  obtain ⟨-, _, hselect⟩ := hpicks
  exact htidy.slot?_of_select? hselect

/-- A file for which a slot is picked opens with the errand of the slot; another one fails. -/
theorem opening_cases (h : Host) (w : World σ) (file : String) :
    (∃ e, h.opening w file = .error e ∧
      (h.print w file = .error e ∨ e = .noTransformer file)) ∨
    ∃ s i, h.Picks w file s i ∧ h.opening w file = .ok (.shared s.id (h.errandFor file i s)) := by
  unfold opening Picks
  cases hprint : h.print w file with
  | error e => exact .inl ⟨e, rfl, .inl rfl⟩
  | ok i =>
    cases hselect : h.registry.select? (Path.ofText file) i with
    | none => exact .inl ⟨_, by simp only [hselect], .inr rfl⟩
    | some found =>
      obtain ⟨s, isFallback⟩ := found
      exact .inr ⟨s, i, ⟨rfl, isFallback, hselect⟩, by simp only [hselect]⟩

theorem Picks.opening {s : Slot Cache} {i : Fingerprint} (hpicks : h.Picks w file s i) :
    h.opening w file = .ok (.shared s.id (h.errandFor file i s)) := by
  obtain ⟨hprint, isFallback, hselect⟩ := hpicks
  unfold Host.opening
  rw [hprint]
  simp only [hselect]

theorem opening_congr {w' : World σ} (hprint : h.print w' file = h.print w file) :
    h.opening w' file = h.opening w file := by
  unfold opening
  rw [hprint]

/-- Opening a compilation takes the fingerprint of the file, and writes to the journal. -/
theorem run_openFull_opening (htidy : h.IsTidy) (w : World σ) (file : String) :
    ∃ journal, (h.openFull file).run w = (h.opening w file,
      { ((Work.fingerprint h.desk (Path.ofText file)).run w).2 with journal := journal }) := by
  have hreported := Work.run_fingerprint_journal h.desk (Path.ofText file) w
    (⟨Log.Context.none, .compiling file⟩ :: w.journal)
  have hkept := Work.keeps_fingerprint h.desk (Path.ofText file) w
  unfold openFull opening print
  rw [Action.run_bind_ok (Work.run_report _ w)]
  generalize hw₁ : ((Work.fingerprint h.desk (Path.ofText file)).run w).2 = w₁ at hreported hkept ⊢
  cases hprint : ((Work.fingerprint h.desk (Path.ofText file)).run w).1 with
  | error e =>
    rw [hprint] at hreported
    exact ⟨_, Action.run_bind_error (Action.run_bind_error hreported)⟩
  | ok i =>
    rw [hprint] at hreported
    have hagain : ∀ journal, (Work.fingerprint h.desk (Path.ofText file)).run
        { w₁ with journal := journal } = (.ok i, { w₁ with journal := journal }) := by
      intro journal
      exact Work.fingerprint_again (Prod.ext hprint hw₁) (congrArg Prod.fst hkept) rfl
    cases hselect : h.registry.select? (Path.ofText file) i with
    | none =>
      refine ⟨⟨Log.Context.none, .compiling file⟩ :: w.journal, ?_⟩
      simp only [hselect]
      refine Action.run_bind_error ?_
      unfold resolve select
      rw [Action.run_bind_ok hreported, hselect]
      rfl
    | some found =>
      obtain ⟨s, isFallback⟩ := found
      obtain ⟨journal, hresolve⟩ : ∃ journal, (h.resolve file).run
          { w with journal := ⟨Log.Context.none, .compiling file⟩ :: w.journal } =
          (.ok s, { w₁ with journal := journal }) := by
        unfold resolve select
        rw [Action.run_bind_ok hreported, hselect]
        cases isFallback <;> exact ⟨_, rfl⟩
      refine ⟨journal, ?_⟩
      rw [Action.run_bind_ok hresolve]
      unfold Cache.openFetch
      rw [htidy.desk s.id s (htidy.slot?_of_select? hselect), Action.run_bind_ok (hagain journal)]
      simp only [hselect]
      unfold errandFor
      rfl

end Host
end AssetCompiler
