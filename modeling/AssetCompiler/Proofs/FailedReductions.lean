import AssetCompiler.Proofs.Turns

/-!
How reductions fail. All but the last exchange of a reduction went well, and the last one tells how the
reduction ended; where it went well too, the passes were used up.
-/
namespace AssetCompiler

/-- What keeps a file from being read is the file system's matter. -/
theorem Volume.readTextLossy_error {v : Volume} {p : Path} {e : Failure}
    (h : v.readTextLossy p = .error e) :
    (∃ issue, e = .file issue p.text) ∨ e = .badValue .zeroInPath := by
  have hread : v.read p = .error e := by
    unfold readTextLossy at h
    cases hread : v.read p with
    | error e' =>
      rw [hread] at h
      cases h
      rfl
    | ok bytes =>
      rw [hread] at h
      cases h
  unfold read about at hread
  split at hread
  · cases hread
    exact .inr rfl
  · split at hread
    · cases hread
    · cases hread
      exact .inl ⟨_, rfl⟩

namespace Reduction

variable {σ : Type}

/-- The types of the code that is transformed, in order. -/
def inputs (xs : List Exchange) : List (Option String) :=
  (xs.filter Exchange.isTransform).map (·.call.pass.mediaType)

/-- The outputs, in order. -/
def outputs (xs : List Exchange) : List Output := xs.filterMap Exchange.output?

/-- The type of the last output, or the type at the beginning where there is none. -/
def lastType (type : Option String) (xs : List Exchange) : Option String :=
  ((outputs xs).map Output.mediaType).getLastD type

section Turns

variable {f : Frame} {before : List Exchange} {x : Exchange} {turnout : Turnout} {o : Output}
variable {ds : List String}

theorem filter_keeps (h : ∀ y ∈ before, f.Keeps y) : before.filter Exchange.isTransform = [] := by
  rw [List.filter_eq_nil_iff]
  intro y hy htransform
  exact (h y hy).question (of_decide_eq_true htransform)

theorem filterMap_keeps (h : ∀ y ∈ before, f.Keeps y) : before.filterMap Exchange.output? = [] := by
  rw [List.filterMap_eq_nil_iff]
  intro y hy
  exact Exchange.output?_of_ne (h y hy).question

theorem Turn.all (h : Turn f before x turnout) : ∀ y ∈ before ++ [x], f.Has y := by
  rw [List.forall_mem_append]
  exact ⟨fun y hy => (h.keeps y hy).has, List.forall_mem_singleton.mpr h.has⟩

/-- What the exchanges of a pass have in common. -/
theorem Turn.about {file code : String} {t : Transformer} {index : Nat} {input : Option String}
    (h : Turn ⟨file, t, index, input, code⟩ before x turnout) : ∀ y ∈ before ++ [x],
      y.call.transformer = t ∧ y.call.file = file ∧ y.call.pass.file = file ∧
        y.call.pass.index = (index : Int) := by
  intro y hy
  obtain ⟨htransformer, hfile, hfile', -, hindex⟩ := (h.all y hy).pass
  exact ⟨htransformer, hfile, hfile', hindex⟩

/-- A pass transforms once at most. -/
theorem Turn.filter (h : Turn f before x turnout) :
    (before ++ [x]).filter Exchange.isTransform = [x].filter Exchange.isTransform := by
  rw [List.filter_append, filter_keeps h.keeps, List.nil_append]

theorem Turn.gives (h : Turn f before x (.made o ds)) : x.output? = some o := by
  cases h.tells with
  | made gives => exact gives

theorem Turn.filter_made (h : Turn f before x (.made o ds)) :
    (before ++ [x]).filter Exchange.isTransform = [x] := by
  have htransform : x.isTransform = true := decide_eq_true (Exchange.question_of_output? h.gives)
  rw [h.filter, List.filter_cons_of_pos htransform]
  rfl

theorem Turn.countP_made (h : Turn f before x (.made o ds)) :
    (before ++ [x]).countP Exchange.isTransform = 1 := by
  rw [List.countP_eq_length_filter, h.filter_made]
  rfl

theorem Turn.outputs_made (h : Turn f before x (.made o ds)) : outputs (before ++ [x]) = [o] := by
  unfold outputs
  rw [List.filterMap_append, filterMap_keeps h.keeps, List.filterMap_cons_some h.gives]
  rfl

/-- All exchanges of a pass go on where its output is not terminal and has a registered type. -/
theorem Turn.goesOn {next? : Option String → Option Transformer} {t : Transformer}
    (h : Turn f before x (.made o ds)) (hgoes : ¬ Terminal o.mediaType f.input)
    (hnext : next? o.mediaType = some t) : ∀ y ∈ before ++ [x], y.GoesOn next? := by
  obtain ⟨-, -, -, hinput, -⟩ := h.has.pass
  intro y hy
  rcases List.mem_append.mp hy with hy | hy
  · exact (h.keeps y hy).goesOn next?
  · cases List.mem_singleton.mp hy
    refine ⟨Exchange.failure?_of_output? h.gives, ?_, ?_⟩
    · intro hdeclines
      cases h.gives.symm.trans hdeclines.output?
    · intro o' ho'
      cases h.gives.symm.trans ho'
      rw [hinput, hnext]
      exact ⟨hgoes, rfl⟩

end Turns

section Passes

variable {next? : Option String → Option Transformer} {file : String} {limit : Int} {v : Volume}
variable {left index : Nat} {i : Fingerprint} {t : Transformer} {chain : List (Option String)}
variable {xs : List Exchange} {r : Except Failure Artifact}

/-- How the exchanges of the passes end: with one that concludes them, or before the first one since
the file cannot be read, or since no pass is left. -/
inductive Closes (next? : Option String → Option Transformer) (file : String) (limit : Int)
    (v : Volume) (left : Nat) (i : Fingerprint) (chain : List (Option String)) :
      List Exchange → Except Failure Artifact → Prop
  | last {before : List Exchange} {x : Exchange} {r : Except Failure Artifact}
      (goesOn : ∀ y ∈ before, y.GoesOn next?) (concludes : x.Concludes next? file r) :
      Closes next? file limit v left i chain (before ++ [x]) r
  | unread {e : Failure} (none : i.source = none)
      (unreadable : v.readTextLossy (Path.ofText file) = .error e) :
      Closes next? file limit v left i chain [] (.error e)
  | exhausted {xs : List Exchange} {types : List (Option String)}
      (goesOn : ∀ y ∈ xs, y.GoesOn next?) (used : xs.countP Exchange.isTransform = left)
      (listed : types = chain ++ inputs xs ++ [lastType i.mediaType xs]) :
      Closes next? file limit v left i chain xs (.error (.passLimit file types limit))

/-- The transformations belong to the passes from `index` on, in order. -/
theorem Unfolds.numbered (h : Unfolds next? file limit v left index i t chain xs r) :
    (xs.filter Exchange.isTransform).map (·.call.pass.index) =
      (List.range' index (xs.countP Exchange.isTransform)).map Int.ofNat := by
  induction h with
  | exhausted => rfl
  | unread none unreadable => rfl
  | @last _ _ _ _ _ _ _ x _ _ turn concludes =>
    obtain ⟨-, -, -, -, hindex⟩ := turn.has.pass
    rw [List.countP_eq_length_filter, turn.filter]
    cases htransform : x.isTransform with
    | true =>
      rw [List.filter_cons_of_pos htransform, List.filter_nil, List.map_singleton, hindex]
      rfl
    | false => rw [List.filter_cons_of_neg (Bool.eq_false_iff.mp htransform)]; rfl
  | onward turn goes registered rest ih =>
    obtain ⟨-, -, -, -, hindex⟩ := turn.has.pass
    rw [List.filter_append, List.map_append, ih, List.countP_append, turn.filter_made,
      turn.countP_made, List.map_singleton, hindex, Nat.add_comm 1, List.range'_succ]
    rfl

/-- All exchanges are about the file, in passes from `index` on. -/
theorem Unfolds.about (h : Unfolds next? file limit v left index i t chain xs r) :
    ∀ x ∈ xs, x.call.file = file ∧ x.call.pass.file = file ∧ (index : Int) ≤ x.call.pass.index := by
  induction h with
  | exhausted => exact List.forall_mem_nil _
  | unread none unreadable => exact List.forall_mem_nil _
  | last turn concludes =>
    intro y hy
    obtain ⟨-, hfile, hfile', hindex⟩ := turn.about y hy
    exact ⟨hfile, hfile', by omega⟩
  | onward turn goes registered rest ih =>
    refine List.forall_mem_append.mpr ⟨?_, ?_⟩
    · intro y hy
      obtain ⟨-, hfile, hfile', hindex⟩ := turn.about y hy
      exact ⟨hfile, hfile', by omega⟩
    · intro y hy
      obtain ⟨hfile, hfile', hindex⟩ := ih y hy
      exact ⟨hfile, hfile', by omega⟩

/-- The transformer of the first pass is the given one. -/
theorem Unfolds.first (h : Unfolds next? file limit v left index i t chain xs r) :
    ∀ x ∈ xs, x.call.pass.index = index → x.call.transformer = t := by
  cases h with
  | exhausted => exact List.forall_mem_nil _
  | unread none unreadable => exact List.forall_mem_nil _
  | last turn concludes =>
    intro y hy _
    exact (turn.about y hy).1
  | onward turn goes registered rest =>
    refine List.forall_mem_append.mpr ⟨?_, ?_⟩
    · intro y hy _
      exact (turn.about y hy).1
    · intro y hy hindex
      obtain ⟨-, -, hlater⟩ := rest.about y hy
      omega

/-- The transformer of each other pass is the one that is registered for the output before it. -/
theorem Unfolds.later (h : Unfolds next? file limit v left index i t chain xs r) :
    ∀ x ∈ xs, ∀ y ∈ xs, ∀ o, x.output? = some o →
      y.call.pass.index = x.call.pass.index + 1 → next? o.mediaType = some y.call.transformer := by
  induction h with
  | exhausted => exact List.forall_mem_nil _
  | unread none unreadable => exact List.forall_mem_nil _
  | last turn concludes =>
    intro x hx y hy o _ hnext
    obtain ⟨-, -, -, hindex⟩ := turn.about x hx
    obtain ⟨-, -, -, hindex'⟩ := turn.about y hy
    omega
  | @onward _ _ _ _ _ _ _ before x' o' ds later _ turn goes registered rest ih =>
    intro x hx y hy o hgives hnext
    rcases List.mem_append.mp hx with hx | hx
    · obtain ⟨-, -, -, hindex⟩ := turn.about x hx
      rcases List.mem_append.mp hy with hy | hy
      · obtain ⟨-, -, -, hindex'⟩ := turn.about y hy
        omega
      · -- Only the last exchange of the pass gives an output.
        have houtput : o = o' := by
          have hmem : o ∈ outputs (before ++ [x']) := List.mem_filterMap.mpr ⟨x, hx, hgives⟩
          rw [turn.outputs_made] at hmem
          exact List.mem_singleton.mp hmem
        rw [houtput, registered, rest.first y hy (by omega)]
    · obtain ⟨-, -, hindex⟩ := rest.about x hx
      rcases List.mem_append.mp hy with hy | hy
      · obtain ⟨-, -, -, hindex'⟩ := turn.about y hy
        omega
      · exact ih x hx y hy o hgives hnext

end Passes

section Classification

variable {next? : Option String → Option Transformer} {file : String} {limit : Int}
variable {v : Volume} {left : Nat} {i : Fingerprint} {chain : List (Option String)}
variable {xs : List Exchange} {r : Except Failure Artifact}

/-- An exchange after which the work does not go on concludes it. -/
theorem Closes.concludes (h : Closes next? file limit v left i chain xs r) {x : Exchange}
    (hx : x ∈ xs) (hstop : ¬ x.GoesOn next?) : x.Concludes next? file r := by
  cases h with
  | last goesOn concludes =>
    rcases List.mem_append.mp hx with hx | hx
    · exact absurd (goesOn x hx) hstop
    · cases List.mem_singleton.mp hx
      exact concludes
  | unread none unreadable => cases hx
  | exhausted goesOn used listed => exact absurd (goesOn x hx) hstop

/-- Nothing follows an exchange after which the work does not go on. -/
theorem Closes.stops (h : Closes next? file limit v left i chain xs r) {ys zs : List Exchange}
    {x : Exchange} (hxs : xs = ys ++ x :: zs) (hstop : ¬ x.GoesOn next?) : zs = [] := by
  have hx : x ∈ xs := by
    rw [hxs]
    exact List.mem_append_right ys (List.mem_cons_self)
  cases h with
  | last goesOn concludes =>
    rcases List.eq_nil_or_concat zs with hnil | ⟨zs', z, rfl⟩
    · exact hnil
    · rw [List.concat_eq_append, ← List.cons_append, ← List.append_assoc] at hxs
      have hbefore := (List.append_inj' hxs rfl).1
      refine absurd (goesOn x ?_) hstop
      rw [hbefore]
      exact List.mem_append_right ys (List.mem_cons_self)
  | unread none unreadable => cases hx
  | exhausted goesOn used listed => exact absurd (goesOn x hx) hstop

end Classification

end Reduction

namespace Host

namespace Styles

def settings : Settings :=
  ⟨⟨"/", ["cache"]⟩, .sqlite, false, 2, 8, "", "node_modules", 80, "INFO", "text", none, "10 MB", 3⟩

def loop : Transformer := ⟨1, .custom "Loop", "loop", "1", ["text/less"]⟩

def host : Host where
  settings := settings
  desk := 0
  readOnly := false
  registry :=
    ⟨[("text/less", "loop")], [("loop", ⟨loop, .table (Path.ofText "/cache.db") "loop-1" true, 0⟩)], none⟩

/-- Each transformation does what it is told for the number of its pass. -/
def crewOf (act : Int → Except Failure Json) : Crew Unit where
  respond c s :=
    match c.question with
    | .accepts => (⟨.ok (.bool true), []⟩, s)
    | .dependencies => (⟨.ok (Json.strings ["base.less"]), []⟩, s)
    | .transform => (⟨act c.pass.index, []⟩, s)
  pauses _ := 0

def looping : Crew Unit := crewOf fun _ => .ok (Output.toJson ⟨"a+", some "text/less"⟩)

def interrupted : Crew Unit := crewOf fun _ => .error .interrupted

def sheet : Fingerprint := Fingerprint.classify [97] ⟨"/", ["x.less"]⟩ .standard

def world : World Unit where
  volume := ⟨[(["x.less"], .file [97] 5)], [], 0⟩
  environment := []
  desks := []
  journal := []
  now := ⟨2024, 2, 29, 12, 0, 0, 0, none⟩
  tools := ()

/-- The types that a reduction went through until its passes were used up. -/
def usedUp? : Except Failure Artifact → Option (String × List (Option String) × Int)
  | .error (.passLimit file types limit) => some (file, types, limit)
  | _ => none

theorem eq_passLimit {r : Except Failure Artifact} {file : String} {types : List (Option String)}
    {limit : Int} (h : usedUp? r = some (file, types, limit)) :
    r = .error (.passLimit file types limit) := by
  unfold usedUp? at h
  split at h
  · cases h
    rfl
  · cases h

def isInterrupted {α : Type} : Except Failure α → Bool
  | .error .interrupted => true
  | _ => false

/-- What the two crews come to. -/
theorem computed : usedUp?
      ((host.reduction "/x.less" sheet loop).course looping world.volume world.tools).outcome =
        some ("/x.less", [some "text/less", some "text/less", some "text/less"], 2) ∧
    isInterrupted ((host.compileUncached interrupted "/x.less" sheet loop).run world).1 = true ∧
    (((host.reduction "/x.less" sheet loop).course interrupted world.volume
      world.tools).exchanges.any fun x => isInterrupted x.reply.outcome) = true := by
  decide +kernel

end Styles

end Host
end AssetCompiler
