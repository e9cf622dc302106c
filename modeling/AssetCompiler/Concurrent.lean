import AssetCompiler.Errand

/-!
Requests that are worked on together. Each step performs one pending job, and jobs that become due
are queued behind those that are pending. Requests for one key of one cache share a flight: the
first starts it, later ones join it, and while it is in the table nobody starts another. A request
that is given up leaves its flight alone. A limit on the requests under way is kept by permits,
which a settled request hands to the first one that waits.

`Step` performs any pending job, `runToRest` always the one that has waited longest.
-/
namespace AssetCompiler.Concurrent

/-- The key of a flight: the owner of the cache and the key in its store. -/
abbrev FlightKey := String × String

/-- What a flight is doing: about to look in the store, running a reduction, or landed. -/
inductive Stage
  | looking
  | fetching (waited : Nat) (rest : Reduction)
  | landed (outcome : Except Failure Artifact)

structure Flight where
  key : FlightKey
  errand : Errand
  stage : Stage
  waiters : List Nat

def Flight.outcome? (f : Flight) : Option (Except Failure Artifact) :=
  match f.stage with
  | .landed o => some o
  | _ => none

inductive Request
  | fresh
  | parked
  | busy (left : Nat) (outcome : Except Failure Artifact)
  | waiting (flight : Nat)
  | informed (outcome : Except Failure Artifact)
  | settled (outcome : Except Failure Artifact)
  deriving Inhabited

def Request.outcome? : Request → Option (Except Failure Artifact)
  | settled o => some o
  | _ => none

inductive Job
  | begin (request : Nat)
  | enter (request : Nat)
  | tick (request : Nat)
  | advance (flight : Nat)
  | forget (flight : Nat)
  | deliver (flight request : Nat)
  | resume (request : Nat)
  | cancel (request : Nat)
  deriving DecidableEq, Repr

/-- `permits` is absent if there is no limit; `active` counts the requests under way and `peak` is
the largest count so far. -/
structure Machine (σ : Type) where
  world : World σ
  queue : List Job
  requests : List Request
  flights : List Flight
  table : Keyed FlightKey Nat
  permits : Option Nat
  parked : List Nat
  active : Nat
  peak : Nat
  isInterrupted : Bool

namespace Machine

variable {σ : Type}

def push (m : Machine σ) (jobs : List Job) : Machine σ := { m with queue := m.queue ++ jobs }

def setRequest (m : Machine σ) (i : Nat) (r : Request) : Machine σ :=
  { m with requests := m.requests.set i r }

def request (m : Machine σ) (i : Nat) : Request := (m.requests[i]?).getD .fresh

def setFlight (m : Machine σ) (f : Nat) (flight : Flight) : Machine σ :=
  { m with flights := m.flights.set f flight }

/-- Runs an action on the world of the machine. -/
def act {α : Type} (m : Machine σ) (action : Work σ α) : Except Failure α × Machine σ :=
  let (r, w) := action.run m.world
  (r, { m with world := w })

def isInterruption : Except Failure Artifact → Bool
  | .error .interrupted => true
  | _ => false

/-- An interruption ends everything at once. -/
def halt (m : Machine σ) : Machine σ := { m with queue := [], isInterrupted := true }

/-- Gives a permit back, to the first request that waits for one. -/
def release (m : Machine σ) : Machine σ :=
  match m.permits with
  | none => m
  | some n =>
    match m.parked with
    | [] => { m with permits := some (n + 1) }
    | j :: rest => { m with parked := rest }.push [.enter j]

/-- A request that is under way ends. -/
def settle (m : Machine σ) (i : Nat) (outcome : Except Failure Artifact) : Machine σ :=
  let m := ({ m with active := m.active - 1 }.setRequest i (.settled outcome)).release
  if isInterruption outcome then m.halt else m

/-- Joins the flight for a key, or starts one. A flight that has landed already is not waited
for. -/
def share (m : Machine σ) (i : Nat) (key : FlightKey) (errand : Errand) : Machine σ :=
  match (m.table.find? key).bind fun f => (m.flights[f]?).map fun flight => (f, flight) with
  | some (f, flight) =>
    let m := (m.act (Work.report (.joining errand.file errand.key))).2
    match flight.outcome? with
    | some outcome => m.settle i outcome
    | none =>
      (m.setFlight f { flight with waiters := flight.waiters ++ [i] }).setRequest i (.waiting f)
  | none =>
    let f := m.flights.length
    let flight : Flight := ⟨key, errand, .looking, [i]⟩
    let m := { m with flights := m.flights ++ [flight], table := m.table.set key f }
    (m.setRequest i (.waiting f)).push [.advance f]

/-- The first part of a request. -/
def start (plan : Nat → Work σ Opening) (m : Machine σ) (i : Nat) : Machine σ :=
  let m := { m with active := m.active + 1, peak := max m.peak (m.active + 1) }
  match m.act (plan i) with
  | (.error e, m) => m.settle i (.error e)
  | (.ok (.settled outcome), m) => m.settle i outcome
  | (.ok (.busy 0 outcome), m) => m.settle i outcome
  | (.ok (.busy (n + 1) outcome), m) => (m.setRequest i (.busy n outcome)).push [.tick i]
  | (.ok (.shared owner errand), m) => m.share i (owner, errand.key) errand

/-- A request asks for a permit, where permits are needed. -/
def admission (plan : Nat → Work σ Opening) (m : Machine σ) (i : Nat) : Machine σ :=
  match m.permits with
  | none => m.start plan i
  | some 0 => { m with parked := m.parked ++ [i] }.setRequest i .parked
  | some (n + 1) =>
    if m.parked.isEmpty then { m with permits := some n }.start plan i
    else { m with parked := m.parked ++ [i] }.setRequest i .parked

/-- A flight ends: its entry in the table will be removed, then its waiters are told in the order in
which they came. -/
def land (m : Machine σ) (f : Nat) (flight : Flight) (outcome : Except Failure Artifact) :
    Machine σ :=
  let m := (m.setFlight f { flight with stage := .landed outcome }).push
    (.forget f :: flight.waiters.map (.deliver f))
  if isInterruption outcome then m.halt else m

/-- What a reduction's progress means for its flight. -/
def follow (m : Machine σ) (f : Nat) (flight : Flight) :
    Except Failure Reduction.Progress → Machine σ
  | .error e => m.land f flight (.error e)
  | .ok (.waiting waited rest) =>
    (m.setFlight f { flight with stage := .fetching waited rest }).push [.advance f]
  | .ok (.finished (.error e)) => m.land f flight (.error e)
  | .ok (.finished (.ok a)) =>
    let (outcome, m) := m.act (flight.errand.deliver a)
    m.land f flight outcome

/-- The next part of a flight. -/
def advance (crew : Crew σ) (m : Machine σ) (f : Nat) : Machine σ :=
  match m.flights[f]? with
  | none => m
  | some flight =>
    match flight.stage with
    | .landed _ => m
    | .fetching waited rest =>
      let (progress, m) := m.act (rest.proceed crew waited)
      m.follow f flight progress
    | .looking =>
      match m.act flight.errand.stored? with
      | (.error e, m) => m.land f flight (.error e)
      | (.ok (some a), m) => m.land f flight (.ok a)
      | (.ok none, m) =>
        let (progress, m) := m.act (flight.errand.work.proceed crew 0)
        m.follow f flight progress

/-- Performs one job. -/
def perform (crew : Crew σ) (plan : Nat → Work σ Opening) (m : Machine σ) : Job → Machine σ
  | .begin i => m.admission plan i
  | .enter i => m.start plan i
  | .tick i =>
    match m.request i with
    | .busy 0 outcome => m.settle i outcome
    | .busy (n + 1) outcome => (m.setRequest i (.busy n outcome)).push [.tick i]
    | _ => m
  | .advance f => m.advance crew f
  | .forget f =>
    match m.flights[f]? with
    | some flight => { m with table := m.table.erase flight.key }
    | none => m
  | .deliver f i =>
    match m.request i, (m.flights[f]?).bind Flight.outcome? with
    | .waiting f', some outcome =>
      if f' = f then (m.setRequest i (.informed outcome)).push [.resume i] else m
    | _, _ => m
  | .resume i =>
    match m.request i with
    | .informed outcome => m.settle i outcome
    | _ => m
  | .cancel i =>
    match m.request i with
    | .waiting _ => (m.setRequest i (.informed (.error .cancelled))).push [.resume i]
    | .informed _ => m.setRequest i (.informed (.error .cancelled))
    | _ => m

/-- Some pending job is performed. -/
inductive Step (crew : Crew σ) (plan : Nat → Work σ Opening) : Machine σ → Machine σ → Prop
  | perform (m : Machine σ) (before : List Job) (job : Job) (after : List Job)
      (pending : m.queue = before ++ job :: after) :
      Step crew plan m ({ m with queue := before ++ after }.perform crew plan job)

/-- Performs the pending jobs in turn until none is left. That this comes to an end is a theorem about
steps. -/
def runToRest (crew : Crew σ) (plan : Nat → Work σ Opening) : Machine σ → Machine σ :=
  @WellFounded.extrinsicFix _ (fun _ => Machine σ) (fun m => ⟨m⟩) (fun next m => Step crew plan m next)
    fun m run =>
      match hqueue : m.queue with
      | [] => m
      | job :: rest =>
        run ({ m with queue := rest }.perform crew plan job) (.perform m [] job rest hqueue)

/-- A machine with so many requests about to begin. -/
def initial (w : World σ) (count : Nat) (permits : Option Nat) : Machine σ :=
  { world := w
    queue := (List.range count).map .begin
    requests := List.replicate count .fresh
    flights := []
    table := []
    permits := permits
    parked := []
    active := 0
    peak := 0
    isInterrupted := false }

end Machine

/-- The outcomes of some requests, and the largest number of them that were under way at once. -/
structure Result where
  outcomes : List (Except Failure Artifact)
  peak : Nat

/-- What has come of the requests of a machine at rest. An interruption ends the whole. -/
def Machine.harvest {σ : Type} (m : Machine σ) : Work σ Result := do
  set m.world
  if m.isInterrupted then throw .interrupted
  return ⟨m.requests.map fun r => r.outcome?.getD (.error .cancelled), m.peak⟩

/-- The beginnings of requests by their numbers. -/
def numbered {σ : Type} (plans : List (Work σ Opening)) (i : Nat) : Work σ Opening :=
  (plans[i]?).getD (throw .cancelled)

/-- Works on requests together, at most `permits` at once; the jobs `extra` are pending behind their
beginnings. -/
def runTogether {σ : Type} (crew : Crew σ) (plans : List (Work σ Opening)) (permits : Option Nat)
    (extra : List Job) : Work σ Result := do
  let start := (Machine.initial (← get) plans.length permits).push extra
  (start.runToRest crew (numbered plans)).harvest

end AssetCompiler.Concurrent
