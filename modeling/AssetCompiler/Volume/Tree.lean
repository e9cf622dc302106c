import AssetCompiler.Volume.Basic

/-!
Whole trees: what lies below a directory, in the order of component names, and the real path behind
a path with links in it.
-/
namespace AssetCompiler.Volume

/-- Component lists in the order of their first difference, a beginning before what it begins. -/
def before : List String → List String → Bool
  | [], _ => true
  | _ :: _, [] => false
  | a :: as, b :: bs => if a = b then before as bs else a < b

/-- The locations of all nodes strictly below a location, relative to it and in order. -/
def below (v : Volume) (l : Location) : List Location :=
  let inside := v.nodes.filterMap fun e =>
    if l.isPrefixOf e.1 && l.length < e.1.length then some (e.1.drop l.length) else none
  inside.mergeSort before

/-- The names in a directory. -/
def namesIn (v : Volume) (l : Location) : List String :=
  (v.below l).filterMap fun rest => match rest with | [name] => some name | _ => none

/-- Every path below a root, in order. Links are listed and not entered. -/
def paths (v : Volume) (root : Path) : List Path :=
  match v.stat root with
  | .ok (l, .directory) => (v.below l).map fun rest => ⟨root.root, root.parts ++ rest⟩
  | _ => []

/-- Every file below a root, in order; a link to a file counts as one. -/
def files (v : Volume) (root : Path) : List Path :=
  (v.paths root).filter fun p => match v.isFile p with | .ok b => b | .error _ => false

/-- Removes a node and all below it. -/
def dropTree (v : Volume) (l : Location) : Volume :=
  { v with nodes := v.nodes.filter fun e => !l.isPrefixOf e.1 }

/-- Removes what a path leads to, with all below it. A link is removed itself. -/
def removeTree (v : Volume) (p : Path) : Except Failure Volume :=
  about p <| match v.locate false p with
    | .error e => .error e
    | .ok l => if (v.nodeAt? l).isNone then .error .notFound else .ok (v.dropTree l)

/-- A step of the search for a real path: a name to follow, or the end of a link's target. -/
inductive Step
  | name (text : String)
  | finish (link : Location)

def Step.names (steps : List Step) : List String :=
  steps.filterMap fun s => match s with | .name n => some n | .finish _ => none

def Step.isFinish (l : Location) : Step → Bool
  | .finish l' => l' == l
  | .name _ => false

/-- Replaces links by their targets. A link that is met again inside its own target stays, and so
does all that follows it; what does not exist stays as it is. `atLink` goes on from a link along its
target, or gives none if there are too many. -/
def expandWith (v : Volume) (atLink : Location → List Step → Option Location) :
    Location → (steps : List Step) → Location
  | stand, [] => stand
  | stand, .finish _ :: rest => v.expandWith atLink stand rest
  | stand, .name ".." :: rest => v.expandWith atLink stand.dropLast rest
  | stand, .name name :: rest =>
    match v.nodeAt? (stand ++ [name]) with
    | some (.link target) =>
      if rest.any (Step.isFinish (stand ++ [name])) then stand ++ name :: Step.names rest
      else
        let t := Path.ofText target
        (atLink (if t.isAbsolute then [] else stand)
          (t.parts.map .name ++ .finish (stand ++ [name]) :: rest)).getD
            (stand ++ name :: Step.names rest)
    | _ => v.expandWith atLink (stand ++ [name]) rest

/-- Replaces so many links at most. -/
def expand (v : Volume) : (links : Nat) → Location → (steps : List Step) → Location
  | 0 => v.expandWith fun _ _ => none
  | links + 1 => v.expandWith fun stand steps => some (v.expand links stand steps)

/-- The absolute path without links that a path stands for. Fails where links lead in a circle. -/
def realPath (v : Volume) (p : Path) : Except Failure Path :=
  if hasZero p then .error (.badValue .zeroInPath)
  else
    let real : Path := ⟨"/", v.expand linkLimit (v.start p) (p.parts.map .name)⟩
    match v.stat real with
    | .error .tooManyLinks => .error (.symlinkLoop real.text)
    | _ => .ok real

end AssetCompiler.Volume
