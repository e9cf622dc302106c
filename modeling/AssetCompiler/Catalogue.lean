import AssetCompiler.Transformer

/-!
Catalogues of transformer classes. A catalogue lists modules by their dotted names, and for each
module what it has under a name. A class path, the name of a module and a name in it, leads to a
transformer.
-/
namespace AssetCompiler

/-- What a module has under a name. A class of transformers is given by its transformer, or by the
failure to make one. -/
inductive Member
  | transformers (sample : Except Failure Transformer)
  | blank
  | other
  deriving Inhabited

/-- Modules below a package are members of it. A module with a fault cannot be loaded. -/
structure Module where
  name : String
  isPackage : Bool
  fault : Option String
  members : List (String × Member)
  deriving Inhabited

abbrev Catalogue := List Module

namespace Catalogue

/-- What all modules are in. -/
def top : Module := ⟨"", true, none, []⟩

def module? (c : Catalogue) (name : String) : Option Module := c.find? fun m => m.name = name

/-- The pieces of a text between dots. -/
def pieces (s : List Char) : List (List Char) :=
  s.foldr (fun c acc =>
    if c = '.' then [] :: acc
    else match acc with
      | [] => [[c]]
      | p :: rest => (c :: p) :: rest) [[]]

/-- The dotted names that lead to a module, the outermost first and the module's own last. -/
def chain (around : List Char) : List (List Char) → List String
  | [] => []
  | p :: rest =>
    let name := if around.isEmpty then p else around ++ '.' :: p
    String.ofList name :: chain name rest

/-- Why a module that is not listed cannot be loaded from the one around it. -/
def absence (around : Module) (name : String) : String :=
  "No module named " ++ Text.quoted name ++
    (if around.isPackage then "" else "; " ++ Text.quoted around.name ++ " is not a package")

/-- Loads the modules of a chain one inside the other, and gives the last one. -/
def enter (c : Catalogue) (around : Module) : List String → Except String Module
  | [] => .ok around
  | name :: rest =>
    match c.module? name with
    | none => .error (absence around name)
    | some m =>
      match m.fault with
      | some reason => .error reason
      | none => enter c m rest

/-- Loads a module. Names that begin with a dot are refused. -/
def load (c : Catalogue) (name : String) : Except Failure Module :=
  if name.startsWith "." then .error (.relativeModule name)
  else match c.enter top (chain [] (pieces name.toList)) with
    | .ok m => .ok m
    | .error reason => .error (.load (.noModule name reason))

/-- What a module has under a name. -/
def member? (c : Catalogue) (m : Module) (name : String) : Option Member :=
  match m.members.lookup name with
  | some v => some v
  | none =>
    if m.isPackage && (c.module? (m.name ++ "." ++ name)).isSome then some .other else none

/-- The name of the module and the name in it that a class path is made of. A colon may stand for a
dot; neither part may be empty. -/
def splitPath? (path : String) : Option (String × String) :=
  let s := path.toList.map fun c => if c = ':' then '.' else c
  let last := (s.reverse.takeWhile (· ≠ '.')).reverse
  let first := (s.take (s.length - last.length)).dropLast
  if last.isEmpty || first.isEmpty then none else some (String.ofList first, String.ofList last)

/-- The transformer under a class path, with a handle of its own. -/
def transformer (c : Catalogue) (handle : Nat) (path : String) : Except Failure Transformer := do
  match splitPath? path with
  | none => throw (.load (.badClassPath path))
  | some (moduleName, name) =>
    let m ← c.load moduleName
    match c.member? m name with
    | none | some .blank => throw (.load (.noClass name moduleName))
    | some .other => throw (.load (.notTransformer path))
    | some (.transformers sample) => return { (← sample) with handle := handle }

/-- The transformers under some class paths, with handles from a number on. -/
def transformers (c : Catalogue) (handle : Nat) : List String → Except Failure (List Transformer)
  | [] => return []
  | path :: rest => do
    let t ← c.transformer handle path
    return t :: (← c.transformers (handle + 1) rest)

/-! What every catalogue can offer -/

/-- The class of the passthrough. -/
def passthroughClass : Member := .transformers (.ok (.passthrough 0))

/-- The class of stand-ins. None can be made without a record to stand in for. -/
def standInClass : Member :=
  .transformers (.error (.notConstructible
    ("ReadOnlyTransformer.__init__() missing 3 required positional arguments: " ++
      "'name', 'version', and 'input_media_types'")))

/-- A class that leaves its work to others and has no transformers of its own. -/
def abstractClass (name : String) : Member :=
  .transformers (.error (.notConstructible ("Can't instantiate abstract class " ++ name ++
    " with abstract methods input_media_types, name, transform")))

/-- The classes that come with the compiler. -/
def standard : Catalogue :=
  let base := ("BaseTransformer", abstractClass "BaseTransformer")
  [⟨"assetpipe", true, none, []⟩, ⟨"assetpipe.transformers", true, none, []⟩,
   ⟨"assetpipe.transformers.base_transformer", false, none, [base]⟩,
   ⟨"assetpipe.transformers.passthrough", false, none,
     [base, ("PassthroughTransformer", passthroughClass)]⟩,
   ⟨"assetpipe.transformers.read_only", false, none, [base, ("ReadOnlyTransformer", standInClass)]⟩]

end Catalogue
end AssetCompiler
