/-!
Path texts. Empty components and single dots are dropped, double dots are kept, and two paths are
equal if they have the same root and components.
-/
namespace AssetCompiler

/-- `root` is empty, one slash or two. -/
structure Path where
  root : String
  parts : List String
  deriving DecidableEq, Repr, Inhabited

namespace Path

/-- The pieces of a text between slashes. -/
def pieces (s : List Char) : List (List Char) :=
  s.foldr (fun c acc =>
    if c = '/' then [] :: acc
    else match acc with
      | [] => [[c]]
      | p :: rest => (c :: p) :: rest) [[]]

def rootOf : List Char → String
  | '/' :: '/' :: '/' :: _ => "/"
  | '/' :: '/' :: _ => "//"
  | '/' :: _ => "/"
  | _ => ""

def ofText (s : String) : Path :=
  ⟨rootOf s.toList,
   ((pieces s.toList).map String.ofList).filter fun p => p != "" && p != "."⟩

def text (p : Path) : String :=
  if p.root.isEmpty && p.parts.isEmpty then "." else p.root ++ "/".intercalate p.parts

def isAbsolute (p : Path) : Bool := !p.root.isEmpty

/-- The second path seen from the first. -/
def join (p q : Path) : Path := if q.isAbsolute then q else ⟨p.root, p.parts ++ q.parts⟩

/-- One more component. -/
def child (p : Path) (name : String) : Path := p.join (ofText name)

def parent (p : Path) : Path := ⟨p.root, p.parts.dropLast⟩

/-- The last component, empty if there is none. -/
def name (p : Path) : String := p.parts.getLastD ""

/-- A component as an option, for membership. -/
def components (p : Path) : List String :=
  if p.isAbsolute then p.root :: p.parts else p.parts

/-- The home directory in place of a tilde that begins the path; nothing if the tilde names somebody
else's home. -/
def expandHome? (home : Option String) (p : Path) : Option Path :=
  match p.isAbsolute, p.parts with
  | false, first :: rest =>
    if first.startsWith "~" then
      if first = "~" then
        match home with
        | none => none
        | some h =>
          let bare := String.ofList (h.toList.reverse.dropWhile (· = '/')).reverse
          let target := if bare.isEmpty then "/" else bare
          if target.startsWith "~" then none
          else some ((ofText target).join ⟨"", rest⟩)
      else none
    else some p
  | _, _ => some p

end Path
end AssetCompiler
