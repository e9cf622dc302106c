import AssetCompiler.CommandLine.Grammar
import AssetCompiler.Path

/-!
From the words of a command line to the task that they name. Flags take effect from left to right; a
wish for help or for the version ends the reading where it stands.
-/
namespace AssetCompiler.CommandLine

/-- Why the reading ends before its end. -/
inductive Stop
  | help (scope : Scope)
  | version
  | complaint (scope : Scope) (about : Complaint)
  | separatorAsValue
  deriving DecidableEq, Repr, Inhabited

/-- What the flags ask for. -/
structure Options where
  verbose : Bool
  cacheDir : Option Path
  transformers : List String
  readOnly : Bool
  asJson : Bool
  excludes : List String
  deriving DecidableEq, Repr, Inhabited

def Options.none : Options := ⟨false, .none, [], false, false, []⟩

/-- The effect of a flag. A separator cannot be its value. -/
def Options.apply (scope : Scope) (o : Options) : Flag × String → Except Stop Options
  | (flag, value) =>
    if flag.takesValue && value = "--" then .error .separatorAsValue
    else match flag with
      | .help => .error (.help scope)
      | .version => .error .version
      | .verbose => .ok { o with verbose := true }
      | .cacheDir => .ok { o with cacheDir := some (Path.ofText value) }
      | .transformer => .ok { o with transformers := o.transformers ++ [value] }
      | .readOnly => .ok { o with readOnly := true }
      | .asJson => .ok { o with asJson := true }
      | .exclude => .ok { o with excludes := o.excludes ++ [value] }

/-- The flags of one word in order, and the last one if it has to take the next word for its
value. -/
structure Taken where
  settled : List (Flag × String)
  open? : Option Flag
  deriving DecidableEq, Repr, Inhabited

def Taken.bare (flag : Flag) : Taken :=
  if flag.takesValue then ⟨[], some flag⟩ else ⟨[(flag, "")], none⟩

def Taken.after (flag : Flag) (t : Taken) : Taken := { t with settled := (flag, "") :: t.settled }

/-- A flag with a text joined to it: its value, or, behind a short flag that takes none, the letters
of more short flags. -/
def takeJoined (scope : Scope) (isShort : Bool) (flag : Flag) :
    List Char → Except Complaint Taken
  | [] => if flag.takesValue then .ok ⟨[(flag, "")], none⟩ else .error (.needlessValue flag "")
  | c :: rest =>
    let value := String.ofList (c :: rest)
    if flag.takesValue then .ok ⟨[(flag, value)], none⟩
    else if !isShort then .error (.needlessValue flag value)
    else match (spellings scope).lookup (String.ofList ['-', c]), rest with
      | none, _ => .error (.needlessValue flag value)
      | some next, [] => .ok ((Taken.bare next).after flag)
      | some next, d :: more => (takeJoined scope true next (d :: more)).map (Taken.after flag)

/-- The flags of a word. -/
def take (scope : Scope) (s : Spelled) : Except Complaint Taken :=
  match s.value with
  | none => .ok (Taken.bare s.flag)
  | some value => takeJoined scope (!s.spelling.startsWith "--") s.flag value.toList

/-- What has been read: the options so far, the operands, and the words that nothing wants. -/
structure Gathered where
  options : Options
  operands : List String
  extras : List String
  deriving DecidableEq, Repr, Inhabited

namespace Gathered

def applyAll (scope : Scope) (g : Gathered) (flags : List (Flag × String)) :
    Except Stop Gathered :=
  (flags.foldlM (Options.apply scope) g.options).map fun o => { g with options := o }

def leave (g : Gathered) (word : String) : Gathered := { g with extras := g.extras ++ [word] }

/-- Reads words from left to right. -/
def read (scope : Scope) (wanted : Operands) (g : Gathered) : List Word → Except Stop Gathered
  | [] => .ok g
  | ⟨text, .plain⟩ :: rest =>
    match wanted, rest with
    | .nothing, rest => read scope .nothing (g.leave text) rest
    | .everything, rest => .ok { g with operands := text :: rest.map (·.text) }
    | .one, ⟨_, .separator⟩ :: rest => read scope .nothing { g with operands := [text] } rest
    | .one, rest => read scope .nothing { g with operands := [text] } rest
  | ⟨text, .separator⟩ :: rest =>
    match wanted, rest with
    | .one, ⟨operand, _⟩ :: rest => read scope .nothing { g with operands := [operand] } rest
    | .everything, word :: rest =>
      .ok { g with operands := text :: word.text :: rest.map (·.text) }
    | wanted, rest => read scope wanted (g.leave text) rest
  | ⟨text, .unknown⟩ :: rest => read scope wanted (g.leave text) rest
  | ⟨_, .flag spelled⟩ :: rest =>
    match take scope spelled with
    | .error c => .error (.complaint scope c)
    | .ok ⟨settled, none⟩ =>
      match g.applyAll scope settled with
      | .error s => .error s
      | .ok g => read scope wanted g rest
    | .ok ⟨settled, some flag⟩ =>
      match rest with
      | ⟨value, .plain⟩ :: rest =>
        match g.applyAll scope (settled ++ [(flag, value)]) with
        | .error s => .error s
        | .ok g => read scope wanted g rest
      | _ => .error (.complaint scope (.noValue flag))

end Gathered

/-- Reads the words of a scope, with the options that are set already. -/
def gather (scope : Scope) (options : Options) (words : List String) : Except Stop Gathered :=
  match classify scope words with
  | .error c => .error (.complaint scope c)
  | .ok words => Gathered.read scope (operands scope) ⟨options, [], []⟩ words

inductive Task
  | nothing
  | compile (file : Path) (transformers : List String) (readOnly asJson : Bool)
  | compileAll (directory : Path) (transformers excludes : List String)
  | info
  deriving DecidableEq, Repr, Inhabited

structure Invocation where
  verbose : Bool
  cacheDir : Option Path
  task : Task
  deriving DecidableEq, Repr, Inhabited

/-- The task of a command with its options. An operand that is wanted must be there. -/
def taskOf (command : Command) (g : Gathered) : Except Stop Task :=
  let o := g.options
  match command, g.operands with
  | .info, _ => .ok .info
  | .compile, file :: _ => .ok (.compile (Path.ofText file) o.transformers o.readOnly o.asJson)
  | .compileAll, directory :: _ =>
    .ok (.compileAll (Path.ofText directory) o.transformers o.excludes)
  | .compile, [] => .error (.complaint (some .compile) (.missing "file"))
  | .compileAll, [] => .error (.complaint (some .compileAll) (.missing "directory"))

/-- Complains about words that nothing wants. -/
def checkExtras (extras : List String) : Except Stop Unit :=
  if extras.isEmpty then .ok () else .error (.complaint none (.unrecognized extras))

/-- The invocation that a command line stands for. -/
def parse (words : List String) : Except Stop Invocation := do
  let g ← gather none Options.none words
  match g.operands with
  | [] =>
    checkExtras g.extras
    return ⟨g.options.verbose, g.options.cacheDir, .nothing⟩
  | word :: rest =>
    match Command.ofWord? word with
    | none => throw (.complaint none (.unknownCommand word))
    | some command =>
      let inner ← gather (some command) g.options rest
      let task ← taskOf command inner
      checkExtras (g.extras ++ inner.extras)
      return ⟨g.options.verbose, g.options.cacheDir, task⟩

end AssetCompiler.CommandLine
