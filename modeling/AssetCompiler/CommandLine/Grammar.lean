import AssetCompiler.Text.Digit
import AssetCompiler.Text.Quoted

/-!
The grammar of the command line: commands, their flags and operands, and how words are told apart. A
long flag may be cut short as long as it stays the only one, and a value may be joined to its flag.
-/
namespace AssetCompiler.CommandLine

inductive Command
  | compile
  | compileAll
  | info
  deriving DecidableEq, Repr, Inhabited

def Command.word : Command → String
  | compile => "compile"
  | compileAll => "compile-all"
  | info => "info"

def Command.all : List Command := [.compile, .compileAll, .info]

def Command.ofWord? (word : String) : Option Command := Command.all.find? fun c => c.word = word

inductive Flag
  | help
  | version
  | verbose
  | cacheDir
  | transformer
  | readOnly
  | asJson
  | exclude
  deriving DecidableEq, Repr, Inhabited

def Flag.spellings : Flag → List String
  | help => ["-h", "--help"]
  | version => ["--version"]
  | verbose => ["-v", "--verbose"]
  | cacheDir => ["--cache-dir"]
  | transformer => ["-t", "--transformer"]
  | readOnly => ["--read-only"]
  | asJson => ["--json"]
  | exclude => ["--exclude"]

def Flag.takesValue : Flag → Bool
  | cacheDir | transformer | exclude => true
  | _ => false

/-- Where words are read: before the command, or behind it. -/
abbrev Scope := Option Command

/-- The flags of a scope, in the order in which they are offered. -/
def flags : Scope → List Flag
  | none => [.help, .version, .verbose, .cacheDir]
  | some .compile => [.help, .transformer, .readOnly, .asJson]
  | some .compileAll => [.help, .transformer, .exclude]
  | some .info => [.help]

/-- The words that are no flags: none are wanted, one is, or all from the first one on. -/
inductive Operands
  | nothing
  | one
  | everything
  deriving DecidableEq, Repr, Inhabited

def operands : Scope → Operands
  | none => .everything
  | some .compile | some .compileAll => .one
  | some .info => .nothing

/-- What is wrong with a command line. -/
inductive Complaint
  | ambiguous (word : String) (spellings : List String)
  | noValue (flag : Flag)
  | needlessValue (flag : Flag) (value : String)
  | unknownCommand (word : String)
  | missing (operand : String)
  | unrecognized (words : List String)
  deriving DecidableEq, Repr, Inhabited

def Complaint.about (flag : Flag) : String := "argument " ++ "/".intercalate flag.spellings ++ ": "

def Complaint.text : Complaint → String
  | ambiguous word spellings =>
    "ambiguous option: " ++ word ++ " could match " ++ ", ".intercalate spellings
  | noValue flag => about flag ++ "expected one argument"
  | needlessValue flag value =>
    about flag ++ "ignored explicit argument " ++ Text.quoted value
  | unknownCommand word =>
    "argument command: invalid choice: " ++ Text.quoted word ++ " (choose from " ++
      ", ".intercalate (Command.all.map fun c => Text.quoted c.word) ++ ")"
  | missing operand => "the following arguments are required: " ++ operand
  | unrecognized words => "unrecognized arguments: " ++ " ".intercalate words

/-- A spelling of a flag in a word, and the value that the word joins to it. -/
structure Spelled where
  flag : Flag
  spelling : String
  value : Option String
  deriving DecidableEq, Repr, Inhabited

/-- What a word is. Behind the first separator all words are plain. -/
inductive Role
  | plain
  | separator
  | unknown
  | flag (spelled : Spelled)
  deriving DecidableEq, Repr, Inhabited

structure Word where
  text : String
  role : Role
  deriving DecidableEq, Repr, Inhabited

/-- Every spelling in a scope. -/
def spellings (scope : Scope) : List (String × Flag) :=
  (flags scope).flatMap fun f => f.spellings.map fun s => (s, f)

/-- The text before the first equals sign, and the text behind it if there is one. -/
def splitValue (word : List Char) : String × Option String :=
  let name := word.takeWhile (· ≠ '=')
  match word.drop name.length with
  | [] => (String.ofList name, none)
  | _ :: value => (String.ofList name, some (String.ofList value))

/-- The flags that a word may stand for: those that a long one begins, or the short one of its first
letter with the rest as a value. -/
def candidates (scope : Scope) (word : String) : List Spelled :=
  match word.toList with
  | '-' :: '-' :: _ =>
    let (name, value) := splitValue word.toList
    (spellings scope).filterMap fun (s, f) => if s.startsWith name then some ⟨f, s, value⟩ else none
  | '-' :: letter :: rest =>
    (spellings scope).filterMap fun (s, f) =>
      if s.toList = ['-', letter] then some ⟨f, s, some (String.ofList rest)⟩
      else if s.startsWith word then some ⟨f, s, none⟩
      else none
  | _ => []

/-- Whether a word is a negative number, whole or with a decimal point. A line feed may end it. -/
def isNegativeNumber (word : List Char) : Bool :=
  match word with
  | '-' :: rest =>
    let rest := if rest.getLast? = some '\n' then rest.dropLast else rest
    let whole := rest.takeWhile Text.isDigit
    match rest.drop whole.length with
    | [] => !whole.isEmpty
    | '.' :: places => !places.isEmpty && places.all Text.isDigit
    | _ => false
  | _ => false

/-- The role of a word before any separator. -/
def roleOf (scope : Scope) (word : String) : Except Complaint Role :=
  let all := spellings scope
  let (name, value) := splitValue word.toList
  if !word.startsWith "-" || word = "-" then .ok .plain
  else match all.lookup word, value, all.lookup name with
    | some f, _, _ => .ok (.flag ⟨f, word, none⟩)
    | none, some v, some f => .ok (.flag ⟨f, name, some v⟩)
    | none, _, _ =>
      match candidates scope word with
      | [s] => .ok (.flag s)
      | [] =>
        if isNegativeNumber word.toList || word.toList.contains ' ' then .ok .plain
        else .ok .unknown
      | several => .error (.ambiguous word (several.map (·.spelling)))

/-- The roles of all words. -/
def classify (scope : Scope) : List String → Except Complaint (List Word)
  | [] => .ok []
  | word :: rest =>
    if word = "--" then .ok (⟨word, .separator⟩ :: rest.map fun w => ⟨w, .plain⟩)
    else do
      let role ← roleOf scope word
      return ⟨word, role⟩ :: (← classify scope rest)

end AssetCompiler.CommandLine
