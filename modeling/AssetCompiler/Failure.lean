import AssetCompiler.Json.Basic
import AssetCompiler.Text.Quoted
import AssetCompiler.Text.Utf8

/-!
What can go wrong. A failure names its cause; its wording is one function of the cause. Reports on
invalid data are worded in two ways, so that function takes the way as an argument.
-/
namespace AssetCompiler

/-- Where in a value a part stands. -/
inductive Place
  | field (name : String)
  | item (index : Nat)
  deriving DecidableEq, Repr

def Place.text : Place → String
  | .field name => name
  | .item index => Text.decimal index

inductive FieldIssue
  | missing
  | notModel
  | notText
  | badBool
  | notBool
  | fractionalInt
  | infiniteInt
  | badInt
  | hugeInt
  | notInt
  | notList
  | notMap
  | notPath
  | notOption
  | badTimeText
  | badTimeCount
  | notTime
  | badJson
  | rule (text : String)
  deriving DecidableEq, Repr

def FieldIssue.tag : FieldIssue → String
  | missing => "missing"
  | notModel => "model_type"
  | notText => "string_type"
  | badBool => "bool_parsing"
  | notBool => "bool_type"
  | fractionalInt => "int_from_float"
  | infiniteInt => "finite_number"
  | badInt => "int_parsing"
  | hugeInt => "int_parsing_size"
  | notInt => "int_type"
  | notList => "list_type"
  | notMap => "dict_type"
  | notPath => "path_type"
  | notOption => "literal_error"
  | badTimeText => "datetime_from_date_parsing"
  | badTimeCount => "datetime_parsing"
  | notTime => "datetime_type"
  | badJson => "json_invalid"
  | rule _ => "value_error"

structure FieldError where
  place : List Place
  issue : FieldIssue
  deriving DecidableEq, Repr

/-- What the file system refuses. -/
inductive FileIssue
  | notFound
  | occupied
  | notDirectory
  | isDirectory
  | nameTooLong
  | tooManyLinks
  deriving DecidableEq, Repr

def FileIssue.number : FileIssue → Nat
  | notFound => 2
  | occupied => 17
  | notDirectory => 20
  | isDirectory => 21
  | nameTooLong => 36
  | tooManyLinks => 40

def FileIssue.text : FileIssue → String
  | notFound => "No such file or directory"
  | occupied => "File exists"
  | notDirectory => "Not a directory"
  | isDirectory => "Is a directory"
  | nameTooLong => "File name too long"
  | tooManyLinks => "Too many levels of symbolic links"

/-- What a table of entries refuses. -/
inductive DatabaseIssue
  | notDatabase
  | cannotOpen
  | closed
  deriving DecidableEq, Repr

def DatabaseIssue.text : DatabaseIssue → String
  | notDatabase => "file is not a database"
  | cannotOpen => "unable to open database file"
  | closed => "Cannot operate on a closed database."

/-- Values of the right kind that make no sense where they stand. -/
inductive BadValue
  | rootNotDirectory (path : String)
  | unsupportedBackend (name : String)
  | badSize (text : String)
  | tooManyDigits (count : Nat)
  | noPermits
  | zeroInPath
  | unknownLevel (name : String)
  | unknownDirective (c : Char) (index : Nat)
  | unfinishedDirective
  | unfinishedName
  | separatorAsValue
  deriving DecidableEq, Repr

def BadValue.text : BadValue → String
  | rootNotDirectory path => "Root is not a directory: " ++ path
  | unsupportedBackend name => "Unsupported cache backend: " ++ Text.quoted name
  | badSize text => "Invalid size format: " ++ Text.quoted text ++ ". Use e.g. '10MB'."
  | tooManyDigits count =>
    "Exceeds the limit (4300 digits) for integer string conversion: value has " ++
      Text.decimal count ++ " digits; use sys.set_int_max_str_digits() to increase the limit"
  | noPermits => "Semaphore initial value must be >= 0"
  | zeroInPath => "embedded null byte"
  | unknownLevel name => "Unknown level: " ++ Text.quoted name
  | unknownDirective c index =>
    "unsupported format character '" ++
      String.singleton (if 31 < c.toNat ∧ c.toNat < 128 then c else '?') ++ "' (0x" ++
      Text.padded 16 1 c.toNat ++ ") at index " ++ Text.decimal index
  | unfinishedDirective => "incomplete format"
  | unfinishedName => "incomplete format key"
  | separatorAsValue => "not enough values to unpack (expected 1, got 0)"

/-- Settings and registrations that contradict each other. -/
inductive ConfigurationIssue
  | rules (broken : List String)
  | nameClash (name first second : String)
  | notSaved (path : String)
  | notAvailable (name : String) (available : List String)
  | stated (message : String)
  deriving DecidableEq, Repr

def ConfigurationIssue.text : ConfigurationIssue → String
  | rules broken => "; ".intercalate broken
  | nameClash name first second =>
    "Transformer id " ++ Text.quoted name ++ " is claimed by both " ++ first ++ " and " ++ second ++
      "; register one instance per name"
  | notSaved path => "No compiler configuration at " ++ path
  | notAvailable name available =>
    "Saved configuration needs transformer " ++ Text.quoted name ++ "; available: " ++
      (if available.isEmpty then "none" else ", ".intercalate available)
  | stated message => message

/-- Why a transformer cannot be had under a class path. -/
inductive LoadIssue
  | badClassPath (path : String)
  | noModule (module reason : String)
  | noClass (name module : String)
  | notTransformer (path : String)
  deriving DecidableEq, Repr

def LoadIssue.text : LoadIssue → String
  | badClassPath path => "Invalid class path: " ++ path
  | noModule module reason => "Cannot import module " ++ module ++ ": " ++ reason
  | noClass name module => "Class " ++ name ++ " not found in " ++ module
  | notTransformer path => path ++ " is not a BaseTransformer subclass"

/-- The cause of a failure. The last six are the compile failures; a transformer may raise any
failure, and one of its own kind as `raised`. -/
inductive Failure
  | invalid (model : String) (errors : List FieldError)
  | notFields (owner found : String)
  | notItems (found : String)
  | notTable (found : String)
  | malformedJson
  | malformedText (fault : Text.Utf8.Fault)
  | file (issue : FileIssue) (path : String)
  | move (issue : FileIssue) (source target : String)
  | symlinkLoop (path : String)
  | noHome
  | database (issue : DatabaseIssue)
  | badValue (issue : BadValue)
  | missingKey (key : String)
  | configuration (issue : ConfigurationIssue)
  | load (issue : LoadIssue)
  | relativeModule (name : String)
  | notConstructible (reason : String)
  | badFormat (reason : String)
  | outOfRange (reason : String)
  | raised (kind message : String)
  | interrupted
  | cancelled
  | rejected (message : String) (file : Option String)
  | noTransformer (file : String)
  | unhandledType (file : String) (mediaType : Option String)
  | passLimit (file : String) (chain : List (Option String)) (limit : Int)
  | notPrecompiled (file : String)
  | transformerFailed (file transformer : String) (cause : Failure)
  deriving Inhabited

namespace Failure

/-- Compile failures pass through the host as they are. -/
def isCompileFailure : Failure → Bool
  | rejected _ _ | noTransformer _ | unhandledType _ _ | passLimit _ _ _ | notPrecompiled _
  | transformerFailed _ _ _ => true
  | _ => false

/-- The two failures that are no fault of the work they stop. -/
def isSignal : Failure → Bool
  | interrupted | cancelled => true
  | _ => false

/-- The file that a compile failure is about. -/
def file? : Failure → Option String
  | rejected _ path => path
  | noTransformer path | unhandledType path _ | passLimit path _ _ | notPrecompiled path
  | transformerFailed path _ _ => some path
  | _ => none

/-- How a report on invalid data is worded. -/
abbrev Wording := String → List FieldError → String

/-- The model and each error with its place and tag. -/
def detailed : Wording := fun model errors =>
  let one (e : FieldError) : String :=
    ".".intercalate (e.place.map Place.text) ++ ":" ++ e.issue.tag
  "<ValidationError " ++ model ++ " " ++ ", ".intercalate (errors.map one) ++ ">"

/-- The number of errors and the model. -/
def summary : Wording := fun model errors =>
  Text.decimal errors.length ++ " validation error" ++ (if errors.length = 1 then "" else "s") ++
    " for " ++ model

def typeText (t : Option String) : String := t.getD "None"

def hexByte (b : UInt8) : String := "0x" ++ Text.padded 16 2 b.toNat

/-- The wording of a failure. -/
def text (wording : Wording) : Failure → String
  | invalid model errors => wording model errors
  | notFields owner found => owner ++ "() argument after ** must be a mapping, not " ++ found
  | notItems found => Text.quoted found ++ " object is not iterable"
  | notTable found => Text.quoted found ++ " object has no attribute 'items'"
  | malformedJson => "<JSONDecodeError>"
  | malformedText fault =>
    match fault.piece with
    | [b] =>
      "'utf-8' codec can't decode byte " ++ hexByte b ++ " in position " ++
        Text.decimal fault.offset ++ ": " ++ fault.reason
    | piece =>
      "'utf-8' codec can't decode bytes in position " ++ Text.decimal fault.offset ++ "-" ++
        Text.decimal (fault.offset + piece.length - 1) ++ ": " ++ fault.reason
  | file issue path =>
    "[Errno " ++ Text.decimal issue.number ++ "] " ++ issue.text ++ ": " ++ Text.quoted path
  | move issue source target =>
    "[Errno " ++ Text.decimal issue.number ++ "] " ++ issue.text ++ ": " ++ Text.quoted source ++
      " -> " ++ Text.quoted target
  | symlinkLoop path => "Symlink loop from " ++ Text.quoted path
  | noHome => "Could not determine home directory."
  | database issue => issue.text
  | badValue issue => issue.text
  | missingKey key => Text.quoted key
  | configuration issue => issue.text
  | load issue => issue.text
  | relativeModule name =>
    "the 'package' argument is required to perform a relative import for " ++ Text.quoted name
  | notConstructible reason => reason
  | badFormat reason => reason
  | outOfRange reason => reason
  | raised _ message => message
  | interrupted => ""
  | cancelled => ""
  | rejected message _ => message
  | noTransformer path => "Couldn't find a transformer for " ++ path
  | unhandledType path mediaType =>
    "Compiling " ++ path ++ " resulted in a media type of " ++ Text.quotedOption mediaType ++
      ", which no registered transformer handles"
  | passLimit path chain limit =>
    "Compiling " ++ path ++ " exceeded " ++ Text.signedDecimal limit ++ " passes (" ++
      " -> ".intercalate (chain.map typeText) ++ ")"
  | notPrecompiled path =>
    "Asked to compile " ++ path ++ " in read-only mode, is this file not precompiled?"
  | transformerFailed path transformer cause =>
    "Transformer " ++ Text.quoted transformer ++ " failed on " ++ path ++ ": " ++ cause.text wording

end Failure

/-- The word for the kind of a value in reports. -/
def Json.kindWord : Json → String
  | .null => "NoneType"
  | .bool _ => "bool"
  | .int _ => "int"
  | .real _ | .nan | .infinity _ => "float"
  | .str _ => "str"
  | .arr _ => "list"
  | .obj _ => "dict"

end AssetCompiler
