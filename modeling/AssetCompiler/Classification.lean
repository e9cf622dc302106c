import AssetCompiler.Digest.Sha256
import AssetCompiler.Double
import AssetCompiler.MediaType
import AssetCompiler.Models

/-!
Classifying a file. Its bytes decide the hash, the text and three of the flags; its path decides the
media type and whether it belongs to a vendored tree.
-/
namespace AssetCompiler

/-- Where vendored code lies, and the average line length from which on code counts as minified. -/
structure ClassifyOptions where
  vendoredNames : List String
  lineLength : Int
  deriving DecidableEq, Repr, Inhabited

def ClassifyOptions.standard : ClassifyOptions := ⟨["node_modules", "bower_components"], 80⟩

namespace Fingerprint

def sniffedBytes : Nat := 512

def sampleLength : Nat := 1024

def tailLength : Nat := 512

/-- The text of a file, unless an early zero byte or malformed text shows that it is binary. -/
def sourceOf (bytes : List UInt8) : Option (List Char) :=
  if (bytes.take sniffedBytes).contains 0 then none else Text.Utf8.decode? bytes

/-- Long code whose lines, in the part at its beginning, are longer than the limit on average. The
average is a double. Long code without a line end in that part is minified under every limit. -/
def isMinifiedText (source : List Char) (limit : Int) : Bool :=
  if source.length ≤ sampleLength then false
  else
    let sample := source.take sampleLength
    let newlines := sample.count '\n'
    if newlines = 0 then true else (Double.quotient sample.length newlines).exceeds limit

/-- The last `n` characters. -/
def lastChars (n : Nat) (s : List Char) : List Char := s.drop (s.length - n)

def addressMark : List Char := "sourceMappingURL=".toList

/-- Whether a text begins with a comment that names a source map. -/
def beginsMapComment : List Char → Bool
  | a :: b :: c :: rest =>
    a = '/' && (b = '/' || b = '*') && (c = '#' || c = '@') &&
      addressMark.isPrefixOf (rest.dropWhile Text.isBlank)
  | _ => false

/-- Whether a text holds, at any place, a comment that names a source map. -/
def holdsMapComment : List Char → Bool
  | [] => false
  | c :: rest => beginsMapComment (c :: rest) || holdsMapComment rest

/-- Whether a comment near the end names a source map. -/
def hasSourceMapText (source : List Char) : Bool := holdsMapComment (lastChars tailLength source)

/-- Whether a path has one of the names among its components. -/
def isVendoredPath (p : Path) (names : List String) : Bool :=
  names.any fun n => p.components.contains n

def classify (bytes : List UInt8) (p : Path) (options : ClassifyOptions) : Fingerprint :=
  let source := sourceOf bytes
  { hash := Sha256.hexDigest bytes
    source := source.map String.ofList
    mediaType := MediaType.ofPath p
    isMinified := source.any fun s => isMinifiedText s options.lineLength
    isVendored := isVendoredPath p options.vendoredNames
    hasSourceMap := source.any hasSourceMapText
    isBinary := source.isNone }

/-- Files that are served as they are. -/
def isBypassed (i : Fingerprint) : Bool :=
  i.isMinified || i.isVendored || i.hasSourceMap || i.isBinary

/-- The media type of a fingerprint, or the one that a path shows. -/
def typeOr (i : Fingerprint) (p : Path) : Option String :=
  match i.mediaType with
  | some t => if t.isEmpty then MediaType.ofPath p else some t
  | none => MediaType.ofPath p

/-- The characters that a media type keeps in a key. -/
def isKeyChar (c : Char) : Bool := c.isAlphanum || c = '.' || c = '-'

/-- A media type as part of a key. -/
def keyPart (mediaType : String) : String :=
  String.ofList (mediaType.toList.map fun c => if isKeyChar c then c else '_')

/-- The key of a file's result: its hash and, where it is known, its media type. -/
def cacheKey (i : Fingerprint) : String :=
  match i.mediaType with
  | none => i.hash
  | some t => i.hash ++ "-" ++ keyPart t

end Fingerprint

/-- A text as one component of a path. -/
def safeName (name : String) : String :=
  String.ofList (name.toList.map fun c => if c = '/' || c = '\\' then '_' else c)

end AssetCompiler
