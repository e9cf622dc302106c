import AssetCompiler.Proofs.JsonRoundTrip
import AssetCompiler.Proofs.Tables
import AssetCompiler.Proofs.WrittenText
import AssetCompiler.Volume.Filing

/-!
What the bytes of a file are to those who look for the fields of an object in them: the fields, another value,
text that is no JSON, or no text. Each field of an object has a name of its own.
-/
namespace AssetCompiler

inductive Document
  | fields (fs : List (String × Json))
  | value (v : Json)
  | noJson
  | noText (fault : Text.Utf8.Fault)

namespace Document

def ofJson : Json → Document
  | .obj fs => fields fs
  | v => value v

def ofBytes (bytes : List UInt8) : Document :=
  match Text.Utf8.decode bytes with
  | .error fault => noText fault
  | .ok s => ((Json.read? (Text.unifyLineEnds s)).map ofJson).getD noJson

end Document

namespace Json

end Json

namespace Volume

variable {v : Volume} {p : Path} {bytes : List UInt8}

end Volume
end AssetCompiler
