import AssetCompiler.Proofs.Documents
import AssetCompiler.Proofs.Fingerprints
import AssetCompiler.Proofs.Folders
import AssetCompiler.Proofs.ServedResults

/-!
Folders whose files hold anything. A file that holds an entry gives it; text that is no JSON, fields that are no
entry, and what cannot be opened, are passed over, and an errand for such a file makes its result anew and stores
it. Bytes that are no text, and values that are no objects, are refused by every look-up.
-/
namespace AssetCompiler

namespace Store

open Volume

/-- The failure that bytes come to which are not passed over. -/
def refusal? (bytes : List UInt8) : Option Failure :=
  match Document.ofBytes bytes with
  | .noText fault => some (.malformedText fault)
  | .value v => some (.notFields "assetpipe.cache.models.CacheEntry" v.kindWord)
  | _ => none

variable {v : Volume} {root : Path} {d : Location} {space key : String} {bytes : List UInt8}

end Store

variable {σ : Type} {v : Volume} {root : Path} {d : Location} {space : String} {bytes : List UInt8}

open Store Volume

namespace Store

end Store

end AssetCompiler
