/-!
Parts of a text: whether one text stands somewhere in another.
-/
namespace AssetCompiler.Text

/-- Whether the text has the part in it. The empty part is in every text. -/
def hasPart (part : List Char) : List Char → Bool
  | [] => part.isEmpty
  | c :: rest => part.isPrefixOf (c :: rest) || hasPart part rest

end AssetCompiler.Text
