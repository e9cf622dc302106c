/-!
Line ends. Text files may end their lines in three ways; a reader of text sees only the line feed.
-/
namespace AssetCompiler.Text

/-- Writes each carriage return, with or without a line feed after it, as one line feed. -/
def unifyLineEnds : List Char → List Char
  | [] => []
  | '\r' :: '\n' :: rest => '\n' :: unifyLineEnds rest
  | '\r' :: rest => '\n' :: unifyLineEnds rest
  | c :: rest => c :: unifyLineEnds rest

end AssetCompiler.Text
