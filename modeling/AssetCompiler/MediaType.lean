import AssetCompiler.Path
import AssetCompiler.Text.Case

/-!
Media types by file name. The extension decides, after abbreviated double extensions are written out
and one encoding is taken off; the source formats of web assets come before the registered types,
and those before the types in common use.
-/
namespace AssetCompiler.MediaType

def plainText : String := "text/plain"

def html : String := "text/html"

/-- The types that need no further work. -/
def finalForms : List String :=
  ["text/javascript", "application/javascript", "text/html", "text/css"]

def isFinal : Option String → Bool
  | some t => finalForms.contains t
  | none => false

/-- The source formats of web assets. -/
def sourceFormats : List (String × List String) := [
   ("application/javascript", [".js", ".mjs", ".cjs"]), ("text/jsx", [".jsx"]),
   ("text/typescript", [".ts"]), ("text/tsx", [".tsx"]),
   ("text/coffeescript", [".coffee", ".litcoffee"]), ("text/less", [".less"]),
   ("text/scss", [".scss"]), ("text/sass", [".sass"]), ("text/stylus", [".styl"]),
   ("text/vue", [".vue"]), ("text/jade", [".jade", ".pug"]),
   ("text/x-handlebars-template", [".hbs", ".handlebars"]),
   ("text/markdown", [".md", ".markdown"]), ("application/json", [".map"]),
   ("text/plain", [".txt"])]

/-- The registered types. -/
def registered : List (String × List String) := [
   ("application/javascript", [".js", ".mjs"]), ("application/json", [".json"]),
   ("application/manifest+json", [".webmanifest"]),
   ("application/msword", [".doc", ".dot", ".wiz"]), ("application/n-quads", [".nq"]),
   ("application/n-triples", [".nt"]),
   ("application/octet-stream", [".bin", ".a", ".dll", ".exe", ".o", ".obj", ".so"]),
   ("application/oda", [".oda"]), ("application/pdf", [".pdf"]),
   ("application/pkcs7-mime", [".p7c"]), ("application/postscript", [".ps", ".ai", ".eps"]),
   ("application/trig", [".trig"]), ("application/vnd.apple.mpegurl", [".m3u", ".m3u8"]),
   ("application/vnd.ms-excel", [".xls", ".xlb"]),
   ("application/vnd.ms-powerpoint", [".ppt", ".pot", ".ppa", ".pps", ".pwz"]),
   ("application/wasm", [".wasm"]), ("application/x-bcpio", [".bcpio"]),
   ("application/x-cpio", [".cpio"]), ("application/x-csh", [".csh"]),
   ("application/x-dvi", [".dvi"]), ("application/x-gtar", [".gtar"]),
   ("application/x-hdf", [".hdf"]), ("application/x-hdf5", [".h5"]),
   ("application/x-latex", [".latex"]), ("application/x-mif", [".mif"]),
   ("application/x-netcdf", [".cdf", ".nc"]), ("application/x-pkcs12", [".p12", ".pfx"]),
   ("application/x-pn-realaudio", [".ram"]), ("application/x-python-code", [".pyc", ".pyo"]),
   ("application/x-sh", [".sh"]), ("application/x-shar", [".shar"]),
   ("application/x-shockwave-flash", [".swf"]), ("application/x-sv4cpio", [".sv4cpio"]),
   ("application/x-sv4crc", [".sv4crc"]), ("application/x-tar", [".tar"]),
   ("application/x-tcl", [".tcl"]), ("application/x-tex", [".tex"]),
   ("application/x-texinfo", [".texi", ".texinfo"]),
   ("application/x-troff", [".roff", ".t", ".tr"]), ("application/x-troff-man", [".man"]),
   ("application/x-troff-me", [".me"]), ("application/x-troff-ms", [".ms"]),
   ("application/x-ustar", [".ustar"]), ("application/x-wais-source", [".src"]),
   ("application/xml", [".xsl", ".rdf", ".wsdl", ".xpdl"]), ("application/zip", [".zip"]),
   ("audio/3gpp", [".3gp", ".3gpp"]), ("audio/3gpp2", [".3g2", ".3gpp2"]),
   ("audio/aac", [".aac", ".adts", ".loas", ".ass"]), ("audio/basic", [".au", ".snd"]),
   ("audio/mpeg", [".mp3", ".mp2"]), ("audio/opus", [".opus"]),
   ("audio/x-aiff", [".aif", ".aifc", ".aiff"]), ("audio/x-pn-realaudio", [".ra"]),
   ("audio/x-wav", [".wav"]), ("image/avif", [".avif"]), ("image/bmp", [".bmp"]),
   ("image/gif", [".gif"]), ("image/ief", [".ief"]), ("image/jpeg", [".jpg", ".jpe", ".jpeg"]),
   ("image/heic", [".heic"]), ("image/heif", [".heif"]), ("image/png", [".png"]),
   ("image/svg+xml", [".svg"]), ("image/tiff", [".tiff", ".tif"]),
   ("image/vnd.microsoft.icon", [".ico"]), ("image/x-cmu-raster", [".ras"]),
   ("image/x-portable-anymap", [".pnm"]), ("image/x-portable-bitmap", [".pbm"]),
   ("image/x-portable-graymap", [".pgm"]), ("image/x-portable-pixmap", [".ppm"]),
   ("image/x-rgb", [".rgb"]), ("image/x-xbitmap", [".xbm"]), ("image/x-xpixmap", [".xpm"]),
   ("image/x-xwindowdump", [".xwd"]), ("message/rfc822", [".eml", ".mht", ".mhtml", ".nws"]),
   ("text/css", [".css"]), ("text/csv", [".csv"]), ("text/html", [".html", ".htm"]),
   ("text/n3", [".n3"]), ("text/plain", [".txt", ".bat", ".c", ".h", ".ksh", ".pl", ".srt"]),
   ("text/richtext", [".rtx"]), ("text/tab-separated-values", [".tsv"]), ("text/vtt", [".vtt"]),
   ("text/x-python", [".py"]), ("text/x-setext", [".etx"]), ("text/x-sgml", [".sgm", ".sgml"]),
   ("text/x-vcard", [".vcf"]), ("text/xml", [".xml"]), ("video/mp4", [".mp4"]),
   ("video/mpeg", [".mpeg", ".m1v", ".mpa", ".mpe", ".mpg"]),
   ("video/quicktime", [".mov", ".qt"]), ("video/webm", [".webm"]),
   ("video/x-msvideo", [".avi"]), ("video/x-sgi-movie", [".movie"])]

/-- Types in common use that are not registered. -/
def common : List (String × List String) := [
   ("application/rtf", [".rtf"]), ("audio/midi", [".midi", ".mid"]), ("image/jpg", [".jpg"]),
   ("image/pict", [".pict", ".pct", ".pic"]), ("image/webp", [".webp"]), ("text/xul", [".xul"])]

/-- The first type in a table that has an extension. -/
def lookup? (extension : String) (table : List (String × List String)) : Option String :=
  (table.find? fun row => row.2.contains extension).map (·.1)

def abbreviations : List (String × String) :=
  [(".svgz", ".svg.gz"), (".tgz", ".tar.gz"), (".taz", ".tar.gz"), (".tz", ".tar.gz"),
   (".tbz2", ".tar.bz2"), (".txz", ".tar.xz")]

def encodings : List String := [".gz", ".Z", ".bz2", ".xz", ".br"]

/-- The name before its extension, and the extension with its dot. Dots at the start of a name begin
no extension. -/
def splitExtension (name : List Char) : List Char × List Char :=
  let tail := (name.reverse.takeWhile (· ≠ '.')).reverse
  let base := name.take (name.length - tail.length - 1)
  if name.contains '.' && base.any (· ≠ '.') then (base, '.' :: tail) else (name, [])

/-- A scheme before a colon, and what follows. -/
def splitScheme (s : List Char) : Option (List Char × List Char) :=
  let scheme := s.takeWhile fun c => c ≠ '/' && c ≠ ':'
  match s.drop scheme.length with
  | ':' :: rest => if scheme.isEmpty then none else some (scheme, rest)
  | _ => none

/-- The type that a data address gives for itself. -/
def ofDataAddress (s : List Char) : Option String :=
  if s.contains ',' then
    let head := s.takeWhile (· ≠ ',')
    let type := head.takeWhile (· ≠ ';')
    if type.contains '=' || !type.contains '/' then some plainText else some (String.ofList type)
  else none

/-- The type of a file name. -/
def ofName (name : List Char) : Option String :=
  let (scheme, address) :=
    match splitScheme name with
    | some (scheme, rest) => (Text.lookupForm (String.ofList scheme), rest)
    | none => ("", name)
  if scheme = "data" then ofDataAddress address
  else
    let (base, ext) := splitExtension address
    let (base, ext) :=
      match abbreviations.lookup (Text.lookupForm (String.ofList ext)) with
      | some long => splitExtension (base ++ long.toList)
      | none => (base, ext)
    let ext := if encodings.contains (String.ofList ext) then (splitExtension base).2 else ext
    let ext := Text.lookupForm (String.ofList ext)
    lookup? ext sourceFormats <|> lookup? ext registered <|> lookup? ext common

/-- The type of the last component of a path. -/
def ofPath (p : Path) : Option String := ofName p.name.toList

end AssetCompiler.MediaType
