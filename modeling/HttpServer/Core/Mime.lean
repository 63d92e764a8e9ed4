import HttpServer.RequestHeaders

set_option autoImplicit false

namespace HttpServer.Core

open Unicode Text

def standardMimeTable : List (Str × Str) :=
  [("html", "text/html"), ("htm", "text/html"), ("css", "text/css"), ("txt", "text/plain"),
    ("text", "text/plain"), ("csv", "text/csv"), ("tsv", "text/tab-separated-values"),
    ("md", "text/markdown"), ("markdown", "text/markdown"), ("xml", "application/xml"),
    ("yaml", "text/yaml"), ("yml", "text/yaml"), ("rtf", "application/rtf"), ("vtt", "text/vtt"),
    ("js", "application/javascript"), ("mjs", "application/javascript"),
    ("cjs", "application/javascript"), ("json", "application/json"), ("map", "application/json"),
    ("wasm", "application/wasm"), ("webmanifest", "application/manifest+json"),
    ("png", "image/png"), ("jpg", "image/jpeg"), ("jpeg", "image/jpeg"), ("gif", "image/gif"),
    ("webp", "image/webp"), ("svg", "image/svg+xml"), ("svgz", "image/svg+xml"),
    ("ico", "image/x-icon"), ("bmp", "image/bmp"), ("tiff", "image/tiff"), ("tif", "image/tiff"),
    ("avif", "image/avif"), ("mp3", "audio/mpeg"), ("wav", "audio/wav"), ("ogg", "audio/ogg"),
    ("oga", "audio/ogg"), ("m4a", "audio/mp4"), ("flac", "audio/flac"), ("aac", "audio/aac"),
    ("mp4", "video/mp4"), ("webm", "video/webm"), ("ogv", "video/ogg"),
    ("mov", "video/quicktime"), ("m4v", "video/x-m4v"), ("mkv", "video/x-matroska"),
    ("woff", "font/woff"), ("woff2", "font/woff2"), ("ttf", "font/ttf"), ("otf", "font/otf"),
    ("eot", "application/vnd.ms-fontobject"), ("pdf", "application/pdf"),
    ("zip", "application/zip"), ("gz", "application/gzip"), ("br", "application/x-brotli"),
    ("tar", "application/x-tar"), ("7z", "application/x-7z-compressed"),
    ("rar", "application/vnd.rar"), ("bin", "application/octet-stream"),
    ("exe", "application/octet-stream")].map fun (ext, mime) => (str ext, str mime)

structure MimeRegistry where
  table : OrderedMap Str Str

def MimeRegistry.new : MimeRegistry := ⟨OrderedMap.ofList standardMimeTable⟩

def normalizeExtension (raw : Str) : Str := toLower (raw.dropWhile (· == unit '.'))

def MimeRegistry.set (self : MimeRegistry) (ext mimeType : Str) : MimeRegistry :=
  let cleanExt := normalizeExtension ext
  if 0 < cleanExt.length then ⟨self.table.insert cleanExt mimeType⟩ else self

def MimeRegistry.setAll (self : MimeRegistry) (overrides : OrderedMap Str Str) : MimeRegistry :=
  overrides.entries.foldl (fun registry entry => registry.set entry.1 entry.2) self

def isSlash (u : UInt16) : Bool := u == unit '/' || u == unit '\\'

-- The part behind the last unit that satisfies `p`, and whether there is one.
def afterLast (p : UInt16 → Bool) (s : Str) : Option Str :=
  if s.any p then some (s.reverse.takeWhile fun u => !p u).reverse else none

def fileName (path : Str) : Str :=
  let noQuery := (split path (unit '?')).head (List.splitOn_ne_nil _ _)
  let cleanPath := (split noQuery (unit '#')).head (List.splitOn_ne_nil _ _)
  (afterLast isSlash cleanPath).getD cleanPath

def extractExtension (pathOrFilename : Str) : Str :=
  let filename := fileName pathOrFilename
  toLower ((afterLast (· == unit '.') filename).getD filename)

def MimeRegistry.lookup (self : MimeRegistry) (pathOrExt defaultType : Str) : Str :=
  (self.table.get (extractExtension pathOrExt)).getD defaultType

-- The last dot is not the first unit.
def hasFileExtension (path : Str) : Bool :=
  let filename := fileName path
  match afterLast (· == unit '.') filename with
  | some ext => ext.length + 1 < filename.length
  | none => false

def isTextMime (mime : Str) : Bool :=
  hasPrefix mime (str "text/") || mime == str "application/javascript" ||
    mime == str "application/json" || mime == str "application/xml"

def normalizeCharset (raw : Str) : Str :=
  let lower := toLower (trim raw)
  if lower = str "utf-8" ∨ lower = str "utf8" then str "UTF-8"
  else if lower = str "iso-8859-6" ∨ lower = str "iso8859-6" ∨ lower = str "arabic" then
    str "ISO-8859-6"
  else if lower = str "shift_jis" ∨ lower = str "shift-jis" ∨ lower = str "sjis" then
    str "Shift_JIS"
  else if lower = str "euc-jp" then str "EUC-JP"
  else if lower = str "gbk" ∨ lower = str "gb2312" then str "GBK"
  else if lower = str "gb18030" then str "gb18030"
  else if lower = str "big5" then str "Big5"
  else if lower = str "windows-1252" ∨ lower = str "iso-8859-1" then str "windows-1252"
  else trim raw

def lowerByte (b : UInt8) : UInt8 := if 0x41 ≤ b ∧ b ≤ 0x5A then b + 0x20 else b

-- Whether the bytes at `i` spell the ASCII word `word`, in either case.
def wordAt (bytes : Bytes) (i : Nat) (word : String) : Bool :=
  ((bytes.drop i).take word.length).map lowerByte == encode (str word)

def byteAt (bytes : Bytes) (i : Nat) : UInt8 := bytes.getD i 0

-- The first index from `i` on that reaches `limit` or holds a byte with `p`.
def seek (bytes : Bytes) (p : UInt8 → Bool) (limit : Nat) : Nat → Nat → Nat
  | 0, i => i
  | fuel + 1, i =>
      if i < limit && !p (byteAt bytes i) then seek bytes p limit fuel (i + 1) else i

def skip (bytes : Bytes) (p : UInt8 → Bool) (limit i : Nat) : Nat := seek bytes p limit limit i

def blank (b : UInt8) : Bool := b == 0x20 || b == 0x09

def unquotedEnd (b : UInt8) : Bool :=
  b == 0x20 || b == 0x09 || b == 0x0D || b == 0x0A || b == 0x3E || b == 0x2F || b == 0x3B ||
    b == 0x22 || b == 0x27

-- The value after a `charset` that ends at `k`.
def charsetValue (bytes : Bytes) (tagEnd k : Nat) : Option Str :=
  let k := skip bytes (fun b => !blank b) tagEnd k
  if k < tagEnd && byteAt bytes k == 0x3D then
    let k := skip bytes (fun b => !blank b) tagEnd (k + 1)
    let quoted := k < tagEnd && (byteAt bytes k == 0x22 || byteAt bytes k == 0x27)
    let valStart := if quoted then k + 1 else k
    let quote := byteAt bytes k
    let last :=
      if quoted then skip bytes (· == quote) tagEnd valStart
      else skip bytes unquotedEnd tagEnd valStart
    -- Each byte becomes the character of its value.
    let rawCharset := ((bytes.drop valStart).take (last - valStart)).map fun b => b.toUInt16
    if 0 < rawCharset.length then some (normalizeCharset rawCharset) else none
  else none

def tagCharset (bytes : Bytes) (tagEnd : Nat) : Nat → Nat → Option Str
  | 0, _ => none
  | fuel + 1, j =>
      if j + 7 ≤ tagEnd then
        match if wordAt bytes j "charset" then charsetValue bytes tagEnd (j + 7) else none with
        | some charset => some charset
        | none => tagCharset bytes tagEnd fuel (j + 1)
      else none

def metaAt (bytes : Bytes) (len i : Nat) : Bool :=
  byteAt bytes i == 0x3C && i + 5 < len && wordAt bytes (i + 1) "meta" &&
    (blank (byteAt bytes (i + 5)) || byteAt bytes (i + 5) == 0x0A)

def metaCharset (bytes : Bytes) (len : Nat) : Nat → Nat → Option Str
  | 0, _ => none
  | fuel + 1, i =>
      if i < len then
        let found :=
          if metaAt bytes len i then
            tagCharset bytes (skip bytes (· == 0x3E) len (i + 5)) len (i + 5)
          else none
        match found with
        | some charset => some charset
        | none => metaCharset bytes len fuel (i + 1)
      else none

def sniffHtmlCharset (bytes : Bytes) : Option Str :=
  let len := min bytes.length 1024
  if 3 ≤ len && byteAt bytes 0 == 0xEF && byteAt bytes 1 == 0xBB && byteAt bytes 2 == 0xBF then
    some (str "UTF-8")
  else if 2 ≤ len && byteAt bytes 0 == 0xFF && byteAt bytes 1 == 0xFE then some (str "UTF-16LE")
  else if 2 ≤ len && byteAt bytes 0 == 0xFE && byteAt bytes 1 == 0xFF then some (str "UTF-16BE")
  else metaCharset bytes len len 0

def resolveContentType (path : Str) (registry : MimeRegistry) (defaultType : Str)
    (sampleBytes : Option Bytes) : Str :=
  let baseMime := registry.lookup path defaultType
  if !isTextMime baseMime then baseMime
  else if baseMime = str "text/html" then
    match sampleBytes.bind sniffHtmlCharset with
    | some cs => baseMime ++ str "; charset=" ++ cs
    | none => baseMime ++ str "; charset=UTF-8"
  else baseMime ++ str "; charset=UTF-8"

end HttpServer.Core
