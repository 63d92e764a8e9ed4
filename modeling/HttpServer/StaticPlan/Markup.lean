import HttpServer.StaticPlan.Plan
import HttpServer.StaticPlan.Timestamps

set_option autoImplicit false

namespace HttpServer.StaticPlan

open Unicode Text HttpServer.Core

def escapeChar (c : Nat) : Str :=
  if c = 0x26 then str "&#x26;"
  else if c = 0x3C then str "&#x3C;"
  else if c = 0x3E then str "&#x3E;"
  else if c = 0x22 then str "&#x22;"
  else if c = 0x27 then str "&#x27;"
  else utf16 c

def escapeHtml (s : Str) : Str := (codePoints s).flatMap escapeChar

def unreservedByte (cp : Nat) : Bool :=
  (0x41 ≤ cp && cp ≤ 0x5A) || (0x61 ≤ cp && cp ≤ 0x7A) || (0x30 ≤ cp && cp ≤ 0x39) ||
    cp == 0x2D || cp == 0x5F || cp == 0x2E || cp == 0x7E

def hexDigit (n : Nat) : UInt16 := (str "0123456789ABCDEF").getD n 0

def encodeByte (b : UInt8) : Str :=
  let cp := b.toNat
  if unreservedByte cp then [UInt16.ofNat cp]
  else [unit '%', hexDigit (cp / 16), hexDigit (cp % 16)]

def encodePathSegment (s : Str) : Str := (encode s).flatMap encodeByte

def ofInt64 (n : Int64) : Str := ofInt n.toInt

def format1dec (val : Float) : Str :=
  let rounded := (val * 10.0 + 0.5).toInt64
  ofInt64 (rounded / 10) ++ str "." ++ ofInt64 (rounded % 10)

def formatFileSize (size : Int64) : Str :=
  if size < 1024 then ofInt64 size ++ str "B"
  else if size < 1048576 then format1dec (size.toFloat / 1024.0) ++ str "k"
  else if size < 1073741824 then format1dec (size.toFloat / 1048576.0) ++ str "M"
  else format1dec (size.toFloat / 1073741824.0) ++ str "G"

def beforeTitle : Str :=
  str "<!doctype html>\n<html>\n<head>\n" ++ str "  <meta charset=\"utf-8\">\n" ++
    str "  <meta name=\"viewport\" content=\"width=device-width\">\n" ++ str "  <title>Index of "

def beforeHeading : Str :=
  str "</title>\n" ++ str "  <style type=\"text/css\">\n" ++
    str "    body \x7b font-family: sans-serif; margin: 2rem; \x7d\n" ++
    str "    table \x7b border-collapse: collapse; width: 100%; max-width: 960px; \x7d\n" ++
    str "    td \x7b padding: 4px 10px; \x7d\n" ++
    str "    td.file-size \x7b text-align: right; font-family: monospace; \x7d\n" ++
    str "    td.last-modified \x7b color: #666; font-size: 0.9em; \x7d\n" ++
    str "  </style>\n</head>\n<body>\n" ++ str "<h1>Index of "

def listingHeader (titlePath : Str) (_rawQuery : Option Str) : Str :=
  let encTitle := escapeHtml titlePath
  beforeTitle ++ encTitle ++ beforeHeading ++ encTitle ++ str "</h1>\n<table>\n"

def querySuffix (rawQuery : Option Str) : Str :=
  match rawQuery with
  | some q => if 0 < q.length then str "?" ++ escapeHtml q else []
  | none => []

def entryHref (entry : ListingEntry) (rawQuery : Option Str) : Str :=
  if entry.isDir then str "./" ++ encodePathSegment entry.name ++ str "/" ++ querySuffix rawQuery
  else str "./" ++ encodePathSegment entry.name

def listingRow (entry : ListingEntry) (rawQuery : Option Str) : Str :=
  if entry.isCompanion then []
  else if entry.name = str ".." then
    str "<tr>" ++ str "<td class=\"last-modified\"></td>" ++ str "<td class=\"file-size\"></td>" ++
      (str "<td class=\"display-name\"><a href=\"../" ++ querySuffix rawQuery ++
        str "\">../</a></td>") ++ str "</tr>\n"
  else
    let encodedName := encodePathSegment entry.name
    let displayName := escapeHtml entry.name ++ if entry.isDir then str "/" else []
    let sizeStr := if entry.isDir then [] else formatFileSize entry.size
    str "<tr>" ++
      (str "<td class=\"last-modified\">" ++ formatListingTimestamp entry.mtimeSec ++ str "</td>") ++
      (str "<td class=\"file-size\"><code>" ++ sizeStr ++ str "</code></td>") ++
      (str "<td class=\"display-name\"><a href=\"" ++ entryHref entry rawQuery ++ str "\">" ++
        displayName ++ str "</a>") ++
      (if entry.hasBr then
        str " <span class=\"badge\"><a href=\"./" ++ encodedName ++ str ".br\">[br]</a></span>"
      else []) ++
      (if entry.hasGz then
        str " <span class=\"badge\"><a href=\"./" ++ encodedName ++ str ".gz\">[gz]</a></span>"
      else []) ++ str "</td></tr>\n"

def listingFooter (host : Str) : Str :=
  str "</table>\n<br><address>http-server running @ " ++ escapeHtml host ++
    str "</address>\n</body></html>"

def renderDirectoryHtml (titlePath : Str) (entries : List ListingEntry) (rawQuery : Option Str)
    (host : Str) : Str :=
  listingHeader titlePath rawQuery ++ entries.flatMap (listingRow · rawQuery) ++ listingFooter host

def Tagged (t : Str) : Prop := ∀ u, t.head? = some u → u = unit '<'

theorem encode_tagged (s : Str) {t : Str} (tagged : Tagged t) :
    encode (s ++ t) = encode s ++ encode t := by
  cases t with
  | nil => rw [List.append_nil, show encode [] = [] from rfl, List.append_nil]
  | cons u rest =>
    have low : u.toNat < 0x80 := by
      rw [tagged u rfl]
      decide
    have alone := encode_append_ascii [] u rest low
    rw [List.nil_append, show encode [] = [] from rfl, List.nil_append] at alone
    rw [encode_append_ascii s u rest low, alone]

theorem listingRow_tagged (entry : ListingEntry) (query : Option Str) :
    Tagged (listingRow entry query) := by
  intro u first
  unfold listingRow at first
  split_ifs at first
  · cases first
  all_goals exact (Option.some.inj first).symm

theorem encode_rows (s : Str) (entries : List ListingEntry) (query : Option Str) {t : Str}
    (tagged : Tagged t) : encode (s ++ (entries.flatMap (listingRow · query) ++ t)) =
      encode s ++ (entries.flatMap (fun entry => encode (listingRow entry query)) ++ encode t) := by
  induction entries generalizing s with
  | nil => exact encode_tagged s tagged
  | cons entry rest ih =>
    have later := ih (s ++ listingRow entry query)
    rw [encode_tagged s (listingRow_tagged entry query)] at later
    simpa only [List.flatMap_cons, List.append_assoc] using later

-- The page is encoded piece by piece.
theorem encode_renderDirectoryHtml (title : Str) (entries : List ListingEntry)
    (query : Option Str) (host : Str) :
    encode (renderDirectoryHtml title entries query host) =
      encode (listingHeader title query) ++
        (entries.flatMap (fun entry => encode (listingRow entry query)) ++
          encode (listingFooter host)) := by
  have tagged : Tagged (listingFooter host) := fun u first => (Option.some.inj first).symm
  rw [renderDirectoryHtml, List.append_assoc, encode_rows _ _ _ tagged]

end HttpServer.StaticPlan
