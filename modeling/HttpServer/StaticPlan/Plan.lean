import HttpServer.Library.Dialogue
import HttpServer.Core.Security
import HttpServer.Core.Mime
import HttpServer.Core.Range
import HttpServer.Core.Cache

set_option autoImplicit false

namespace HttpServer.StaticPlan

open Unicode Text HttpServer.Core

structure File where
  token : Int32
  kind : Int32
  size : Int64
  mtime : Int64
  deriving DecidableEq

structure ListingEntry where
  name : Str
  isDir : Bool
  size : Int64
  mtimeSec : Int64
  isCompanion : Bool
  hasBr : Bool
  hasGz : Bool
  deriving DecidableEq

structure ListingStream where
  entries : List ListingEntry
  title : Str
  query : Option Str
  host : Str
  stage : Int32
  index : Int32
  pending : Bytes
  position : Int32
  deriving DecidableEq

inductive Body where
  | empty
  | bytes (content : Bytes)
  | fileRegion (file : File) (offset length : Int64)
  | listing (stream : ListingStream)
  deriving DecidableEq

structure Response where
  status : Int32
  headers : Headers
  body : Body
  deriving DecidableEq

inductive Query where
  | opens (path : Str)
  | reads (file : File) (count : Int32)
  | lists (path : Str)
  deriving DecidableEq

def Query.Answer : Query → Type
  | .opens _ => Option File
  | .reads _ _ => Bytes
  | .lists _ => List ListingEntry

/-- How a run ends: `Done`, `Next`, a raised `Changed`, or a trap. -/
inductive Outcome where
  | responds (response : Response)
  | next
  | changed
  | trap
  deriving DecidableEq

-- `Open`, `Prefix` and `List` ask the host, each with its continuation.
abbrev Step := Dialogue Query Query.Answer Outcome

def Step.opens (path : Str) (next : Option File → Step) : Step := .ask (.opens path) next

def Step.reads (file : File) (count : Int32) (next : Bytes → Step) : Step :=
  .ask (.reads file count) next

def Step.lists (path : Str) (next : List ListingEntry → Step) : Step := .ask (.lists path) next

def compareStr (a b : Str) : Ordering :=
  (compare a.length b.length).then (compareOfLessAndEq (a.map UInt16.toNat) (b.map UInt16.toNat))

def compareEntries (a b : ListingEntry) : Ordering :=
  (compareStr (toLower a.name) (toLower b.name)).then (compareStr a.name b.name)

def sortEntries (entries : List ListingEntry) : List ListingEntry :=
  entries.mergeSort fun a b => compareEntries a b != .gt

-- The name of the file a compressed sibling belongs to.
def companionOf (e : ListingEntry) : Option (Str × Bool) :=
  if !e.isDir && 3 < e.name.length && (hasSuffix e.name (str ".br") || hasSuffix e.name (str ".gz"))
  then some (e.name.take (e.name.length - 3), hasSuffix e.name (str ".br"))
  else none

-- `names` maps a name to the last visible entry that has it, so that entry takes the mark.
def markEntries (visible : List ListingEntry) : List ListingEntry :=
  let present (name : Str) := visible.any (·.name == name)
  let companions := visible.filterMap companionOf
  let rec mark : List ListingEntry → List ListingEntry
    | [] => []
    | e :: rest =>
        let last := !rest.any (·.name == e.name)
        { e with
          isCompanion := e.isCompanion || (companionOf e).any fun base => present base.1
          hasBr := e.hasBr || last && companions.contains (e.name, true)
          hasGz := e.hasGz || last && companions.contains (e.name, false) } :: mark rest
  mark visible

structure Planner where
  config : Config
  request : Request
  mime : MimeRegistry

def Planner.header (self : Planner) (name : Str) : Option Str :=
  findHeaderCaseInsensitive self.request.headers name

def join (root path : Str) : Str :=
  if path = [] then normRoot root else normRoot root ++ str "/" ++ path

def Planner.response (self : Planner) (status : Int32) (headers : Headers) (body : Body) : Step :=
  .done (.responds
    { status
      headers := applySecurityHeaders headers self.config self.request.meth
      body := if self.request.meth = .head then .empty else body })

def Planner.text (self : Planner) (status : Int32) (text : Str) : Step :=
  let bytes := encode text
  self.response status (OrderedMap.ofList
    [(str "Content-Type", str "text/plain; charset=UTF-8"),
      (str "Content-Length", ofNat bytes.length)]) (.bytes bytes)

def Planner.terminal (self : Planner) : Step := self.text 404 (str "File not found. :(")

def Planner.notFound (self : Planner) : Step :=
  .opens (join self.config.root (str "404.html")) fun file =>
    match file with
    | some f =>
        if f.kind = 1 then
          self.response 404 (OrderedMap.ofList
            [(str "Content-Type", str "text/html; charset=UTF-8"),
              (str "Content-Length", ofInt f.size.toInt)]) (.fileRegion f 0 f.size)
        else self.terminal
    | none => self.terminal

def zeroWeight (p : Str) : Bool :=
  [str "q=0", str "q=0.0", str "q=0.00", str "q=0.000"].contains (trim p)

def acceptsLoop (encoding : Str) : List Str → Bool → Bool
  | [], accepted => accepted
  | part :: rest, accepted =>
      let parts := split (trim part) (unit ';')
      let name := trim (parts.headD [])
      let zero := parts.tail.any zeroWeight
      if zero && (name == encoding || name == str "*") then false
      else if !zero && (name == encoding || name == str "*" ||
          encoding == str "gzip" && (name == str "compress" || name == str "deflate")) then
        acceptsLoop encoding rest true
      else acceptsLoop encoding rest accepted

def accepts (value encoding : Str) : Bool :=
  acceptsLoop encoding (split (toLower value) (unit ',')) false

structure Choice where
  path : Str
  represented : Str
  encoding : Option Str
  deriving DecidableEq

def br : Str := str "br"

def gzip : Str := str "gzip"

def forcedChoices (c : Config) (path : Str) (index : Bool) : List Choice :=
  if !index && c.forceContentEncoding then
    if hasSuffix path (str ".br") && 3 < path.length then
      [⟨path, path.take (path.length - 3), some br⟩]
    else if hasSuffix path (str ".gz") && 3 < path.length then
      [⟨path, path.take (path.length - 3), some gzip⟩]
    else []
  else []

def defaultChoices (c : Config) (path : Str) (index : Bool) : List Choice :=
  match c.defaultExt with
  | some ext =>
      if !index && !hasFileExtension path then
        [⟨path ++ str "." ++ ext, path ++ str "." ++ ext, none⟩]
      else []
  | none => []

def Planner.representations (self : Planner) (path : Str) (index : Bool) : List Choice :=
  let c := self.config
  let accept := (self.header (str "accept-encoding")).getD []
  forcedChoices c path index ++
    (if c.brotli && accepts accept br then [⟨path ++ str ".br", path, some br⟩] else []) ++
    (if c.gzip && accepts accept gzip then [⟨path ++ str ".gz", path, some gzip⟩] else []) ++
    [⟨path, path, none⟩] ++ defaultChoices c path index

def octetStream : Str := str "application/octet-stream"

def Planner.validators (self : Planner) (file : File) : EntityTag × Str :=
  (EntityTag.fromMetadata file.size file.mtime self.config.weakEtags, formatHttpDate file.mtime)

structure Reply where
  status : Int32
  headers : Headers
  body : Body

def Planner.reply (self : Planner) (r : Reply) : Step := self.response r.status r.headers r.body

def Planner.ranged (self : Planner) (file : File) (headers : Headers) : Reply :=
  let whole : Reply := ⟨200, headers, .fileRegion file 0 file.size⟩
  if (self.header (str "if-range")).isNone then
    match self.header (str "range") with
    | some range =>
        match parseRangeSpec range file.size with
        | .satisfiable r =>
            ⟨206, (headers.insert (str "Content-Range")
                (formatContentRange r.start r.end file.size)).insert (str "Content-Length")
                (ofInt (r.end - r.start + 1).toInt),
              .fileRegion file r.start (r.end - r.start + 1)⟩
        | .notSatisfiable =>
            let bytes := encode (str "Requested range not satisfiable")
            ⟨416, ((headers.insert (str "Content-Range")
                (formatContentRangeUnsatisfiable file.size)).insert (str "Content-Length")
                (ofNat bytes.length)).insert (str "Content-Type") (str "text/plain; charset=UTF-8"),
              .bytes bytes⟩
        | .notApplicable => whole
    | none => whole
  else whole

def Planner.fileHeaders (self : Planner) (file : File) (path : Str) (encoding : Option Str)
    (sample : Option Bytes) : Headers :=
  let (tag, date) := self.validators file
  let headers := OrderedMap.ofList
    [(str "Content-Type", resolveContentType path self.mime octetStream sample),
      (str "Cache-Control", self.config.effectiveCacheControl),
      (str "Accept-Ranges", str "bytes"), (str "ETag", tag.toHeaderValue),
      (str "Last-Modified", date), (str "Content-Length", ofInt file.size.toInt)]
  match encoding with
  | some enc =>
      (headers.insert (str "Content-Encoding") enc).insert (str "Vary") (str "Accept-Encoding")
  | none => headers

def Planner.notModified (self : Planner) (file : File) (encoding : Option Str) : Reply :=
  let (tag, date) := self.validators file
  let headers := OrderedMap.ofList
    [(str "ETag", tag.toHeaderValue), (str "Last-Modified", date),
      (str "Cache-Control", self.config.effectiveCacheControl), (str "Content-Length", str "0")]
  ⟨304, if encoding.isSome then headers.insert (str "Vary") (str "Accept-Encoding") else headers,
    .empty⟩

def Planner.fileReply (self : Planner) (file : File) (path : Str) (encoding : Option Str)
    (sample : Option Bytes) : Reply :=
  let reply := self.ranged file (self.fileHeaders file path encoding sample)
  if reply.status = 200 && shouldReturn304 (self.header (str "if-none-match"))
      (self.header (str "if-modified-since")) file.mtime (self.validators file).1
      self.config.weakCompare then self.notModified file encoding
  else reply

def Planner.fileResponse (self : Planner) (file : File) (path : Str) (encoding : Option Str)
    (sample : Option Bytes) : Step :=
  self.reply (self.fileReply file path encoding sample)

-- Only uncompressed text is sniffed.
def Planner.serve (self : Planner) (file : File) (path : Str) (encoding : Option Str) : Step :=
  let mime := resolveContentType path self.mime octetStream none
  if encoding.isNone && isTextMime mime && 0 < file.size then
    .reads file 1024 fun bytes => self.fileResponse file path encoding (some bytes)
  else self.fileResponse file path encoding none

def gzipMagic (bytes : Bytes) : Bool := bytes == [0x1F, 0x8B]

-- `choose` from `index` on, by recursion on the choices that are left.
def Planner.chooseFrom (self : Planner) (missing : Step) : List Choice → Nat → Step
  | [], _ => missing
  | choice :: rest, index =>
      .opens choice.path fun file =>
        match file with
        | some f =>
            if f.kind = 1 then
              if choice.encoding = some gzip then
                .reads f 2 fun bytes =>
                  if gzipMagic bytes then self.serve f choice.represented choice.encoding
                  else if index = 0 && self.config.forceContentEncoding &&
                      hasSuffix choice.path (str ".gz") && choice.represented != choice.path then
                    .done .changed
                  else self.chooseFrom missing rest (index + 1)
              else self.serve f choice.represented choice.encoding
            else self.chooseFrom missing rest (index + 1)
        | none => self.chooseFrom missing rest (index + 1)

def Planner.choose (self : Planner) (choices : List Choice) (missing : Step) : Step :=
  self.chooseFrom missing choices 0

def parentEntry : ListingEntry := ⟨str "..", true, 0, 0, false, false, false⟩

def Planner.listingEntries (self : Planner) (path : Str) (entries : List ListingEntry) :
    List ListingEntry :=
  let visible := entries.filter fun e => self.config.showDotfiles || !hasPrefix e.name (str ".")
  let marked := markEntries visible
  let dirs := sortEntries (marked.filter fun e => e.isDir && !e.isCompanion)
  let files := sortEntries (marked.filter fun e => !e.isDir && !e.isCompanion)
  (if path ≠ join self.config.root [] then [parentEntry] else []) ++ dirs ++ files

def Planner.listing (self : Planner) (path rawPath : Str) (query : Option Str) : Step :=
  let headers := OrderedMap.ofList [(str "Content-Type", str "text/html; charset=UTF-8")]
  if self.request.meth = .head then self.response 200 headers .empty
  else .lists path fun entries =>
    self.response 200 headers (.listing
      { entries := self.listingEntries path entries
        title := rawPath
        query
        host := (self.header (str "host")).getD (str "localhost")
        stage := 0
        index := 0
        pending := []
        position := 0 })

-- The end of a request that no file answers, where no fallback is configured.
def Planner.unanswered (self : Planner) : Step :=
  if !self.config.handleError || self.config.proxy.isSome then .done .next else self.notFound

def Planner.directoryMissing (self : Planner) (path rawPath : Str) (query : Option Str) : Step :=
  let c := self.config
  if c.showDir then
    if !c.dirOverrides404 && !c.hasFallback then
      .opens (join c.root (str "404.html")) fun f =>
        match f with
        | some file =>
            if file.kind = 1 then self.notFound else self.listing path rawPath query
        | none => self.listing path rawPath query
    else self.listing path rawPath query
  else self.unanswered

def Planner.directory (self : Planner) (path rawPath : Str) (query : Option Str) : Step :=
  let c := self.config
  if !hasSuffix rawPath (str "/") then
    if !c.autoIndex && !c.showDir then self.notFound
    else self.response 302 (OrderedMap.ofList
      [(str "Location", formatDirRedirect rawPath query),
        (str "Content-Type", str "text/html; charset=UTF-8"),
        (str "Content-Length", str "0")]) .empty
  else
    let missing := self.directoryMissing path rawPath query
    if c.autoIndex then
      let name := join path (str "index." ++ c.defaultExt.getD (str "html"))
      self.choose (self.representations name true) missing
    else missing

def Planner.fileMissing (self : Planner) : Step :=
  let c := self.config
  if c.hasFallback then
    let fallback := join c.root (c.fallbackTargetFile.getD (str "index.html"))
    self.choose (self.representations fallback true) self.terminal
  else self.unanswered

def Planner.resolved (self : Planner) (path rawPath : Str) (query : Option Str) : Step :=
  let direct := self.choose (self.representations path false) self.fileMissing
  .opens path fun file =>
    match file with
    | some f => if f.kind = 2 then self.directory path rawPath query else direct
    | none => direct

def Planner.refuse (self : Planner) (status : Int32) (headers : Headers) (bytes : Bytes) : Step :=
  self.response status ((headers.insert (str "Content-Type") (str "text/plain; charset=UTF-8")).insert
    (str "Content-Length") (ofNat bytes.length)) (.bytes bytes)

def Planner.files (self : Planner) : Step :=
  let c := self.config
  let parts := split self.request.target (unit '?')
  let rawPath := parts.headD []
  let query := parts[1]?
  if c.robots && rawPath == str "/robots.txt" then
    let bytes := encode (str "User-agent: *\nDisallow: /\n")
    self.response 200 (OrderedMap.ofList
      [(str "Content-Type", str "text/plain"), (str "Content-Length", ofNat bytes.length)])
      (.bytes bytes)
  else match resolvePath c.root c.baseUrl self.request.target with
    | .ok path => self.resolved path rawPath query
    | .error (.outsideBaseUrl _) =>
        self.response 403 (OrderedMap.ofList [(str "Content-Length", str "0")]) .empty
    | .error (.traversalForbidden _) => self.text 403 (str "Access denied")
    | .error (.malformedUri _) => self.text 400 (str "Bad Request")
    | .error (.notFound _) =>
        if c.handleError && c.proxy.isNone then self.notFound else .done .next

def start (config : Config) (request : Request) (mime : MimeRegistry) : Step :=
  let p : Planner := ⟨config, request, mime⟩
  match evaluateSecurityPolicies config request with
  | none => .done .trap
  | some (.unauthorized headers bytes) => p.refuse 401 headers bytes
  | some (.forbidden headers bytes) => p.refuse 403 headers bytes
  | some (.preflight headers) =>
      p.response 204 (headers.insert (str "Content-Length") (str "0")) .empty
  | some .proceed =>
      match request.meth with
      | .other _ => .done .next
      | _ => p.files

end HttpServer.StaticPlan
