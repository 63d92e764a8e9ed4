import HttpServer.Core.Request
import HttpServer.Library.StateRun

set_option autoImplicit false

namespace HttpServer.Core

open Unicode Text

inductive ConfigError where
  | invalidBaseUrl (message : Str)
  | invalidRoot (message : Str)
  | invalidPort (message : Str)
  | invalidTryFiles (message : Str)
  | conflictingRouting (message : Str)
  | invalidProxy (message : Str)
  | invalidAuth (message : Str)
  | invalidHeader (message : Str)
  | invalidTimeout (message : Str)
  | invalidTls (message : Str)
  | invalidLimits (message : Str)
  | invalidIoBackend (message : Str)
  deriving DecidableEq

structure RuntimeLimits where
  fileWorkers : Int32
  queuedOperations : Int32
  connections : Int32
  bodyBlockBytes : Int32
  bodyBufferBytes : Int32
  directoryMetadataBytes : Int32
  deriving DecidableEq

def RuntimeLimits.default : RuntimeLimits where
  fileWorkers := 4
  queuedOperations := 256
  connections := 1024
  bodyBlockBytes := 65536
  bodyBufferBytes := 67108864
  directoryMetadataBytes := 67108864

/-- The settings that validation, the planner or a server reads. -/
structure Config where
  limits : RuntimeLimits
  ioBackend : Str
  root : Str
  port : Int32
  baseUrl : Str
  defaultExt : Option Str
  spa : Bool
  tryFiles : Option Str
  gzip : Bool
  brotli : Bool
  forceContentEncoding : Bool
  autoIndex : Bool
  showDir : Bool
  showDotfiles : Bool
  dirOverrides404 : Bool
  cacheSeconds : Int32
  cacheControl : Option Str
  weakEtags : Bool
  weakCompare : Bool
  cors : Bool
  corsHeaders : Option Str
  coop : Bool
  coopHeader : Option Str
  pna : Bool
  basicAuth : Option (Str × Str)
  hostWhitelist : List Str
  customHeaders : Headers
  robots : Bool
  proxy : Option Str
  proxyAll : Option Str
  proxyOptions : OrderedMap Str Str
  websocket : Bool
  proxyConfig : Option Str
  certFile : Option Str
  keyFile : Option Str
  handleError : Bool
  idleTimeoutMs : Int32

def Config.default (root : Str) : Config where
  limits := .default
  ioBackend := str "platform"
  root
  port := 8080
  baseUrl := str "/"
  defaultExt := some (str "html")
  spa := false
  tryFiles := none
  gzip := false
  brotli := false
  forceContentEncoding := false
  autoIndex := true
  showDir := true
  showDotfiles := false
  dirOverrides404 := false
  cacheSeconds := 3600
  cacheControl := none
  weakEtags := true
  weakCompare := true
  cors := false
  corsHeaders := none
  coop := false
  coopHeader := none
  pna := false
  basicAuth := none
  hostWhitelist := []
  customHeaders := ∅
  robots := false
  proxy := none
  proxyAll := none
  proxyOptions := ∅
  websocket := false
  proxyConfig := none
  certFile := none
  keyFile := none
  handleError := true
  idleTimeoutMs := 120000

def Config.middlewareDefault (root : Str) : Config := { Config.default root with gzip := true }

def Config.hasFallback (c : Config) : Bool := c.spa || c.tryFiles.isSome

def Config.hasProxy (c : Config) : Bool :=
  c.proxy.isSome || c.proxyAll.isSome || c.proxyConfig.isSome || !c.proxyOptions.entries.isEmpty

def Config.hasWebsocketProxy (c : Config) : Bool := c.hasProxy && c.websocket

def Config.fallbackTargetFile (c : Config) : Option Str :=
  if c.spa then some (str "index.html") else c.tryFiles

def Config.effectiveCacheControl (c : Config) : Str :=
  match c.cacheControl with
  | some custom => custom
  | none =>
      if c.cacheSeconds < 0 then str "no-cache, no-store, must-revalidate"
      else str "max-age=" ++ ofInt c.cacheSeconds.toInt

abbrev Checked := Except ConfigError

def RuntimeLimits.validate (l : RuntimeLimits) : Checked Unit :=
  if l.fileWorkers < 1 ∨ 64 < l.fileWorkers ∨ l.queuedOperations < 1 ∨ l.connections < 1 ∨
      l.bodyBlockBytes < 1 ∨ 1048576 < l.bodyBlockBytes ∨
      l.bodyBufferBytes < l.bodyBlockBytes * 2 ∨ l.directoryMetadataBytes < 1 then
    throw (.invalidLimits (str ("positive capacities required; file_workers <= 64, " ++
      "body_block_bytes <= 1 MiB; body budget must hold both native and delivered blocks")))
  else pure ()

def validateRoot (root : Str) : Checked Str :=
  if root = [] ∨ Text.contains root [0] then
    throw (.invalidRoot (str "root cannot be empty or contain null bytes"))
  else pure root

def normalizeBaseUrl (value : Str) : Checked Str :=
  if value = [] ∨ value = str "/" then pure (str "/")
  else if Text.contains value (str "?") || Text.contains value (str "#") ||
      Text.contains value (str "\\") || Text.contains value [0] ||
      Text.contains value (str "\r") || Text.contains value (str "\n") then
    throw (.invalidBaseUrl (str "base_url contains invalid characters"))
  else if Text.contains value (str "..") || Text.contains value (str "//") then
    throw (.invalidBaseUrl (str "base_url contains dot segments or consecutive slashes"))
  else
    let prefixed := if hasPrefix value (str "/") then value else str "/" ++ value
    pure (if 1 < prefixed.length && hasSuffix prefixed (str "/") then prefixed.dropLast
      else prefixed)

def validateTryFilesPath (path : Str) : Checked Str :=
  if path = [] then throw (.invalidTryFiles (str "try_files path cannot be empty"))
  else if hasPrefix path (str "/") then
    throw (.invalidTryFiles
      (str "try_files path must be relative to root, cannot start with '/'"))
  else if Text.contains path [0] || Text.contains path (str "\\") ||
      Text.contains path (str "\r") || Text.contains path (str "\n") then
    throw (.invalidTryFiles (str "try_files path contains invalid characters"))
  else if Text.contains path (str "$uri") || Text.contains path (str "=404") ||
      Text.contains path (str " ") || Text.contains path (str ",") then
    throw (.invalidTryFiles
      (str "try_files does not support Nginx multi-candidate or variable syntax"))
  else
    let rec parts : List Str → Checked Unit
      | [] => pure ()
      | part :: rest =>
          if part = str ".." ∨ part = str "." then
            throw (.invalidTryFiles (str "try_files path cannot contain dot segments"))
          else if part = [] then
            throw (.invalidTryFiles (str "try_files path cannot contain consecutive slashes"))
          else parts rest
    do
      parts (split path (unit '/'))
      return path

def proxyPort (portStr : Str) : List Nat → Int32 → Checked Unit
  | [], _ => pure ()
  | c :: rest, p =>
      if c < 0x30 ∨ 0x39 < c then
        throw (.invalidProxy (str "proxy URL has invalid non-numeric port: " ++ portStr))
      else
        let p := p * 10 + (Int32.ofNat c - 48)
        if 65535 < p then
          throw (.invalidProxy (str "proxy URL port exceeds 65535: " ++ portStr))
        else proxyPort portStr rest p

def validateProxyUrl (url : Str) : Checked Unit :=
  let url :=
    if hasPrefix url (str "wss://") then str "https://" ++ url.drop 6
    else if hasPrefix url (str "ws://") then str "http://" ++ url.drop 5
    else url
  if !hasPrefix url (str "http://") && !hasPrefix url (str "https://") then
    throw (.invalidProxy (str "proxy URL must start with http:// or https://"))
  else
    let rest := url.drop (if hasPrefix url (str "https://") then 8 else 7)
    let authEnd := match find rest (unit '/') with
      | some idx => idx
      | none => (find rest (unit '?')).getD rest.length
    let authority := rest.take authEnd
    match find authority (unit ':') with
    | some colon =>
        let portStr := authority.drop (colon + 1)
        if portStr.length = 0 then
          throw (.invalidProxy (str "proxy URL missing port number after ':'"))
        else proxyPort portStr (codePoints portStr) 0
    | none => pure ()

def validateTls (c : Config) : Checked Unit :=
  match c.certFile, c.keyFile with
  | some _, some _ => pure ()
  | some _, none => throw (.invalidTls (str "cert_file requires key_file to be set"))
  | none, some _ => throw (.invalidTls (str "key_file requires cert_file to be set"))
  | none, none => pure ()

def ioBackends : List Str :=
  ["platform", "auto", "epoll", "kqueue", "iocp", "io_uring"].map str

def validateIoBackend (other : Str) : Checked Unit :=
  if other ∈ ioBackends then pure ()
  else throw (.invalidIoBackend (str "unsupported backend '" ++ other ++
    str "'; expected platform, auto, epoll, kqueue, iocp, or io_uring"))

def crlfIn (s : Str) : Bool := Text.contains s (str "\r") || Text.contains s (str "\n")

def validateCustomHeaders : List (Str × Str) → Checked Unit
  | [] => pure ()
  | (k, v) :: rest =>
      if crlfIn k || crlfIn v then
        throw (.invalidHeader (str "custom headers cannot contain CRLF characters"))
      else validateCustomHeaders rest

def validateBasicAuth : Option (Str × Str) → Checked Unit
  | some (username, password) =>
      if Text.contains username (str ":") || Text.contains username [0] ||
          Text.contains password [0] then
        throw (.invalidAuth (str "username cannot contain ':' or null bytes"))
      else pure ()
  | none => pure ()

def validateRouting (c : Config) : Checked Unit :=
  let hasProxy := c.proxy.isSome || c.proxyAll.isSome || c.proxyConfig.isSome ||
    !c.proxyOptions.entries.isEmpty
  if c.spa && c.tryFiles.isSome then
    throw (.conflictingRouting
      (str "cannot specify both --spa and --try-files (mutual exclusion violation)"))
  else if c.hasFallback && hasProxy then
    throw (.conflictingRouting (str ("cannot combine page fallback (--spa or --try-files) " ++
      "with proxy configuration")))
  else if c.proxyAll.isSome && c.proxy.isNone then
    throw (.invalidProxy (str "--proxy-all requires --proxy to be configured"))
  else pure ()

def validateConfig (c : Config) : Checked Unit := do
  c.limits.validate
  let _ ← validateRoot c.root
  let _ ← normalizeBaseUrl c.baseUrl
  if c.port < 0 ∨ 65535 < c.port then
    throw (.invalidPort (str "port must be between 0 and 65535"))
  if c.idleTimeoutMs < 0 then
    throw (.invalidTimeout (str "idle_timeout_ms cannot be negative"))
  validateIoBackend c.ioBackend
  if let some tf := c.tryFiles then
    let _ ← validateTryFilesPath tf
  validateRouting c
  if let some p := c.proxy then
    validateProxyUrl p
  validateBasicAuth c.basicAuth
  if c.cacheSeconds < -1 then
    throw (.invalidHeader (str "cache_seconds cannot be less than -1"))
  validateCustomHeaders c.customHeaders.entries
  validateTls c

theorem validateConfig_tryFiles {c : Config} {tf : Str} (valid : validateConfig c = .ok ())
    (some : c.tryFiles = some tf) : ∃ path, validateTryFilesPath tf = .ok path := by
  simp only [validateConfig, StateRun.except_bind_ok, StateRun.except_ite_ok,
    StateRun.except_throw_ok, false_and, exists_false, and_false, false_or, some] at valid
  obtain ⟨-, -, -, -, -, -, -, -, -, -, path, checked, -⟩ := valid
  exact ⟨path, checked⟩

theorem validateConfig_customHeaders {c : Config} (valid : validateConfig c = .ok ()) :
    validateCustomHeaders c.customHeaders.entries = .ok () := by
  cases tryFiles : c.tryFiles <;> cases proxy : c.proxy
  all_goals
    simp only [validateConfig, StateRun.except_bind_ok, StateRun.except_ite_ok,
      StateRun.except_throw_ok, false_and, exists_false, and_false, false_or, tryFiles,
      proxy] at valid
    grind

theorem validateConfig_block {c : Config} (valid : validateConfig c = .ok ()) :
    0 < c.limits.bodyBlockBytes.toInt := by
  have limits : c.limits.validate = .ok () := by
    simp only [validateConfig, StateRun.except_bind_ok] at valid
    obtain ⟨_, checked, -⟩ := valid
    exact checked
  unfold RuntimeLimits.validate at limits
  split_ifs at limits with bad
  simp only [not_or, Int32.lt_iff_toInt_lt] at bad
  have one : (1 : Int32).toInt = 1 := by decide
  omega

end HttpServer.Core
