import HttpServer.Core.Config
import HttpServer.FrontEnds.Decoding

set_option autoImplicit false

namespace HttpServer.FrontEnds

open Unicode Text HttpServer.Core
open Wasm (Json)

inductive DecodeError where
  | invalidConfig
  | unsupported
  | config (error : ConfigError)
  deriving DecidableEq

abbrev Decoded := Except DecodeError

/-- A configuration with the settings that neither validation nor the planner reads. -/
structure FullConfig extends Config where
  address : Str
  keyPassphrase : Option Str
  caFile : Option Str
  secure : Bool
  mimeTypes : OrderedMap Str Str
  logIp : Bool
  silent : Bool

def FullConfig.of (config : Config) : FullConfig where
  toConfig := config
  address := str "0.0.0.0"
  keyPassphrase := none
  caFile := none
  secure := true
  mimeTypes := ∅
  logIp := false
  silent := false

def hasTls (c : Config) : Bool := c.certFile.isSome || c.keyFile.isSome

def validate (c : FullConfig) : Decoded Unit :=
  match validateConfig c.toConfig with
  | .ok () => pure ()
  | .error e => throw (.config e)

def string : Json → Decoded Str
  | .string s => pure s
  | _ => throw .invalidConfig

def boolean : Json → Decoded Bool
  | .bool b => pure b
  | _ => throw .invalidConfig

-- `double` reads a number, `none` where it is not finite; `to_int` cuts the fraction off.
def integer (double : Str → Option Rat) : Json → Decoded Int32
  | .number text =>
      match double text with
      | some n =>
          let whole := n.num.tdiv n.den
          if -2147483648 ≤ n ∧ n ≤ 2147483647 ∧ (whole : Rat) = n then pure (Int32.ofInt whole)
          else throw .invalidConfig
      | none => throw .invalidConfig
  | _ => throw .invalidConfig

def optionalString : Json → Decoded (Option Str)
  | .null => pure none
  | v => some <$> string v

def stringMap : Json → Decoded (OrderedMap Str Str)
  | .object fields => fields.foldlM (fun result field => return result.insert field.1 (← string field.2)) ∅
  | _ => throw .invalidConfig

def normalizedBase (v : Json) : Decoded Str := do
  match normalizeBaseUrl (← string v) with
  | .ok base => pure base
  | .error e => throw (.config e)

def credentials : Json → Decoded (Str × Str)
  | .array [.string user, .string password] => pure (user, password)
  | _ => throw .invalidConfig

def strings : Json → Decoded (List Str)
  | .array items => items.mapM string
  | _ => throw .invalidConfig

def limitField (double : Str → Option Rat) (l : RuntimeLimits) (field : Str × Json) :
    Decoded RuntimeLimits := do
  let n ← integer double field.2
  if field.1 = str "file_workers" then return { l with fileWorkers := n }
  else if field.1 = str "queued_operations" then return { l with queuedOperations := n }
  else if field.1 = str "connections" then return { l with connections := n }
  else if field.1 = str "body_block_bytes" then return { l with bodyBlockBytes := n }
  else if field.1 = str "body_buffer_bytes" then return { l with bodyBufferBytes := n }
  else if field.1 = str "directory_metadata_bytes" then return { l with directoryMetadataBytes := n }
  else throw .invalidConfig

def limitFields (double : Str → Option Rat) (v : Json) (l : RuntimeLimits) : Decoded RuntimeLimits :=
  match v with
  | .object fields => fields.foldlM (limitField double) l
  | _ => throw .invalidConfig

/-- The literals that the two `match key` name between them. -/
inductive Key where
  | root | ioBackend | port | address | baseUrl | defaultExt | spa | tryFiles | gzip | brotli
  | forceContentEncoding | autoIndex | showDir | showDotfiles | dirOverrides404 | cacheSeconds
  | cacheControl | weakEtags | weakCompare | cors | corsHeaders | coop | coopHeader | pna
  | robots | handleError | idleTimeoutMs | mimeTypes | customHeaders | basicAuth | hostWhitelist
  | certFile | keyFile | keyPassphrase | caFile | secure | proxy | proxyAll | proxyOptions
  | proxyConfig | websocket | silent | logIp | limits
  deriving DecidableEq

def keyNames : List (Str × Key) :=
  [(str "root", .root), (str "io_backend", .ioBackend), (str "port", .port),
    (str "address", .address), (str "base_url", .baseUrl), (str "default_ext", .defaultExt),
    (str "spa", .spa), (str "try_files", .tryFiles), (str "gzip", .gzip), (str "brotli", .brotli),
    (str "force_content_encoding", .forceContentEncoding), (str "auto_index", .autoIndex),
    (str "show_dir", .showDir), (str "show_dotfiles", .showDotfiles),
    (str "dir_overrides_404", .dirOverrides404), (str "cache_seconds", .cacheSeconds),
    (str "cache_control", .cacheControl), (str "weak_etags", .weakEtags),
    (str "weak_compare", .weakCompare), (str "cors", .cors), (str "cors_headers", .corsHeaders),
    (str "coop", .coop), (str "coop_header", .coopHeader), (str "pna", .pna),
    (str "robots", .robots), (str "handle_error", .handleError),
    (str "idle_timeout_ms", .idleTimeoutMs), (str "mime_types", .mimeTypes),
    (str "custom_headers", .customHeaders), (str "basic_auth", .basicAuth),
    (str "host_whitelist", .hostWhitelist), (str "cert_file", .certFile),
    (str "key_file", .keyFile), (str "key_passphrase", .keyPassphrase), (str "ca_file", .caFile),
    (str "secure", .secure), (str "proxy", .proxy), (str "proxy_all", .proxyAll),
    (str "proxy_options", .proxyOptions), (str "proxy_config", .proxyConfig),
    (str "websocket", .websocket), (str "silent", .silent), (str "log_ip", .logIp),
    (str "limits", .limits)]

def keyOf (key : Str) : Option Key := OrderedMap.lookup key keyNames

def rootOf (obj : List (Str × Json)) : Decoded Str :=
  match OrderedMap.lookup (str "root") obj with
  | some v => string v
  | none => pure (str ".")

end HttpServer.FrontEnds

namespace HttpServer.Wasm

open HttpServer.Core FrontEnds

def rejectedKeys : List Str :=
  [str "port", str "address", str "idle_timeout_ms", str "cert_file", str "key_file",
    str "key_passphrase", str "ca_file", str "secure", str "proxy", str "proxy_all",
    str "proxy_options", str "proxy_config", str "websocket", str "silent", str "log_ip"]

def decodeKey (double : Str → Option Rat) (c : FullConfig) (key : Str) (v : Json) :
    Decoded FullConfig := do
  if rejectedKeys.contains key then throw .invalidConfig
  else match keyOf key with
    | some .root => return { c with root := ← string v }
    | some .port => return { c with port := ← integer double v }
    | some .address => return { c with address := ← string v }
    | some .baseUrl => return { c with baseUrl := ← normalizedBase v }
    | some .defaultExt => return { c with defaultExt := ← optionalString v }
    | some .spa => return { c with spa := ← boolean v }
    | some .tryFiles => return { c with tryFiles := ← optionalString v }
    | some .gzip => return { c with gzip := ← boolean v }
    | some .brotli => return { c with brotli := ← boolean v }
    | some .forceContentEncoding => return { c with forceContentEncoding := ← boolean v }
    | some .autoIndex => return { c with autoIndex := ← boolean v }
    | some .showDir => return { c with showDir := ← boolean v }
    | some .showDotfiles => return { c with showDotfiles := ← boolean v }
    | some .dirOverrides404 => return { c with dirOverrides404 := ← boolean v }
    | some .cacheSeconds => return { c with cacheSeconds := ← integer double v }
    | some .cacheControl => return { c with cacheControl := ← optionalString v }
    | some .weakEtags => return { c with weakEtags := ← boolean v }
    | some .weakCompare => return { c with weakCompare := ← boolean v }
    | some .cors => return { c with cors := ← boolean v }
    | some .corsHeaders => return { c with corsHeaders := ← optionalString v }
    | some .coop => return { c with coop := ← boolean v }
    | some .coopHeader => return { c with coopHeader := ← optionalString v }
    | some .pna => return { c with pna := ← boolean v }
    | some .robots => return { c with robots := ← boolean v }
    | some .handleError => return { c with handleError := ← boolean v }
    | some .idleTimeoutMs => return { c with idleTimeoutMs := ← integer double v }
    | some .mimeTypes => return { c with mimeTypes := ← stringMap v }
    | some .customHeaders => return { c with customHeaders := ← stringMap v }
    | some .basicAuth => return { c with basicAuth := some (← credentials v) }
    | some .hostWhitelist => return { c with hostWhitelist := ← strings v }
    | some .certFile => return { c with certFile := ← optionalString v }
    | some .keyFile => return { c with keyFile := ← optionalString v }
    | some .keyPassphrase => return { c with keyPassphrase := ← optionalString v }
    | some .caFile => return { c with caFile := ← optionalString v }
    | some .secure => return { c with secure := ← boolean v }
    | some .proxy => return { c with proxy := ← optionalString v }
    | some .proxyAll => return { c with proxyAll := ← optionalString v }
    | some .proxyOptions => return { c with proxyOptions := ← stringMap v }
    | some .proxyConfig => return { c with proxyConfig := ← optionalString v }
    | some .websocket => return { c with websocket := ← boolean v }
    | some .silent => return { c with silent := ← boolean v }
    | some .logIp => return { c with logIp := ← boolean v }
    | some .limits => return { c with limits := ← limitFields double v c.limits }
    | some .ioBackend => throw .invalidConfig
    | none => throw .invalidConfig

def decodeConfig (double : Str → Option Rat) (value : Json) : Decoded FullConfig :=
  match value with
  | .object obj => do
      let root ← rootOf obj
      let c ← obj.foldlM (fun c field => decodeKey double c field.1 field.2)
        (.of (.middlewareDefault root))
      if hasTls c.toConfig || c.hasProxy || c.websocket then throw .invalidConfig
      validate c
      return c
  | _ => throw .invalidConfig

end HttpServer.Wasm

namespace HttpServer.CAbi

open HttpServer.Core FrontEnds
open Wasm (Json)

def decodeKey (double : Str → Option Rat) (c : FullConfig) (key : Str) (v : Json) :
    Decoded FullConfig := do
  match keyOf key with
    | some .root => return { c with root := ← string v }
    | some .ioBackend => return { c with ioBackend := ← string v }
    | some .port => return { c with port := ← integer double v }
    | some .address => return { c with address := ← string v }
    | some .baseUrl => return { c with baseUrl := ← normalizedBase v }
    | some .defaultExt => return { c with defaultExt := ← optionalString v }
    | some .spa => return { c with spa := ← boolean v }
    | some .tryFiles => return { c with tryFiles := ← optionalString v }
    | some .gzip => return { c with gzip := ← boolean v }
    | some .brotli => return { c with brotli := ← boolean v }
    | some .forceContentEncoding => return { c with forceContentEncoding := ← boolean v }
    | some .autoIndex => return { c with autoIndex := ← boolean v }
    | some .showDir => return { c with showDir := ← boolean v }
    | some .showDotfiles => return { c with showDotfiles := ← boolean v }
    | some .dirOverrides404 => return { c with dirOverrides404 := ← boolean v }
    | some .cacheSeconds => return { c with cacheSeconds := ← integer double v }
    | some .cacheControl => return { c with cacheControl := ← optionalString v }
    | some .weakEtags => return { c with weakEtags := ← boolean v }
    | some .weakCompare => return { c with weakCompare := ← boolean v }
    | some .cors => return { c with cors := ← boolean v }
    | some .corsHeaders => return { c with corsHeaders := ← optionalString v }
    | some .coop => return { c with coop := ← boolean v }
    | some .coopHeader => return { c with coopHeader := ← optionalString v }
    | some .pna => return { c with pna := ← boolean v }
    | some .robots => return { c with robots := ← boolean v }
    | some .handleError => return { c with handleError := ← boolean v }
    | some .idleTimeoutMs => return { c with idleTimeoutMs := ← integer double v }
    | some .mimeTypes => return { c with mimeTypes := ← stringMap v }
    | some .customHeaders => return { c with customHeaders := ← stringMap v }
    | some .basicAuth => return { c with basicAuth := some (← credentials v) }
    | some .hostWhitelist => return { c with hostWhitelist := ← strings v }
    | some .certFile => return { c with certFile := ← optionalString v }
    | some .keyFile => return { c with keyFile := ← optionalString v }
    | some .keyPassphrase => return { c with keyPassphrase := ← optionalString v }
    | some .caFile => return { c with caFile := ← optionalString v }
    | some .secure => return { c with secure := ← boolean v }
    | some .proxy => return { c with proxy := ← optionalString v }
    | some .proxyAll => return { c with proxyAll := ← optionalString v }
    | some .proxyOptions => return { c with proxyOptions := ← stringMap v }
    | some .proxyConfig => return { c with proxyConfig := ← optionalString v }
    | some .websocket => return { c with websocket := ← boolean v }
    | some .silent => return { c with silent := ← boolean v }
    | some .logIp => return { c with logIp := ← boolean v }
    | some .limits => return { c with limits := ← limitFields double v c.limits }
    | none => throw .invalidConfig

-- What an operation tells the host of the limits is no part of the result.
def decodeConfigValue (double : Str → Option Rat) (value : Json) (thin server : Bool) :
    Decoded FullConfig :=
  match value with
  | .object obj => do
      let root ← rootOf obj
      let start : Config := if server then .default root else .middlewareDefault root
      let c ← obj.foldlM (fun c field => decodeKey double c field.1 field.2) (.of start)
      if (thin || !server) && (hasTls c.toConfig || c.hasProxy || c.websocket) then
        throw .unsupported
      validate c
      return c
  | _ => throw .invalidConfig

end HttpServer.CAbi
