import HttpServer.Core.Config

set_option autoImplicit false

namespace HttpServer.Core

open Unicode Text

inductive PathError where
  | malformedUri (message : Str)
  | outsideBaseUrl (message : Str)
  | traversalForbidden (message : Str)
  | notFound (message : Str)
  deriving DecidableEq

def upperUnit (c : Nat) : Nat := if 0x61 ≤ c ∧ c ≤ 0x7A then c - 32 else c

def reservedNames : List Str :=
  ["CON", "PRN", "AUX", "NUL", "COM1", "COM2", "COM3", "COM4", "COM5", "COM6", "COM7", "COM8",
    "COM9", "LPT1", "LPT2", "LPT3", "LPT4", "LPT5", "LPT6", "LPT7", "LPT8", "LPT9"].map str

def isWindowsReservedName (part : Str) : Bool :=
  let base := match find part (unit '.') with
    | some idx => part.take idx
    | none => part
  reservedNames.contains ((codePoints base).flatMap fun c => utf16 (upperUnit c))

def badPart (part : Str) : Bool :=
  part == str ".." || (find part (unit ':')).isSome || isWindowsReservedName part

def validateRelativePath (path : Str) : Bool :=
  if path = [] then true
  else if hasPrefix path (str "/") || Text.contains path [0] || Text.contains path (str "\\") then
    false
  else !(split path (unit '/')).any badPart

def isHexDigit (code : Nat) : Bool :=
  0x30 ≤ code && code ≤ 0x39 || 0x61 ≤ code && code ≤ 0x66 || 0x41 ≤ code && code ≤ 0x46

def hexVal (code : Nat) : Nat :=
  if 0x30 ≤ code ∧ code ≤ 0x39 then code - 0x30
  else if 0x61 ≤ code ∧ code ≤ 0x66 then code - 0x61 + 10
  else code - 0x41 + 10

def validUriChars : List Nat → Bool
  | [] => true
  | 0x25 :: a :: b :: rest => isHexDigit a && isHexDigit b && validUriChars rest
  | 0x25 :: _ => false
  | _ :: rest => validUriChars rest

def validateUriEncoding (target : Str) : Bool := validUriChars (codePoints target)

def continuation (b : Nat) : Bool := 0x80 ≤ b && b < 0xC0

/-- The code points of a byte sequence, groups of any length taken at face value: a longer
group than needed and three-byte surrogates pass. -/
def decodeUtf8Points : List Nat → Option (List Nat)
  | [] => some []
  | b0 :: rest =>
      if b0 < 0x80 then (decodeUtf8Points rest).map (b0 :: ·)
      else if 0xC2 ≤ b0 ∧ b0 ≤ 0xDF then
        match rest with
        | b1 :: rest =>
            if continuation b1 then
              (decodeUtf8Points rest).map (((b0 % 32) * 64 + b1 % 64) :: ·)
            else none
        | _ => none
      else if 0xE0 ≤ b0 ∧ b0 ≤ 0xEF then
        match rest with
        | b1 :: b2 :: rest =>
            if continuation b1 && continuation b2 then
              (decodeUtf8Points rest).map (((b0 % 16) * 4096 + (b1 % 64) * 64 + b2 % 64) :: ·)
            else none
        | _ => none
      else if 0xF0 ≤ b0 ∧ b0 ≤ 0xF4 then
        match rest with
        | b1 :: b2 :: b3 :: rest =>
            if continuation b1 && continuation b2 && continuation b3 then
              (decodeUtf8Points rest).map
                (((b0 % 8) * 262144 + (b1 % 64) * 4096 + (b2 % 64) * 64 + b3 % 64) :: ·)
            else none
        | _ => none
      else none

def decodeUtf8Bytes (bytes : List Nat) : Option Str :=
  (decodeUtf8Points bytes).map (·.flatMap utf16)

-- One code unit as bytes. A unit never exceeds 0xFFFF, so the source's last branch is dead.
def unitBytes (cp : Nat) : List Nat :=
  if cp < 0x80 then [cp]
  else if cp ≤ 0x7FF then [0xC0 + cp / 64, 0x80 + cp % 64]
  else [0xE0 + cp / 4096, 0x80 + cp / 64 % 64, 0x80 + cp % 64]

def percentBytes : List UInt16 → Option (List Nat)
  | [] => some []
  | u :: rest =>
      if u = unit '%' then
        match rest with
        | a :: b :: rest =>
            if isHexDigit a.toNat && isHexDigit b.toNat then
              (percentBytes rest).map ((hexVal a.toNat * 16 + hexVal b.toNat) :: ·)
            else none
        | _ => none
      else (percentBytes rest).map (unitBytes u.toNat ++ ·)

def decodePercent (value : Str) : Except PathError Str :=
  match percentBytes value with
  | none => throw (.malformedUri (str "malformed percent escape"))
  | some bytes =>
      match decodeUtf8Bytes bytes with
      | some s => pure s
      | none => throw (.malformedUri (str "invalid UTF-8 in percent escape"))

def matchAndStripBaseUrl (baseUrl decodedPath : Str) : Option Str :=
  if baseUrl = str "/" then
    match decodedPath with
    | [] => some []
    | u :: rest => if u = unit '/' then some rest else none
  else if decodedPath = baseUrl then some []
  else if baseUrl.length < decodedPath.length && hasPrefix decodedPath baseUrl &&
      decodedPath[baseUrl.length]? == some (unit '/') then
    some (decodedPath.drop (baseUrl.length + 1))
  else none

def normRoot (root : Str) : Str :=
  if 1 < root.length && (hasSuffix root (str "/") || hasSuffix root (str "\\")) then root.dropLast
  else root

def resolvePath (root baseUrl target : Str) : Except PathError Str := do
  if !validateUriEncoding target then
    throw (.malformedUri (str "malformed URI percent encoding"))
  let rawPath := (split target (unit '?')).head (split_ne_nil target (unit '?'))
  let decodedPath ← decodePercent rawPath
  if Text.contains decodedPath [0] then
    throw (.traversalForbidden (str "null byte in path"))
  match matchAndStripBaseUrl baseUrl decodedPath with
  | none => throw (.outsideBaseUrl decodedPath)
  | some relative =>
      if !validateRelativePath relative then
        throw (.traversalForbidden (str "path traversal detected"))
      else
        let resolved := if relative = [] then normRoot root
          else normRoot root ++ str "/" ++ relative
        if resolved != normRoot root && !hasPrefix resolved (normRoot root ++ str "/") &&
            !hasPrefix resolved (normRoot root ++ str "\\") then
          throw (.traversalForbidden (str "path escapes root boundary"))
        else pure resolved

def formatDirRedirect (rawPath : Str) (rawQuery : Option Str) : Str :=
  let pathWithSlash := if hasSuffix rawPath (str "/") then rawPath else rawPath ++ str "/"
  match rawQuery with
  | some q => if 0 < q.length then pathWithSlash ++ str "?" ++ q else pathWithSlash
  | none => pathWithSlash

-- `none` is an index past the end of `exp_chars` or `act_chars`: the loop counts code units
-- and the arrays hold code points.
def cryptoLoop (expChars actChars : List Nat) (actLen : Nat) : Nat → Nat → Nat → Option Nat
  | 0, _, diff => some diff
  | left + 1, i, diff => do
      let actChar ← if i < actLen then actChars[i]? else some 0
      let expChar ← expChars[i]?
      cryptoLoop expChars actChars actLen left (i + 1) (diff ||| (expChar ^^^ actChar))

def cryptoEquals (expected actual : Str) : Option Bool :=
  (cryptoLoop (codePoints expected) (codePoints actual) actual.length expected.length 0
    (expected.length ^^^ actual.length)).map (· == 0)

def base64CharValue (c : Nat) : Option Int32 :=
  if 0x41 ≤ c ∧ c ≤ 0x5A then some (Int32.ofNat (c - 0x41))
  else if 0x61 ≤ c ∧ c ≤ 0x7A then some (Int32.ofNat (c - 0x61 + 26))
  else if 0x30 ≤ c ∧ c ≤ 0x39 then some (Int32.ofNat (c - 0x30 + 52))
  else if c = 0x2B then some 62
  else if c = 0x2F then some 63
  else none

def base64Loop : List Nat → Int32 → Int32 → Option (List Nat)
  | [], _, _ => some []
  | c :: rest, val, valb =>
      match base64CharValue c with
      | none =>
          if c = 0x3D ∨ c = 0x20 ∨ c = 0x0D ∨ c = 0x0A ∨ c = 0x09 then base64Loop rest val valb
          else none
      | some d =>
          let val := (val <<< 6) ||| d
          let valb := valb + 6
          if 0 ≤ valb then
            (base64Loop rest val (valb - 8)).map (((val >>> valb) &&& 0xFF).toInt.toNat :: ·)
          else base64Loop rest val valb

def base64DecodeString (input : Str) : Option Str :=
  (base64Loop (codePoints input) 0 (-8)).bind decodeUtf8Bytes

def parseBasicAuthHeader (header : Str) : Option (Str × Str) :=
  let trimmed := trim header
  if !hasPrefix (toLower trimmed) (str "basic ") then none
  else do
    let decoded ← base64DecodeString (trim (trimmed.drop 6))
    let colonIdx ← find decoded (unit ':')
    some (decoded.take colonIdx, decoded.drop (colonIdx + 1))

def verifyBasicAuth (header : Option Str) (expected : Str × Str) : Option Bool :=
  match header.bind parseBasicAuthHeader with
  | some (u, p) => do
      let uOk ← cryptoEquals expected.1 u
      let pOk ← cryptoEquals expected.2 p
      return uOk && pOk
  | none => do
      let _ ← cryptoEquals expected.1 []
      let _ ← cryptoEquals expected.2 []
      return false

def extractHostname (hostValue : Str) : Str :=
  let trimmed := trim hostValue
  if hasPrefix trimmed (str "[") then
    match find trimmed (unit ']') with
    | some pos => trimmed.take (pos + 1)
    | none => trimmed
  else
    match find trimmed (unit ':') with
    | some pos => trimmed.take pos
    | none => trimmed

def checkHostAllowed (hostHeader : Option Str) (allowedHosts : List Str) : Bool :=
  if allowedHosts.isEmpty then true
  else match hostHeader with
    | some rawHost =>
        let hostname := toLower (extractHostname rawHost)
        allowedHosts.any fun allowed => toLower allowed == hostname
    | none => false

def findHeaderCaseInsensitive (headers : Headers) (name : Str) : Option Str :=
  (headers.entries.find? fun entry => toLower entry.1 == toLower name).map Prod.snd

def corsHeaders (c : Config) (meth : Method) (headers : Headers) : Headers :=
  if c.cors then
    let baseHeaders := str ("Authorization, Content-Type, If-Match, If-Modified-Since, " ++
      "If-None-Match, If-Unmodified-Since")
    let allowHeaders := match c.corsHeaders with
      | some extra => baseHeaders ++ str ", " ++ extra
      | none => baseHeaders
    let headers := (headers.insert (str "Access-Control-Allow-Origin") (str "*")).insert
      (str "Access-Control-Allow-Headers") allowHeaders
    if meth = .other (str "OPTIONS") then
      headers.insert (str "Access-Control-Allow-Methods") (str "GET, HEAD, OPTIONS")
    else headers
  else headers

def coopHeaders (c : Config) (headers : Headers) : Headers :=
  if c.coop then
    (headers.insert (str "Cross-Origin-Opener-Policy")
      (c.coopHeader.getD (str "same-origin"))).insert
        (str "Cross-Origin-Embedder-Policy") (str "require-corp")
  else headers

def pnaHeaders (c : Config) (headers : Headers) : Headers :=
  if c.pna then headers.insert (str "Access-Control-Allow-Private-Network") (str "true")
  else headers

def applySecurityHeaders (headers : Headers) (c : Config) (meth : Method) : Headers :=
  c.customHeaders.entries.foldl (fun headers entry => headers.insert entry.1 entry.2)
    (pnaHeaders c (coopHeaders c (corsHeaders c meth headers)))

inductive SecurityDecision where
  | proceed
  | unauthorized (headers : Headers) (body : Bytes)
  | forbidden (headers : Headers) (body : Bytes)
  | preflight (headers : Headers)

def hostRefused (c : Config) (req : Request) : Bool :=
  !c.hostWhitelist.isEmpty &&
    !checkHostAllowed (findHeaderCaseInsensitive req.headers (str "host")) c.hostWhitelist

def basicAuthorized (c : Config) (req : Request) : Option Bool :=
  match c.basicAuth with
  | some expected =>
      verifyBasicAuth (findHeaderCaseInsensitive req.headers (str "authorization")) expected
  | none => some true

-- `none` where `crypto_equals` traps.
def evaluateSecurityPolicies (c : Config) (req : Request) : Option SecurityDecision :=
  if hostRefused c req then
    some (.forbidden (applySecurityHeaders ∅ c req.meth) (encode (str "Access denied")))
  else do
    let authorized ← basicAuthorized c req
    if !authorized then
      let challenge := OrderedMap.ofList [(str "WWW-Authenticate", str "Basic realm=\"\"")]
      return .unauthorized (applySecurityHeaders challenge c req.meth)
        (encode (str "Access denied"))
    else if req.meth = .other (str "OPTIONS") && (c.cors || c.coop) then
      return .preflight (applySecurityHeaders ∅ c req.meth)
    else return .proceed

end HttpServer.Core
