import HttpServer.Text

set_option autoImplicit false

namespace HttpServer.Core

open Unicode Text

structure EntityTag where
  tag : Str
  isWeak : Bool
  deriving DecidableEq

def EntityTag.fromMetadata (size mtimeSec : Int64) (weak : Bool) : EntityTag where
  tag := str "\"" ++ ofInt size.toInt ++ str "-" ++ ofInt mtimeSec.toInt ++ str "\""
  isWeak := weak

def EntityTag.toHeaderValue (t : EntityTag) : Str :=
  if t.isWeak then str "W/" ++ t.tag else t.tag

def etagMatches (clientRaw : Str) (serverTag : EntityTag) (weakCompare : Bool) : Bool :=
  let clientTrimmed := trim clientRaw
  if clientTrimmed = str "*" then true
  else
    let isClientWeak := hasPrefix clientTrimmed (str "W/")
    let clientOpaqueTag := if isClientWeak then clientTrimmed.drop 2 else clientTrimmed
    if weakCompare then clientOpaqueTag == serverTag.tag
    else if isClientWeak || serverTag.isWeak then false
    else clientOpaqueTag == serverTag.tag

def ifNoneMatchMatches (headerVal : Str) (serverTag : EntityTag) (weakCompare : Bool) : Bool :=
  (split headerVal (unit ',')).any fun raw => etagMatches (trim raw) serverTag weakCompare

def isLeapYear (y : Int32) : Bool := y % 4 == 0 && y % 100 != 0 || y % 400 == 0

def daysInYear (y : Int32) : Int32 := if isLeapYear y then 366 else 365

def monthDays (leap : Bool) : List Int32 :=
  [31, if leap then 29 else 28, 31, 30, 31, 30, 31, 31, 30, 31, 30, 31]

def wkdays : List Str := ["Sun", "Mon", "Tue", "Wed", "Thu", "Fri", "Sat"].map str

def months : List Str :=
  ["Jan", "Feb", "Mar", "Apr", "May", "Jun", "Jul", "Aug", "Sep", "Oct", "Nov", "Dec"].map str

-- Every round takes a year off `d`, so `|d|` rounds are enough.
def yearUp : Nat → Int32 → Int32 → Int32 × Int32
  | 0, y, d => (y, d)
  | fuel + 1, y, d => if d < daysInYear y then (y, d) else yearUp fuel (y + 1) (d - daysInYear y)

def yearDown : Nat → Int32 → Int32 → Int32 × Int32
  | 0, y, d => (y, d)
  | fuel + 1, y, d =>
      if d < 0 then yearDown fuel (y - 1) (d + daysInYear (y - 1)) else (y, d)

def yearOf (days : Int32) : Int32 × Int32 :=
  if days ≥ 0 then yearUp (days.toInt.natAbs + 1) 1970 days
  else yearDown (days.toInt.natAbs + 1) 1970 days

def monthOf : List Int32 → Nat → Int32 → Nat × Int32
  | [], m, d => (m, d)
  | n :: rest, m, d => if d < n then (m, d) else monthOf rest (m + 1) (d - n)

def pad2 (n : Int32) : Str := if n < 10 then str "0" ++ ofInt n.toInt else ofInt n.toInt

def formatHttpDate (epochSec : Int64) : Str :=
  let daysSinceEpoch := (epochSec / 86400).toInt32
  let remSec := (epochSec % 86400).toInt32
  let remSec := if remSec < 0 then remSec + 86400 else remSec
  let dayOfWeek := (4 + daysSinceEpoch) % 7
  let dayOfWeek := if dayOfWeek < 0 then dayOfWeek + 7 else dayOfWeek
  let (y, d) := yearOf daysSinceEpoch
  let (m, d) := monthOf (monthDays (isLeapYear y)) 0 d
  wkdays.getD dayOfWeek.toInt.toNat [] ++ str ", " ++ pad2 (d + 1) ++ str " " ++
    months.getD m [] ++ str " " ++ ofInt y.toInt ++ str " " ++ pad2 (remSec / 3600) ++ str ":" ++
    pad2 (remSec % 3600 / 60) ++ str ":" ++ pad2 (remSec % 60) ++ str " GMT"

def dateSeparator (c : Nat) : Bool :=
  c == 0x20 || c == 0x09 || c == 0x2C || c == 0x2D || c == 0x3A

def dateTokens : List Nat → Str → List Str
  | [], cur => if cur.isEmpty then [] else [cur]
  | c :: rest, cur =>
      if dateSeparator c then
        if cur.isEmpty then dateTokens rest [] else cur :: dateTokens rest []
      else dateTokens rest (cur ++ utf16 c)

def monthNameToInt (m : Str) : Option Int32 :=
  (months.findIdx? fun name => toLower name == toLower m).map fun i => Int32.ofNat (i + 1)

def dateIntLoop : List Nat → Int32 → Option Int32
  | [], n => some n
  | c :: rest, n =>
      if c < 0x30 ∨ 0x39 < c then none else dateIntLoop rest (n * 10 + Int32.ofNat (c - 0x30))

def parseDateInt (s : Str) : Option Int32 :=
  if s.length = 0 then none else dateIntLoop (codePoints s) 0

structure DateFields where
  year : Option Int32
  month : Option Int32
  day : Option Int32
  timeTokens : List Int32

def DateFields.number (f : DateFields) (n : Int32) : DateFields :=
  if n ≥ 1000 ∧ n ≤ 9999 then { f with year := some n }
  else if n ≥ 70 ∧ n ≤ 99 ∧ f.year = none then { f with year := some (1900 + n) }
  else if n ≥ 0 ∧ n ≤ 69 ∧ f.year = none ∧ 3 ≤ f.timeTokens.length then
    { f with year := some (2000 + n) }
  else if f.day = none ∧ f.month ≠ none ∧ n ≥ 1 ∧ n ≤ 31 then { f with day := some n }
  else if f.day = none ∧ n ≥ 1 ∧ n ≤ 31 then { f with day := some n }
  else { f with timeTokens := f.timeTokens ++ [n] }

def DateFields.token (f : DateFields) (t : Str) : DateFields :=
  match monthNameToInt t with
  | some m => { f with month := some m }
  | none =>
      match parseDateInt t with
      | some n => f.number n
      | none => f

def extractDateFields (tokens : List Str) :
    Option (Int32 × Int32 × Int32 × Int32 × Int32 × Int32) := do
  let f := tokens.foldl DateFields.token ⟨none, none, none, []⟩
  let y ← f.year
  let m ← f.month
  let d ← f.day
  match f.timeTokens with
  | hh :: mm :: ss :: _ => some (y, m, d, hh, mm, ss)
  | _ => none

def yearDays (y : Int32) : Int64 :=
  (List.range (y.toInt.toNat - 1970)).foldl
    (fun days i => days + (daysInYear (Int32.ofNat (1970 + i))).toInt64) 0

def parseHttpDate (dateStr : Str) : Option Int64 :=
  let s := trim dateStr
  if s.length < 10 ∨ 64 < s.length then none
  else if hasPrefix s (str "275760") then none
  else
    let tokens := dateTokens (codePoints s) []
    if tokens.length < 5 then none
    else match extractDateFields tokens with
      | none => none
      | some (y, m, d, hh, mm, ss) =>
          if y < 1970 ∨ 9999 < y ∨ m < 1 ∨ 12 < m ∨ d < 1 ∨ 31 < d ∨ hh < 0 ∨ 23 < hh ∨
              mm < 0 ∨ 59 < mm ∨ ss < 0 ∨ 60 < ss then none
          else
            let monthsBefore := (monthDays (isLeapYear y)).take (m.toInt.toNat - 1)
            let days := monthsBefore.foldl (fun days n => days + n.toInt64) (yearDays y)
            let days := days + (d - 1).toInt64
            some (days * 86400 + hh.toInt64 * 3600 + mm.toInt64 * 60 + ss.toInt64)

def shouldReturn304 (ifNoneMatch ifModifiedSince : Option Str) (serverMtimeSec : Int64)
    (serverEtag : EntityTag) (weakCompare : Bool) : Bool :=
  if ifNoneMatch.isNone && ifModifiedSince.isNone then false
  else
    let fresh := match ifModifiedSince with
      | some ims =>
          match parseHttpDate ims with
          | none => false
          | some clientTimeSec => !(clientTimeSec < serverMtimeSec)
      | none => true
    let matched := match ifNoneMatch with
      | some inm => ifNoneMatchMatches inm serverEtag weakCompare
      | none => true
    fresh && matched

end HttpServer.Core
