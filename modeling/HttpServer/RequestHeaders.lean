import HttpServer.Library.OrderedMap
import HttpServer.Text

set_option autoImplicit false

namespace HttpServer

abbrev Headers := OrderedMap Str Str

namespace RequestHeaders

open Text

def tokenChar (c : Nat) : Bool :=
  0x61 ≤ c && c ≤ 0x7A || 0x41 ≤ c && c ≤ 0x5A || 0x30 ≤ c && c ≤ 0x39 ||
    ((str "!#$%&'*+-.^_`|~").map UInt16.toNat).contains c

def token (text : Str) : Bool := !text.isEmpty && allChars text tokenChar

-- CR and LF are refused here, before `trim` could drop them as white space.
def controlChar (c : Nat) : Bool := c < 0x20 && c != 0x09 || c == 0x7F

def nonDigit (c : Nat) : Bool := c < 0x30 || 0x39 < c

def single (key : Str) : Bool :=
  key == str "host" || key == str "authorization" || key == str "content-length" ||
    key == str "transfer-encoding"

def separator (key : Str) : Str := if key = str "cookie" then str "; " else str ","

def combine (headers : Headers) (key value : Str) : Str :=
  match headers.get key with
  | some old => old ++ separator key ++ value
  | none => value

def add (headers : Headers) (name raw : Str) : Option Headers :=
  if !token name then none
  else if anyChar raw controlChar then none
  else
    let key := toLower name
    let value := trim raw
    if headers.contains key && single key then none
    else if key == str "content-length" && headers.contains (str "transfer-encoding") ||
        key == str "transfer-encoding" && headers.contains (str "content-length") then none
    else if key == str "content-length" && (value.isEmpty || anyChar value nonDigit) then none
    else some (headers.insert key (combine headers key value))

end RequestHeaders

end HttpServer
