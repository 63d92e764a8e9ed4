import HttpServer.Engine.Handle
import HttpServer.Framing.Connection

set_option autoImplicit false

namespace HttpServer

open Unicode Text HttpServer.Core
open Framing (method)

-- What neither of them lets a target hold.
def targetChar (c : Nat) : Bool := c ≤ 0x20 || c == 0x7F

namespace CAbi

open Engine (ServerError)

/-- The spans of an `hs_request_t`. -/
structure Input where
  method : Bytes
  target : Bytes
  headers : List (Bytes × Bytes)

def requestText (bytes : Bytes) : Except ServerError Str :=
  match decode bytes with
  | some text => .ok text
  | none => .error (.invalidRequest (str "invalid UTF-8"))

def addHeaders : List (Bytes × Bytes) → Headers → Except ServerError Headers
  | [], headers => .ok headers
  | (name, value) :: rest, headers => do
      let name ← requestText name
      let value ← requestText value
      match RequestHeaders.add headers name value with
      | none => .error (.invalidRequest (str "invalid or ambiguous header"))
      | some headers => addHeaders rest headers

def decodeRequest (op : Input) : Except ServerError Request := do
  let verb ← requestText op.method
  let target ← requestText op.target
  if !RequestHeaders.token verb || target.isEmpty || anyChar target targetChar then
    .error (.invalidRequest (str "invalid method/target"))
  else
    let headers ← addHeaders op.headers ∅
    if headers.contains (str "content-length") && headers.contains (str "transfer-encoding") then
      .error (.invalidRequest (str "ambiguous length"))
    else .ok { meth := method verb, target, headers }

end CAbi

namespace Wasm

inductive Json where
  | null
  | bool (value : Bool)
  | number (text : Str)
  | string (text : Str)
  | array (items : List Json)
  | object (fields : List (Str × Json))

inductive BridgeError where
  | protocol
  | invalidHeader
  deriving DecidableEq

/-- The requests that are under way, and whether there is a configuration. -/
structure Bridge where
  configured : Bool
  requests : List Int32

def textField (value : Json) (key : Str) : Except BridgeError Str :=
  match value with
  | .object fields =>
      match OrderedMap.lookup key fields with
      | some (.string text) => .ok text
      | _ => .error .protocol
  | _ => .error .protocol

def headerItems (value : Json) : Except BridgeError (List Json) :=
  match value with
  | .object fields =>
      match OrderedMap.lookup (str "headers") fields with
      | some (.array items) => .ok items
      | _ => .error .protocol
  | _ => .error .protocol

def addPairs : List Json → Headers → Except BridgeError Headers
  | [], headers => .ok headers
  | .array [.string name, .string value] :: rest, headers =>
      match RequestHeaders.add headers name value with
      | none => .error .invalidHeader
      | some headers => addPairs rest headers
  | _ :: _, _ => .error .protocol

-- The request that `begin_request` hands to the planner; `value` is its text, parsed.
def beginRequest (bridge : Bridge) (id : Int32) (value : Json) : Except BridgeError Request := do
  if !(bridge.configured && !bridge.requests.contains id && 0 ≤ id) then .error .protocol
  else
    let verb ← textField value (str "method")
    let target ← textField value (str "target")
    if !(RequestHeaders.token verb && !target.isEmpty && !anyChar target targetChar) then
      .error .protocol
    else
      let items ← headerItems value
      let headers ← addPairs items ∅
      if headers.contains (str "content-length") && headers.contains (str "transfer-encoding") then
        .error .protocol
      else .ok { meth := method verb, target, headers }

end Wasm

end HttpServer
