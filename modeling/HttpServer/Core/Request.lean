import HttpServer.RequestHeaders

set_option autoImplicit false

namespace HttpServer.Core

inductive Method where
  | get
  | head
  | other (name : Str)
  deriving DecidableEq

structure Request where
  meth : Method
  target : Str
  headers : Headers
  deriving DecidableEq

end HttpServer.Core
