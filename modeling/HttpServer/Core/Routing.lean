import HttpServer.Text

set_option autoImplicit false

namespace HttpServer.Core

open Unicode Text

structure ProxyRule where
  pattern : Str
  target : Str
  pathRewrite : List (Str × Str)
  deriving DecidableEq

def matchGlobPath (pattern path : Str) : Bool :=
  if pattern = str "**" ∨ pattern = str "*" then true
  else if hasSuffix pattern (str "/**") then
    let pfx := pattern.take (pattern.length - 3)
    path == pfx || hasPrefix path (pfx ++ str "/")
  else if hasSuffix pattern (str "/*") then
    let pfx := pattern.take (pattern.length - 2)
    hasPrefix path (pfx ++ str "/") && !Text.contains (path.drop (pfx.length + 1)) (str "/")
  else pattern == path

-- `skip` units of an occurrence of `old` are still to be passed over.
def replaceLoop (old new : Str) : Str → Nat → Str
  | [], _ => []
  | _ :: rest, skip + 1 => replaceLoop old new rest skip
  | u :: rest, 0 =>
      if hasPrefix (u :: rest) old then new ++ replaceLoop old new rest (old.length - 1)
      else u :: replaceLoop old new rest 0

-- The empty string occurs before and after every character.
def replaceAll (s old new : Str) : Str :=
  if old = [] then new ++ (codePoints s).flatMap fun c => utf16 c ++ new
  else replaceLoop old new s 0

def rewritePath (rewritten : Str) (pair : Str × Str) : Str :=
  if hasPrefix pair.1 (str "^") then
    let pfx := pair.1.drop 1
    if hasPrefix rewritten pfx then pair.2 ++ rewritten.drop pfx.length else rewritten
  else if Text.contains rewritten pair.1 then replaceAll rewritten pair.1 pair.2
  else rewritten

def matchProxyRule (rule : ProxyRule) (path : Str) : Option (Str × Str) :=
  if matchGlobPath rule.pattern path then
    some (rule.target, rule.pathRewrite.foldl rewritePath path)
  else none

end HttpServer.Core
