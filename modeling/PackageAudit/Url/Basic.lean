/-!
# Url — addresses of services

* `Url` — an address in its parts, each in its written form;
* `Url.text` — the written form of the whole;
* `UrlFault` — why a text is no address.
-/

namespace PackageAudit

/-- Why a text is no address. -/
inductive UrlFault where
  | emptyHost
  | domain
  | port
  | ipv4
  | ipv6
  | hostCharacter
  | relative
  deriving DecidableEq

def UrlFault.message : UrlFault → String
  | emptyHost => "empty host"
  | domain => "invalid international domain name"
  | port => "invalid port number"
  | ipv4 => "invalid IPv4 address"
  | ipv6 => "invalid IPv6 address"
  | hostCharacter => "invalid domain character"
  | relative => "relative URL without a base"

/-- Whom an address leads to. -/
structure Authority where
  /-- Name and password. -/
  credentials : Option (List Char)
  host : List Char
  port : Option Nat
  deriving DecidableEq

/-- What an address asks for: names below a host, or a text of any form. -/
inductive UrlPath where
  | plain (text : List Char)
  | segments (names : List (List Char))
  deriving DecidableEq

/-- An address. -/
structure Url where
  scheme : List Char
  authority : Option Authority
  path : UrlPath
  query : Option (List Char)
  fragment : Option (List Char)
  deriving DecidableEq

def Authority.text (a : Authority) : List Char :=
  let user := match a.credentials with
    | some credentials => credentials ++ ['@']
    | none => []
  let port := match a.port with
    | some port => ':' :: (toString port).toList
    | none => []
  user ++ a.host ++ port

def UrlPath.text : UrlPath → List Char
  | plain text => text
  | segments names => names.flatMap ('/' :: ·)

namespace Url

/-- A part behind its mark, if it is there. -/
def marked (mark : Char) : Option (List Char) → List Char
  | some part => mark :: part
  | none => []

/--
Whom the address leads to, behind two slashes. A path must not look as if it began with them where
there is nobody.
-/
def authorityText (u : Url) : List Char :=
  match u.authority with
  | some a => '/' :: '/' :: a.text
  | none => if ['/', '/'].isPrefixOf u.path.text then ['/', '.'] else []

/-- The written form. -/
def text (u : Url) : String :=
  .ofList (u.scheme ++ ':' :: (u.authorityText ++ u.path.text ++ marked '?' u.query ++
    marked '#' u.fragment))

end Url

end PackageAudit
