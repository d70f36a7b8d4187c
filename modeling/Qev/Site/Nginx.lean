import Qev.Lib.Hex
import Qev.Lib.Js

/-! The web server of the site: what it answers a path with, by the location
rules of `nginx-secure.conf`. -/

namespace Qev.Site

open Js (JsString)

def octets (s : String) : Bytes := Utf8.encode s.toList

/-! ## Paths -/

/-- A path that is decoded: its segments, none of them empty or of dots, and
whether a slash comes last. -/
structure Uri where
  segments : List Bytes
  slash : Bool
  deriving DecidableEq, Repr

/-- There is none where a byte is spelt wrong or is zero. -/
def decodePercent : Bytes → Option Bytes
  | [] => some []
  | 0x25 :: a :: b :: rest => do
    let high ← Hex.digitVal a
    let low ← Hex.digitVal b
    if high = 0 ∧ low = 0 then none
    else (decodePercent rest).map (UInt8.ofNat (16 * high + low) :: ·)
  | 0x25 :: _ => none
  | c :: rest => (decodePercent rest).map (c :: ·)

/-- What follows the segments before: slashes are merged, and no path leads
above the root. -/
def resolve : (before : List Bytes) → List Bytes → Option Uri
  | before, [] => some ⟨before, true⟩
  | before, s :: rest =>
    if s = [] ∨ s = octets "." then resolve before rest
    else if s = octets ".." then if before = [] then none else resolve before.dropLast rest
    else if rest = [] then some ⟨before ++ [s], false⟩
    else resolve (before ++ [s]) rest

def normalize (path : Bytes) : Option Uri :=
  match path with
  | 0x2F :: rest => resolve [] (rest.splitOn 0x2F)
  | _ => none

/-! ## Locations -/

structure Response where
  status : Nat
  body : Bytes
  deriving DecidableEq, Repr

def Response.ok (r : Response) : Bool := 200 ≤ r.status && r.status < 300

/-- What stands below the root of the site, and the answers of the root of the
challenges. -/
structure Server where
  file : List Bytes → Option Bytes
  dir : List Bytes → Bool
  acme : Uri → Response

inductive Answer where
  | page (path : List Bytes) (content : Bytes)
  | redirect (target : Uri)
  | status (code : Nat)
  | elsewhere (r : Response)
  deriving DecidableEq, Repr

def vault : Uri := ⟨[octets "vault"], true⟩

def ASSETS : List String :=
  ["js", "css", "svg", "woff2", "woff", "ttf", "png", "jpg", "jpeg", "webp", "ico"]

def asciiLower (b : UInt8) : UInt8 := if 65 ≤ b ∧ b ≤ 90 then b + 32 else b

/-- Whether `\.extension$` matches with any case: a line end may come after. -/
def endsIn (u : Uri) (extension : String) : Bool :=
  match u.slash, u.segments.getLast? with
  | false, some name =>
    let dotted := octets "." ++ octets extension
    dotted.isSuffixOf (name.map asciiLower) || (dotted ++ [10]).isSuffixOf (name.map asciiLower)
  | _, _ => false

/-- Whether the path starts with these segments and a slash. -/
def below (u : Uri) (segments : List Bytes) : Bool :=
  segments.isPrefixOf u.segments && (u.slash || segments.length < u.segments.length)

section Answers

variable (server : Server)

/-- `try_files`, for one file and no other. -/
def tryFile (path : List Bytes) : Answer :=
  match server.file path with
  | some content => .page path content
  | none => .status 404

/-- A file as it is; a directory has a slash put after it. -/
def static (u : Uri) : Answer :=
  match server.file u.segments with
  | some content => .page u.segments content
  | none => if server.dir u.segments then .redirect ⟨u.segments, true⟩ else .status 404

/-- `$uri.html`. -/
def withHtml (u : Uri) : List Bytes :=
  if u.slash then u.segments ++ [octets ".html"]
  else u.segments.dropLast ++ [u.segments.getLastD [] ++ octets ".html"]

/-- The index file of a directory is answered by the rule for pages. -/
def index (segments : List Bytes) : Answer :=
  match server.file (segments ++ [octets "index.html"]) with
  | some content => .page (segments ++ [octets "index.html"]) content
  | none => if server.dir (segments ++ [octets "index.html"]) then .status 404 else .status 403

/-- `try_files $uri $uri.html $uri/ =404`. -/
def tryFiles (u : Uri) : Answer :=
  match if u.slash then none else server.file u.segments with
  | some content => .page u.segments content
  | none =>
    match server.file (withHtml u) with
    | some content => .page (withHtml u) content
    | none =>
      if server.dir u.segments then
        if u.slash then index server u.segments else .redirect ⟨u.segments, true⟩
      else .status 404

/-- The location of a path: one for the path alone, else the first expression
that matches, else the longest path that it starts with. -/
def answer (u : Uri) : Answer :=
  if u = ⟨[octets "app"], true⟩ ∨ u = ⟨[octets "app"], false⟩ then .redirect vault
  else if u = ⟨[octets "downloads"], true⟩ then tryFile server [octets "downloads.html"]
  else if u = ⟨[octets "challenge"], true⟩ then tryFile server [octets "challenge.html"]
  else if ASSETS.any (endsIn u) then static server u
  else if endsIn u "html" then tryFile server u.segments
  else if below u [octets ".well-known", octets "acme-challenge"] then .elsewhere (server.acme u)
  else if below u [octets "app"] then .redirect vault
  else tryFiles server u

/-- The answer to a request, whose query no rule looks at. -/
def request (url : JsString) : Answer :=
  let path := Js.textEncode (url.takeWhile (· ≠ Js.ascii '?'))
  match (decodePercent path).bind normalize with
  | some u => answer server u
  | none => .status 400

def follow : Nat → Answer → Answer
  | n + 1, .redirect target => follow n (answer server target)
  | _, a => a

/-- `fetch`, which follows twenty redirects and then fails with a message. -/
def fetch (failure url : JsString) : Except JsString Response :=
  match follow server 20 (request server url) with
  | .page _ content => .ok ⟨200, content⟩
  | .status code => .ok ⟨code, []⟩
  | .elsewhere r => .ok r
  | .redirect _ => .error failure

end Answers

theorem fetch_page {server : Server} {failure url : JsString} {path : List Bytes} {content : Bytes}
    (h : request server url = .page path content) :
    fetch server failure url = .ok ⟨200, content⟩ := by
  rw [fetch, h]
  rfl

end Qev.Site
