import Mathlib.Data.List.Basic
import Mathlib.Data.List.TakeWhile
import Mathlib.Tactic.Common

/-!
# Splitting URLs

`urllib.parse.urlsplit`: the network location after `//` ends at the first
`/`, `?` or `#`, and the path at the first `?` or `#` after that.  Tabs and
line breaks are removed from the whole URL first.
-/

namespace PyFly.Library

structure SplitResult where
  scheme : List Char
  netloc : List Char
  path : List Char
  query : List Char
  fragment : List Char
  deriving DecidableEq

/-- The checks of network locations with brackets and of those which are not
ASCII: `_check_bracketed_netloc` and `_checknetloc`. -/
structure NetlocChecks where
  bracketed : List Char → Bool
  normalized : List Char → Bool

def NetlocChecks.accepts (checks : NetlocChecks) (netloc : List Char) : Bool :=
  decide ('[' ∈ netloc ↔ ']' ∈ netloc) && (decide ('[' ∉ netloc) || checks.bracketed netloc) &&
    (netloc.all (fun c => c.val < 128) || checks.normalized netloc)

/-- `_UNSAFE_URL_BYTES_TO_REMOVE` -/
def unsafeInUrl (c : Char) : Bool :=
  c = '\t' || c = '\r' || c = '\n'

def schemeChar (c : Char) : Bool :=
  c.isAlphanum || c = '+' || c = '-' || c = '.'

def splitAtFirst (separator : Char) (text : List Char) : List Char × Option (List Char) :=
  (text.takeWhile (· ≠ separator), (text.dropWhile (· ≠ separator)).tail?)

def splitScheme (url : List Char) : List Char × List Char :=
  match splitAtFirst ':' url with
  | (c :: scheme, some rest) =>
    if c.isAlpha && scheme.all schemeChar then
      ((c :: scheme).map Char.toLower, rest)
    else ([], url)
  | _ => ([], url)

def endsNetloc (c : Char) : Bool :=
  c = '/' || c = '?' || c = '#'

def splitNetloc (url : List Char) : List Char × List Char :=
  match url with
  | '/' :: '/' :: rest =>
    (rest.takeWhile (!endsNetloc ·), rest.dropWhile (!endsNetloc ·))
  | _ => ([], url)

/-- `urlsplit`; `none` where it raises a `ValueError`. -/
def urlsplit (checks : NetlocChecks) (url : List Char) : Option SplitResult :=
  let url := url.dropWhile (fun c => c.val ≤ 32)
  let url := url.filter (!unsafeInUrl ·)
  let (scheme, url) := splitScheme url
  let (netloc, url) := splitNetloc url
  if checks.accepts netloc then
    let (url, fragment) := splitAtFirst '#' url
    let (path, query) := splitAtFirst '?' url
    some {
      scheme := scheme
      netloc := netloc
      path := path
      query := query.getD []
      fragment := fragment.getD [] }
  else none

example : (urlsplit ⟨fun _ => true, fun _ => true⟩
    "http://h:80/a;b?c#d?e".toList).map SplitResult.path = some "/a;b".toList := by decide

end PyFly.Library
