import Mathlib.Data.Rat.Floor
import Scgrep.Lib.Text

/-!
# Values and library calls

The Python values the program handles, and the functions of the standard library
and of the packages it calls whose code is not part of it (`Lib`). A `Lib` is
arbitrary: what a result needs of one of its functions is a hypothesis there.
-/

namespace Scgrep

/-- The exceptions the program raises or catches by name. -/
inductive PyErr where
  | valueError
  | typeError
  | overflowError
  | attributeError
  | recursionError
  | requestException
  | unicodeEncodeError
  | configError (msg : String)
deriving DecidableEq

/-- A Python float: a finite value (taken exactly) or one of the special ones. -/
inductive PyFloat where
  | finite (q : ℚ)
  | inf
  | negInf
  | nan

/-- A decoded JSON value. The keys of an object are distinct. A text stands for a `str`; whether
it has a lone surrogate, so that UTF-8 cannot encode it, is for `Lib.encodes` to say. -/
inductive Json where
  | null
  | bool (b : Bool)
  | int (n : ℤ)
  | float (x : PyFloat)
  | str (s : String)
  | arr (l : List Json)
  | obj (kvs : List (String × Json))

/-- `bool(x)` of a float. -/
def PyFloat.truthy : PyFloat → Bool
  | .finite q => q != 0
  | _ => true

/-- `bool(v)`. -/
def Json.truthy : Json → Bool
  | .null => false
  | .bool b => b
  | .int n => n != 0
  | .float x => x.truthy
  | .str s => s != ""
  | .arr l => !l.isEmpty
  | .obj kvs => !kvs.isEmpty

/-- `v.get(k)` on a dictionary that may be anything else: `None` there. -/
def Json.get? (k : String) : Json → Option Json
  | .obj kvs => kvs.lookup k
  | _ => none

/-- `v.get(k)`, `None` when the key is missing or its value is `null`. -/
def Json.get (k : String) (v : Json) : Json := (v.get? k).getD .null

/-- `isinstance(v, dict)`. -/
def Json.isDict : Json → Bool
  | .obj _ => true
  | _ => false

/-- `v is None`. -/
def Json.isNone : Json → Bool
  | .null => true
  | _ => false

/-- The outcome of `json.loads`. -/
inductive Loads where
  | ok (v : Json)
  | valueError
  | recursionError

/-- A `datetime`: the instant its fields name in UTC, and its UTC offset if it has one. -/
structure DateTime where
  fields : ℚ
  offset : Option ℚ

/-- What `urlparse` returns. Reading `port` raises `ValueError` when it is `none`. -/
structure Url where
  scheme : String
  hostname : Option String
  port : Option (Option ℕ)
  username : Option String
  password : Option String

/-- The library functions the program calls. `none` is a `ValueError`. -/
structure Lib where
  /-- `paho.mqtt.client.topic_matches_sub` -/
  topicMatchesSub : String → String → Bool
  /-- `datetime.fromisoformat` -/
  fromisoformat : String → Option DateTime
  /-- `datetime.fromtimestamp(epoch, tz=utc).strftime("%Y-%m-%dT%H:%M:%SZ")` -/
  utcIso : ℤ → String
  /-- `json.loads` -/
  loads : String → Loads
  /-- `urllib.parse.urljoin` -/
  urljoin : String → String → Option String
  /-- `urllib.parse.urlparse` -/
  urlparse : String → Option Url
  /-- `int` of a text -/
  intOfStr : String → Option ℤ
  /-- `str` of a value that is not a text -/
  strOf : Json → String
  /-- `repr` of a text -/
  repr : String → String
  /-- `s.encode("utf-8")` returns -/
  encodes : String → Bool

/-- `str(v)`. -/
def pyStr (L : Lib) : Json → String
  | .str s => s
  | v => L.strOf v

/-- `int(v)`. -/
def pyInt (L : Lib) : Json → Except PyErr ℤ
  | .bool b => .ok (if b then 1 else 0)
  | .int n => .ok n
  | .float (.finite q) => .ok (if 0 ≤ q then ⌊q⌋ else ⌈q⌉)
  | .float .nan => .error .valueError
  | .float _ => .error .overflowError
  | .str s => match L.intOfStr s with
    | some n => .ok n
    | none => .error .valueError
  | _ => .error .typeError

end Scgrep
