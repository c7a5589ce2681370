import PiHerder.Lib.Dict
import PiHerder.Lib.PyStr

/-!
# JSON values as Python reads them

What `json.loads` gives: the value, its truth and its text. A float is kept as the text that `repr` writes for it.
-/
namespace Lib

inductive JsonValue
  | null
  | bool (b : Bool)
  | int (n : Int)
  | float (text : Str)
  | str (s : Str)
  | arr (items : List JsonValue)
  | obj (items : List (Str × JsonValue))
deriving Repr

namespace JsonValue

/-- `bool(v)`. -/
def truthy : JsonValue → Bool
  | null => false
  | bool b => b
  | int n => n != 0
  | float text => text != Str.lit "0.0" && text != Str.lit "-0.0"
  | str s => !s.isEmpty
  | arr items => !items.isEmpty
  | obj items => !items.isEmpty

/-- `str(v)`; `repr` writes everything but a string. -/
def text (repr : JsonValue → Str) : JsonValue → Str
  | str s => s
  | v => repr v

/-- `d.get(key)`. -/
def get (d : Dict Str JsonValue) (key : Str) : JsonValue := (d.get? key).getD null

end JsonValue
end Lib
