import Inferenced.Lib.Text

/-!
# Varlink messages (varlink/protocol.rs)

`Json` is the value type of the JSON library. Numbers keep its distinction
between unsigned, negative and floating point; a floating point number is its
text. Objects are lists of fields.
-/

namespace Inferenced.Varlink
open Lib

inductive Json where
  | null
  | bool (b : Bool)
  | posInt (n : UInt64)
  | negInt (n : ℤ)
  | float (text : String)
  | string (s : String)
  | array (elems : List Json)
  | object (fields : List (String × Json))

namespace Json

/-- `Value::get` with a string index. -/
def get : Json → String → Option Json
  | .object fields, key => (fields.find? fun f => decide (f.1 = key)).map Prod.snd
  | _, _ => none

def asStr : Json → Option String
  | .string s => some s
  | _ => none

def asBool : Json → Option Bool
  | .bool b => some b
  | _ => none

def asU64 : Json → Option UInt64
  | .posInt n => some n
  | _ => none

/-- `json!` of an optional value. -/
def ofOption {α : Type} (f : α → Json) : Option α → Json
  | none => .null
  | some a => f a

def ofNat (n : ℕ) : Json := .posInt (UInt64.ofNat n)

end Json

structure VarlinkRequest where
  method : String
  parameters : Option Json := none
  more : Option Bool := none
  oneway : Option Bool := none

structure VarlinkReply where
  parameters : Option Json
  continues : Option Bool
  error : Option String

namespace VarlinkReply

def ok (parameters : Json) : VarlinkReply :=
  { parameters := some parameters, continues := none, error := none }

def streaming (parameters : Json) (continues : Bool) : VarlinkReply :=
  { parameters := some parameters, continues := some continues, error := none }

/-- `VarlinkReply::error`. -/
def fail (error : String) (parameters : Json) : VarlinkReply :=
  { parameters := some parameters, continues := none, error := some error }

end VarlinkReply

/-- `make_method_not_found`. -/
def makeMethodNotFound (method : String) : VarlinkReply :=
  .fail "org.varlink.service.MethodNotFound" (.object [("method", .string method)])

def invalidParameter (parameter : String) : VarlinkReply :=
  .fail "org.varlink.service.InvalidParameter" (.object [("parameter", .string parameter)])

end Inferenced.Varlink
