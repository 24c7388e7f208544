import CallTargets.Json.Basic
import CallTargets.Json.Token
/-!
# Reading JSON text

The reader goes over the tokens once and keeps the open arrays and objects on a stack,
so that values may nest to any depth.
-/

namespace CallTargets.Json

/-- An array or object that is still open. Its items are listed newest first. -/
inductive Frame where
  | arr (items : List Json)
  | obj (fields : List (Option String × Json)) (name : Option String)

inductive Awaiting where
  | value
  | item
  | field
  | name (fields : List (Option String × Json))
  | colon (fields : List (Option String × Json)) (name : Option String)
  | after (value : Json)

/-- The value of a token that is a value by itself. -/
def Token.scalar? : Token → Option Json
  | .null => some .null
  | .bool b => some (.bool b)
  | .int n => some (.int n)
  | .real literal => some (.real literal)
  | .str text => some (.str text)
  | _ => none

def begin? : Token → List Frame → Option (List Frame × Awaiting)
  | .openArr, frames => some (frames, .item)
  | .openObj, frames => some (frames, .field)
  | token, frames => token.scalar?.map fun value => (frames, .after value)

/-- One token more: the open frames and what may come next. -/
def step? (token : Token) : List Frame → Awaiting → Option (List Frame × Awaiting)
  | frames, .value => begin? token frames
  | frames, .item =>
    match token with
    | .closeArr => some (frames, .after (.arr []))
    | token => begin? token (.arr [] :: frames)
  | frames, .field =>
    match token with
    | .closeObj => some (frames, .after (.obj []))
    | .str name => some (frames, .colon [] name)
    | _ => none
  | frames, .name fields =>
    match token with
    | .str name => some (frames, .colon fields name)
    | _ => none
  | frames, .colon fields name =>
    match token with
    | .colon => some (.obj fields name :: frames, .value)
    | _ => none
  | .arr items :: frames, .after value =>
    match token with
    | .comma => some (.arr (value :: items) :: frames, .value)
    | .closeArr => some (frames, .after (.arr (value :: items).reverse))
    | _ => none
  | .obj fields name :: frames, .after value =>
    match token with
    | .comma => some (frames, .name ((name, value) :: fields))
    | .closeObj => some (frames, .after (.obj ((name, value) :: fields).reverse))
    | _ => none
  | [], .after _ => none

def build? : List Token → List Frame → Awaiting → Option Json
  | [], [], .after value => some value
  | [], _, _ => none
  | token :: tokens, frames, awaiting => do
    let (frames, awaiting) ← step? token frames awaiting
    build? tokens frames awaiting

def parse? (text : String) : Option Json := do
  build? (← Token.scan text.toList) [] .value

end CallTargets.Json
