import FilterQuery.Json.Symbol

namespace FilterQuery.Json

/-! Reading JSON text.

Reading has two steps.  The grammar turns symbols into a tree whose strings and numbers may be
without a value.  Taking the value of the tree then fails if one of them is, or if values are
nested too deeply.  Parts of a text that nobody asks for have to be grammatical only.
-/

inductive Raw where
  | null
  | bool (value : Bool)
  | number (value : Option Number)
  | string (value : Option String)
  | array (items : List Raw)
  | object (members : List (Option String × Raw))
deriving Repr, Inhabited

/-- An array or object that has been opened, with what it holds so far, the latest first.  An
object also has the key of the value that is being read. -/
inductive Frame where
  | array (items : List Raw)
  | object (members : List (Option String × Raw)) (key : Option String)
deriving Repr, Inhabited

/-- What may come next, and the arrays and objects around it, the innermost first. -/
inductive State where
  | atValue (frames : List Frame)
  | atFirstItem (frames : List Frame)
  | atFirstKey (frames : List Frame)
  | atKey (members : List (Option String × Raw)) (frames : List Frame)
  | atColon (members : List (Option String × Raw)) (key : Option String) (frames : List Frame)
  | atNext (frame : Frame) (frames : List Frame)
  | finished (raw : Raw)
deriving Repr, Inhabited

def State.afterValue (raw : Raw) : List Frame → State
  | [] => .finished raw
  | .array items :: frames => .atNext (.array (raw :: items)) frames
  | .object members key :: frames => .atNext (.object ((key, raw) :: members) key) frames

def State.startValue (frames : List Frame) : Symbol → Option State
  | .openArray => some (.atFirstItem frames)
  | .openObject => some (.atFirstKey frames)
  | .null => some (.afterValue .null frames)
  | .bool value => some (.afterValue (.bool value) frames)
  | .number value => some (.afterValue (.number value) frames)
  | .string value => some (.afterValue (.string value) frames)
  | _ => none

def State.step : State → Symbol → Option State
  | .atValue frames, symbol => startValue frames symbol
  | .atFirstItem frames, .closeArray => some (.afterValue (.array []) frames)
  | .atFirstItem frames, symbol => startValue (.array [] :: frames) symbol
  | .atFirstKey frames, .closeObject => some (.afterValue (.object []) frames)
  | .atFirstKey frames, .string key => some (.atColon [] key frames)
  | .atKey members frames, .string key => some (.atColon members key frames)
  | .atColon members key frames, .colon => some (.atValue (.object members key :: frames))
  | .atNext (.array items) frames, .comma => some (.atValue (.array items :: frames))
  | .atNext (.array items) frames, .closeArray => some (.afterValue (.array items.reverse) frames)
  | .atNext (.object members _) frames, .comma => some (.atKey members frames)
  | .atNext (.object members _) frames, .closeObject =>
      some (.afterValue (.object members.reverse) frames)
  | _, _ => none

def State.run : State → List Symbol → Option State
  | state, [] => some state
  | state, symbol :: rest =>
      match state.step symbol with
      | some after => after.run rest
      | none => none

def Raw.ofSymbols? (symbols : List Symbol) : Option Raw :=
  match State.run (.atValue []) symbols with
  | some (.finished raw) => some raw
  | _ => none

def Raw.read? (text : String) : Option Raw :=
  (symbols? text.toList).bind Raw.ofSymbols?

def depthLimit : Nat := 127

mutual

/-- The value of a tree that is nested no deeper than a number of levels. -/
def Raw.value? (levels : Nat) : Raw → Option Json
  | .null => some .null
  | .bool value => some (.bool value)
  | .number value => value.map .number
  | .string value => value.map .string
  | .array items =>
      match levels with
      | 0 => none
      | levels + 1 => (Raw.itemValues? levels items).map .array
  | .object members =>
      match levels with
      | 0 => none
      | levels + 1 => (Raw.memberValues? levels members).map .object

def Raw.itemValues? (levels : Nat) : List Raw → Option (List Json)
  | [] => some []
  | item :: rest =>
      match item.value? levels, Raw.itemValues? levels rest with
      | some value, some values => some (value :: values)
      | _, _ => none

def Raw.memberValues? (levels : Nat) :
    List (Option String × Raw) → Option (List (String × Json))
  | [] => some []
  | (key, raw) :: rest =>
      match key, raw.value? levels, Raw.memberValues? levels rest with
      | some key, some value, some values => some ((key, value) :: values)
      | _, _, _ => none

end

/-- The value of a JSON text, every key and every repetition of a key included. -/
def read? (text : String) : Option Json :=
  (Raw.read? text).bind (Raw.value? depthLimit)

end FilterQuery.Json
