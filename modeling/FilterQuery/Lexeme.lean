import FilterQuery.Schema.Basic
import FilterQuery.Text.Basic
import FilterQuery.Text.LowerCase
import FilterQuery.Token

namespace FilterQuery

/-! Lexemes: the words of a typed query with their places.

White space parts words.  A bracket is a word of its own, and so is everything from a quote to the
next quote of the same kind.  A quote that is never closed is an ordinary character.
-/

/-- What a word is as far as the word alone tells. -/
inductive LexemeKind where
  | bracket
  | field
  | operator
  | combinator
  | value
  | invalid
deriving DecidableEq, Repr, Inhabited

def LexemeKind.name : LexemeKind → String
  | bracket => "bracket"
  | field => "field"
  | operator => "operator"
  | combinator => "combinator"
  | value => "value"
  | invalid => "invalid"

/-- A word of a typed query.  The places before its first and after its last character are counted
in bytes of UTF-8. -/
structure Lexeme where
  text : String
  start : Nat
  stop : Nat
  kind : LexemeKind
deriving DecidableEq, Repr, Inhabited

namespace Lexeme

def byteSize : List Char → Nat
  | [] => 0
  | c :: rest => c.utf8Size + byteSize rest

theorem byteSize_append (front back : List Char) :
    byteSize (front ++ back) = byteSize front + byteSize back := by
  induction front with
  | nil => simp only [List.nil_append, byteSize, Nat.zero_add]
  | cons c rest ih => rw [List.cons_append, byteSize, byteSize, ih, Nat.add_assoc]

def isWordChar (c : Char) : Bool :=
  !Text.isBlank c && c != '(' && c != ')'

/-- The word that starts with a character that is not white space, and what follows the word. -/
def nextWord (c : Char) (rest : List Char) : List Char × List Char :=
  if c == '(' || c == ')' then ([c], rest)
  else if Text.isQuote c && rest.contains c then
    (c :: rest.takeWhile (· != c) ++ [c], (rest.dropWhile (· != c)).tail)
  else (c :: rest.takeWhile isWordChar, rest.dropWhile isWordChar)

theorem dropWhile_ne_of_mem {c : Char} {cs : List Char} (occurs : c ∈ cs) :
    cs.dropWhile (· != c) = c :: (cs.dropWhile (· != c)).tail := by
  induction cs with
  | nil => cases occurs
  | cons d rest ih =>
      by_cases same : d = c
      · subst same
        simp only [List.dropWhile_cons, bne_self_eq_false, Bool.false_eq_true, if_false,
          List.tail_cons]
      · have later : c ∈ rest := (List.mem_cons.mp occurs).resolve_left (Ne.symm same)
        simp only [List.dropWhile_cons, bne_iff_ne, ne_eq, same, not_false_eq_true, if_true]
        exact ih later

theorem nextWord_append (c : Char) (rest : List Char) :
    (nextWord c rest).1 ++ (nextWord c rest).2 = c :: rest := by
  unfold nextWord
  split
  · rfl
  · split
    next quoted =>
      have closes : c ∈ rest := List.contains_iff_mem.mp (Bool.and_eq_true_iff.mp quoted).2
      have split : rest.takeWhile (· != c) ++ rest.dropWhile (· != c) = rest :=
        List.takeWhile_append_dropWhile
      rw [dropWhile_ne_of_mem closes] at split
      simp only [List.cons_append, List.append_assoc, List.nil_append, split]
    · exact congrArg (c :: ·) List.takeWhile_append_dropWhile

theorem length_dropWhile_le (keep : Char → Bool) (cs : List Char) :
    (cs.dropWhile keep).length ≤ cs.length :=
  (List.dropWhile_suffix keep).length_le

theorem length_nextWord_le (c : Char) (rest : List Char) :
    (nextWord c rest).2.length ≤ rest.length := by
  unfold nextWord
  split
  · exact Nat.le_refl _
  · split
    · have dropped := length_dropWhile_le (· != c) rest
      simp only [List.length_tail]
      omega
    · exact length_dropWhile_le isWordChar rest

/-- The words of a text, each with the place before it.  The text itself starts at a place. -/
def wordsFrom (start : Nat) : List Char → List (Nat × List Char)
  | [] => []
  | c :: rest =>
      if Text.isBlank c then wordsFrom (start + c.utf8Size) rest
      else
        (start, (nextWord c rest).1) ::
          wordsFrom (start + byteSize (nextWord c rest).1) (nextWord c rest).2
termination_by cs => cs.length
decreasing_by
  · exact Nat.lt_succ_self _
  · exact Nat.lt_succ_of_le (length_nextWord_le c rest)

/-- Whether characters have the form of a date: four, two and two digits with hyphens between. -/
def isDate : List Char → Bool
  | [a, b, c, d, '-', e, f, '-', g, h] => [a, b, c, d, e, f, g, h].all Text.isDecimalDigit
  | _ => false

/-- What a word is: a bracket, a quoted text or date, a combinator, a field whatever its case, or
an operator. -/
def classify (schema : Schema) (word : String) : LexemeKind :=
  if (Bracket.ofText? word).isSome then .bracket
  else if Text.isQuoted word || isDate word.toList then .value
  else if (Combinator.ofText? word).isSome then .combinator
  else if (schema.field? (Text.lower word)).isSome then .field
  else if (schema.operator? word).isSome then .operator
  else .invalid

def ofWord (schema : Schema) (word : Nat × List Char) : Lexeme :=
  let text := String.ofList word.2
  ⟨text, word.1, word.1 + byteSize word.2, classify schema text⟩

end Lexeme

def lexemes (schema : Schema) (text : String) : List Lexeme :=
  (Lexeme.wordsFrom 0 text.toList).map (Lexeme.ofWord schema)

end FilterQuery
