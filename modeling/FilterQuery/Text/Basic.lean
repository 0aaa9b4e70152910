namespace FilterQuery.Text

abbrev CodeRanges := List (Nat × Nat)

def CodeRanges.holds (ranges : CodeRanges) (c : Char) : Bool :=
  ranges.any fun range => range.1 ≤ c.toNat && c.toNat ≤ range.2

/-- The characters with the Unicode property White_Space. -/
def blankRanges : CodeRanges :=
  [(0x0009, 0x000D), (0x0020, 0x0020), (0x0085, 0x0085), (0x00A0, 0x00A0), (0x1680, 0x1680),
   (0x2000, 0x200A), (0x2028, 0x2029), (0x202F, 0x202F), (0x205F, 0x205F), (0x3000, 0x3000)]

def isBlank (c : Char) : Bool :=
  blankRanges.holds c

def trim (text : String) : String :=
  String.ofList (((text.toList.dropWhile isBlank).reverse.dropWhile isBlank).reverse)

/-- The zeros of the decimal digit blocks.  Each block has its ten digits in a row. -/
def digitZeros : List Nat := [
  0x0030, 0x0660, 0x06F0, 0x07C0, 0x0966, 0x09E6, 0x0A66, 0x0AE6, 0x0B66, 0x0BE6, 0x0C66,
  0x0CE6, 0x0D66, 0x0DE6, 0x0E50, 0x0ED0, 0x0F20, 0x1040, 0x1090, 0x17E0, 0x1810, 0x1946,
  0x19D0, 0x1A80, 0x1A90, 0x1B50, 0x1BB0, 0x1C40, 0x1C50, 0xA620, 0xA8D0, 0xA900, 0xA9D0,
  0xA9F0, 0xAA50, 0xABF0, 0xFF10, 0x104A0, 0x10D30, 0x10D40, 0x11066, 0x110F0, 0x11136,
  0x111D0, 0x112F0, 0x11450, 0x114D0, 0x11650, 0x116C0, 0x116D0, 0x116DA, 0x11730, 0x118E0,
  0x11950, 0x11BF0, 0x11C50, 0x11D50, 0x11DA0, 0x11F50, 0x16130, 0x16A60, 0x16AC0, 0x16B50,
  0x16D70, 0x1CCF0, 0x1D7CE, 0x1D7D8, 0x1D7E2, 0x1D7EC, 0x1D7F6, 0x1E140, 0x1E2F0, 0x1E4F0,
  0x1E5F1, 0x1E950, 0x1FBF0]

def isDecimalDigit (c : Char) : Bool :=
  digitZeros.any fun start => start ≤ c.toNat && c.toNat < start + 10

def isAsciiDigit (c : Char) : Bool :=
  '0' ≤ c && c ≤ '9'

def digitValue (c : Char) : Nat :=
  c.toNat - '0'.toNat

/-- The number written by a row of ASCII digits, most significant first. -/
def naturalOfDigits (digits : List Char) : Nat :=
  digits.foldl (fun value digit => value * 10 + digitValue digit) 0

def isHexDigit (c : Char) : Bool :=
  isAsciiDigit c || ('a' ≤ c && c ≤ 'f') || ('A' ≤ c && c ≤ 'F')

def hexValue (c : Char) : Nat :=
  if isAsciiDigit c then digitValue c
  else if 'a' ≤ c then c.toNat - 'a'.toNat + 10
  else c.toNat - 'A'.toNat + 10

def naturalOfHexDigits (digits : List Char) : Nat :=
  digits.foldl (fun value digit => value * 16 + hexValue digit) 0

def occursIn (needle : List Char) : List Char → Bool
  | [] => needle.isEmpty
  | c :: rest => needle.isPrefixOf (c :: rest) || occursIn needle rest

theorem occursIn_iff_infix {needle chars : List Char} :
    occursIn needle chars = true ↔ needle <:+: chars := by
  induction chars with
  | nil => simp [occursIn]
  | cons c rest ih =>
      rw [occursIn, Bool.or_eq_true, List.isPrefixOf_iff_prefix, ih, List.infix_cons_iff]

def contains (text needle : String) : Bool :=
  occursIn needle.toList text.toList

theorem contains_iff_infix {text needle : String} :
    contains text needle = true ↔ needle.toList <:+: text.toList :=
  occursIn_iff_infix

def endsWith (text ending : String) : Bool :=
  ending.toList.isSuffixOf text.toList

/-- The rest of the next row.  `diagonal` and `left` are the entries before the current one in the
old and in the new row. -/
def nextRowFrom (c : Char) (diagonal left : Nat) : List Char → List Nat → List Nat
  | d :: target, above :: row =>
      let entry := min (min (left + 1) (above + 1)) (diagonal + if c = d then 0 else 1)
      entry :: nextRowFrom c above entry target row
  | _, _ => []

def nextRow (c : Char) (target : List Char) : List Nat → List Nat
  | first :: row => (first + 1) :: nextRowFrom c first (first + 1) target row
  | [] => []

/-- The edit distance of two texts, counted in characters. -/
def editDistance (source target : String) : Nat :=
  let start := List.range (target.toList.length + 1)
  (source.toList.foldl (fun row c => nextRow c target.toList row) start).getLastD 0

def leastBy {α : Type} (score : α → Nat) : List α → Option α
  | [] => none
  | candidate :: rest =>
      match leastBy score rest with
      | none => some candidate
      | some other => if score candidate ≤ score other then some candidate else some other

/-- Whether a distance is small enough for a hint: at most half the longer text's size in bytes. -/
def isNear (distance : Nat) (left right : String) : Bool :=
  distance ≤ max left.utf8ByteSize right.utf8ByteSize / 2

end FilterQuery.Text
