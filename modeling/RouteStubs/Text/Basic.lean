/-!
# Text as lists of characters

The rules of this library read text character by character, so their definitions are on
`List Char`; a `String` is taken apart and put together again at the edge.

## Main definitions

* `onChars`: a rule on characters as a function on strings.
* `pieces`: the parts of a text between separators.
* `replace`: every occurrence of a pattern, from the left, without overlap.
* `trim`, `trimLeft`, `trimRight`: a text without the characters of a class at its ends.
* `inRanges`: membership of a code point in a table of ranges.
-/

namespace RouteStubs.Text

/-- A rule on characters, applied to a string. -/
def onChars (f : List Char → List Char) (s : String) : String :=
  String.ofList (f s.toList)

/-- Whether a code point lies in one of the closed ranges. -/
def inRanges (ranges : List (Nat × Nat)) (code : Nat) : Bool :=
  ranges.any fun r => r.1 ≤ code && code ≤ r.2

/-- A Latin capital letter. -/
def isCapital (c : Char) : Bool := 'A' ≤ c && c ≤ 'Z'

/-- A Latin small letter. -/
def isSmall (c : Char) : Bool := 'a' ≤ c && c ≤ 'z'

/-- One of the ten ASCII digits. -/
def isAsciiDigit (c : Char) : Bool := '0' ≤ c && c ≤ '9'

/-! ### Splitting -/

/-- The parts of a text between the separators: always at least one part, which may be empty. -/
def pieces (sep : Char) : List Char → List (List Char)
  | [] => [[]]
  | c :: rest =>
    if c = sep then [] :: pieces sep rest
    else match pieces sep rest with
      | [] => [[c]]
      | first :: others => (c :: first) :: others

@[simp] theorem pieces_ne_nil (sep : Char) (s : List Char) : pieces sep s ≠ [] := by
  cases s with
  | nil => simp [pieces]
  | cons c rest =>
    rw [pieces]
    split
    · simp
    · split <;> simp

/-- The parts of a string between the separators. -/
def split (sep : Char) (s : String) : List String :=
  (pieces sep s.toList).map String.ofList

/-- The maximal runs of characters that satisfy `keep`. -/
def runs (keep : Char → Bool) : List Char → List (List Char)
  | [] => []
  | c :: rest =>
    if keep c then
      match rest with
      | [] => [[c]]
      | d :: _ =>
        if keep d then
          match runs keep rest with
          | [] => [[c]]
          | first :: others => (c :: first) :: others
        else [c] :: runs keep rest
    else runs keep rest

/-! ### Replacing -/

/-- `replaceFrom skip`: the text after `skip` more characters of the occurrence just replaced. -/
def replaceFrom (pattern by_ : List Char) : Nat → List Char → List Char
  | _, [] => []
  | skip + 1, _ :: rest => replaceFrom pattern by_ skip rest
  | 0, c :: rest =>
    if pattern.isPrefixOf (c :: rest) then
      by_ ++ replaceFrom pattern by_ (pattern.length - 1) rest
    else c :: replaceFrom pattern by_ 0 rest

/-- Replaces every occurrence of a nonempty pattern, from the left and without overlap. -/
def replace (pattern by_ : List Char) (s : List Char) : List Char :=
  replaceFrom pattern by_ 0 s

/-! ### Trimming -/

/-- The text without its leading characters of a class. -/
def trimLeft (drop : Char → Bool) (s : List Char) : List Char := s.dropWhile drop

/-- The text without its trailing characters of a class. -/
def trimRight (drop : Char → Bool) (s : List Char) : List Char :=
  (s.reverse.dropWhile drop).reverse

/-- The text without the characters of a class at its two ends. -/
def trim (drop : Char → Bool) (s : List Char) : List Char :=
  trimRight drop (trimLeft drop s)

/-- A run of the character `c` becomes one. -/
def squeeze (c : Char) : List Char → List Char
  | [] => []
  | [d] => [d]
  | d :: e :: rest =>
    if d = c ∧ e = c then squeeze c (e :: rest) else d :: squeeze c (e :: rest)

/-- Whether `part` occurs somewhere in the text. -/
def occurs (part : List Char) : List Char → Bool
  | [] => part.isEmpty
  | c :: rest => part.isPrefixOf (c :: rest) || occurs part rest

end RouteStubs.Text
