import RouteStubs.Text.Basic

/-!
# Singular and plural

The English endings by which a collection and one of its members are told apart.

## Main definitions

* `Name.pluralize`, `Name.singularize`: on strings.
-/

namespace RouteStubs.Name

open Text

/-- A vowel before a final `y` keeps the `y`. -/
def isVowel (c : Char) : Bool := ['a', 'e', 'i', 'o', 'u'].contains c

/-- Whether a word, in reverse, ends in a `y` that becomes `ies`. -/
def endsInConsonantY : List Char → Bool
  | 'y' :: c :: _ => !isVowel c
  | ['y'] => true
  | _ => false

/-- Whether the text has one of the endings. -/
def endsInOneOf (endings : List String) (s : List Char) : Bool :=
  endings.any fun e => e.toList.isSuffixOf s

/-- The plural of a word. A word that ends in `s` is one already. -/
def pluralizeChars (w : List Char) : List Char :=
  if endsInOneOf ["s"] w then w
  else if endsInConsonantY w.reverse then w.dropLast ++ ['i', 'e', 's']
  else if endsInOneOf ["sh", "ch", "x", "z"] w then w ++ ['e', 's']
  else w ++ ['s']

/-- The singular of a word. -/
def singularizeChars (w : List Char) : List Char :=
  if endsInOneOf ["ies"] w then w.take (w.length - 3) ++ ['y']
  else if endsInOneOf ["shes", "ches", "xes", "zes", "sses"] w then w.take (w.length - 2)
  else if endsInOneOf ["s"] w && !endsInOneOf ["ss"] w then w.dropLast
  else w

/-- The plural of a resource name. -/
def pluralize (w : String) : String := onChars pluralizeChars w

/-- The singular of a resource name. -/
def singularize (w : String) : String := onChars singularizeChars w

end RouteStubs.Name
