import KeypadCalc.Text.Blank

/-!
Texts as lists of characters, so that every length counts characters and not bytes, and the few
text operations that the calculator needs: trimming, removing blanks, collapsing runs of blanks,
looking for a word, and the shortened form in which texts are stored.
-/
namespace KeypadCalc

abbrev Text := List Char

namespace Text

/-- Leaves out every blank. -/
def compact (s : Text) : Text :=
  s.filter fun c => !isBlank c

/-- Removes from the end the longest run of elements that satisfy `p`. -/
def dropEndWhile {α : Type} (p : α → Bool) (s : List α) : List α :=
  (s.reverse.dropWhile p).reverse

def trimEnd (s : Text) : Text :=
  dropEndWhile isBlank s

def trim (s : Text) : Text :=
  trimEnd (s.dropWhile isBlank)

/-- Puts `c` in front of the first word. -/
def consToWord (c : Char) : List Text → List Text
  | [] => [[c]]
  | word :: words => (c :: word) :: words

/-- The maximal runs of characters that are not blank, in order. -/
def words : Text → List Text
  | [] => []
  | [c] => if isBlank c then [] else [[c]]
  | c :: d :: rest =>
    if isBlank c then words (d :: rest)
    else if isBlank d then [c] :: words (d :: rest)
    else consToWord c (words (d :: rest))

/-- Drops blanks at both ends and writes one space for every run of blanks inside. -/
def normalizeBlanks (s : Text) : Text :=
  [' '].intercalate (words s)

/-- Whether `word` occurs in the text as consecutive characters. -/
def includes (word : Text) : Text → Bool
  | [] => word.isEmpty
  | c :: rest => word.isPrefixOf (c :: rest) || includes word rest

/-- The form in which a text is kept for display or in the history: without angle brackets, and
cut after `limit` characters. -/
def forStorage (limit : Nat) (s : Text) : Text :=
  (s.filter fun c => c ≠ '<' && c ≠ '>').take limit

/-- The length at which messages for the screen are cut. -/
def storageLimit : Nat := 50

end Text
end KeypadCalc
