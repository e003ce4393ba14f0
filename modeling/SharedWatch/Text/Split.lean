/-!
Splitting text at a separator.
-/

namespace SharedWatch.Text

/-- The parts between separators: one more than there are separators, possibly empty. -/
def splitAt (sep : Char) : List Char → List (List Char)
  | [] => [[]]
  | c :: rest =>
    if c = sep then [] :: splitAt sep rest
    else
      match splitAt sep rest with
      | part :: parts => (c :: part) :: parts
      | [] => [[c]]

/-- The parts of a text between separators. -/
def parts (sep : Char) (s : String) : List String := (splitAt sep s.toList).map String.ofList

end SharedWatch.Text
