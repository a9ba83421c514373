/-!
# Texts cut at separators

## Main definitions

* `Text.fields`: the pieces between separators, the empty ones among them
-/

namespace SimplePki.Text

/-- The pieces between characters that satisfy a predicate; one more than there are such
characters. -/
def fields (separates : Char → Bool) : List Char → List (List Char)
  | [] => [[]]
  | c :: rest =>
    match fields separates rest with
    | [] => [[c]]
    | first :: more => if separates c then [] :: first :: more else (c :: first) :: more

end SimplePki.Text
