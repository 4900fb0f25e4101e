import ScrapeRelay.Text.Blank

/-!
Lists written in one text with commas between the items. Blanks around an item do not belong to it,
and empty items do not count.
-/

namespace ScrapeRelay.Text

/-- The pieces between the separators, one more than there are separators. -/
def split (separator : Char) : List Char → List (List Char)
  | [] => [[]]
  | c :: rest =>
    match split separator rest with
    | [] => [[c]]
    | piece :: pieces => if c = separator then [] :: piece :: pieces else (c :: piece) :: pieces

def commaList (s : String) : List String :=
  ((split ',' s.toList).map trim |>.filter (· ≠ [])).map String.ofList

end ScrapeRelay.Text
