/-!
Lines of a text: each ends at a line feed, which is dropped together with a carriage return right
before it. A last line without a line feed counts when it is not empty.
-/

namespace ScrapeRelay.Text

def lines : List Char → List (List Char)
  | [] => []
  | '\n' :: rest => [] :: lines rest
  | '\r' :: '\n' :: rest => [] :: lines rest
  | c :: rest =>
    match lines rest with
    | [] => [[c]]
    | l :: ls => (c :: l) :: ls

end ScrapeRelay.Text
