/-!
Names in the exposition format: of metrics, where a colon counts as a letter, and of labels.
-/

namespace ScrapeRelay.Exposition

def isLabelStart (c : Char) : Bool := ('a' ≤ c && c ≤ 'z') || ('A' ≤ c && c ≤ 'Z') || c == '_'
def isLabelChar (c : Char) : Bool := isLabelStart c || ('0' ≤ c && c ≤ '9')
def isNameStart (c : Char) : Bool := isLabelStart c || c == ':'
def isNameChar (c : Char) : Bool := isLabelChar c || c == ':'

def isMetricName : List Char → Bool
  | [] => false
  | c :: rest => isNameStart c && rest.all isNameChar

def isLabelName : List Char → Bool
  | [] => false
  | c :: rest => isLabelStart c && rest.all isLabelChar

end ScrapeRelay.Exposition
