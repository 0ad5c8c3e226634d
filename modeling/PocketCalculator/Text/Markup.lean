/-!
# Text in markup

In a message with markup, the characters that markup consists of are written as entities.
-/

namespace PocketCalculator.Markup

def escapeChar (c : Char) : List Char :=
  match c with
  | '&' => ['&', 'a', 'm', 'p', ';']
  | '<' => ['&', 'l', 't', ';']
  | '>' => ['&', 'g', 't', ';']
  | '"' => ['&', 'q', 'u', 'o', 't', ';']
  | '\'' => ['&', '#', 'x', '2', '7', ';']
  | c => [c]

def escape (cs : List Char) : List Char := cs.flatMap escapeChar

def code (cs : List Char) : List Char := "<code>".toList ++ escape cs ++ "</code>".toList

/-- Only texts of numbers are written in bold, and they are put in as they are. -/
def bold (cs : List Char) : List Char := "<b>".toList ++ cs ++ "</b>".toList

theorem escape_append (cs ds : List Char) : escape (cs ++ ds) = escape cs ++ escape ds := by
  simp only [escape, List.flatMap_append]

end PocketCalculator.Markup
