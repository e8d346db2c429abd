import Refsite.Text.Basic
namespace Refsite.Html

def escapeChar : Char → List Char
  | '&' => "&amp;".toList
  | '<' => "&lt;".toList
  | '>' => "&gt;".toList
  | '\'' => "&#39;".toList
  | '"' => "&#34;".toList
  | c => [c]

def escapeChars (text : List Char) : List Char := text.flatMap escapeChar

/-- A text as markup that shows it. -/
def escape (text : String) : String := onChars escapeChars text

end Refsite.Html
