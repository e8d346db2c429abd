import Refsite.Json.Basic
import Refsite.Schema.Field
namespace Refsite

inductive TutorialFormat where
  | html
  | markdown
  deriving DecidableEq, Repr

structure Tutorial where
  name : String
  title : String
  content : String
  format : TutorialFormat
  children : List Tutorial
  deriving Repr

namespace TutorialFormat

def words : List (String × TutorialFormat) := [("html", html), ("markdown", markdown)]

def word : TutorialFormat → String
  | html => "html"
  | markdown => "markdown"

end TutorialFormat

namespace Tutorial

mutual

def count : Tutorial → Nat
  | ⟨_, _, _, _, children⟩ => countAll children + 1

def countAll : List Tutorial → Nat
  | [] => 0
  | t :: tutorials => count t + countAll tutorials

end

/-- Takes so many tutorials from a stack. The children of one that is taken go on top. -/
def visit : (turns : Nat) → (stack : List Tutorial) → List Tutorial
  | 0, _ | _, [] => []
  | turns + 1, t :: stack => t :: visit turns (t.children ++ stack)

/-- The tutorials of a forest, each before its children. -/
def walkAll (tutorials : List Tutorial) : List Tutorial := visit (countAll tutorials) tutorials

mutual

def record : Tutorial → Json
  | ⟨name, title, content, format, children⟩ =>
    .object [("name", .string name), ("title", .string title), ("content", .string content),
      ("type", .string format.word), ("children", .array (records children))]

def records : List Tutorial → List Json
  | [] => []
  | t :: tutorials => record t :: records tutorials

end

open Schema
open Schema.Checked (fail inside)

def read : Json → Checked Tutorial
  | .object es =>
    Tutorial.mk
      <$> required es "name" text
      <*> required es "title" text
      <*> field es "content" "" text
      <*> field es "type" .html (choice TutorialFormat.words)
      <*> parts es "children" fun x _ => read x
  | _ => fail .notRecord
termination_by x => sizeOf x
decreasing_by assumption

end Tutorial

end Refsite
