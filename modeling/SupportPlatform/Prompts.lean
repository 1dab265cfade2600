import SupportPlatform.Exceptions
import SupportPlatform.Json

/-! # Prompt templates

`PromptTemplate.render` of `app/ai/prompt_registry.py`: the placeholders of a template are
replaced one after the other, and a text that still holds a placeholder afterwards, be it
from a value, is refused.
-/
namespace SupportPlatform

/-- `PromptTemplate`. -/
structure PromptTemplate where
  name : Text
  version : Text
  content : Text
  deriving DecidableEq

namespace PromptTemplate

/-- `[a-z_]`. -/
def nameChar (c : Char) : Bool := c.isLower || c == '_'

/-- The placeholder of a name. -/
def placeholder (name : Text) : Text := ['\x7b', '\x7b'] ++ name ++ ['\x7d', '\x7d']

/-- The name of the placeholder that the text starts with, if it does. -/
def placeholderAt : Text → Option Text
  | '\x7b' :: '\x7b' :: s =>
      let name := s.takeWhile nameChar
      if name ≠ [] ∧ ['\x7d', '\x7d'].isPrefixOf (s.drop name.length) then some name else none
  | _ => none

/-- The names of the placeholders of a text, from left to right.  `skip` counts the
characters of a placeholder that has been read already. -/
def placeholdersFrom : Nat → Text → List Text
  | _, [] => []
  | skip + 1, _ :: s => placeholdersFrom skip s
  | 0, c :: s =>
      match placeholderAt (c :: s) with
      | some name => name :: placeholdersFrom (name.length + 3) s
      | none => placeholdersFrom 0 s

/-- `re.findall` of the placeholders. -/
def placeholders (s : Text) : List Text := placeholdersFrom 0 s

/-- `sorted(names)` as a list is printed. -/
def sortedNames [Runtime] (names : List Text) : Text :=
  Text.reprList (((fromKeys names).insertionSort (· ≤ ·)).map Text.repr)

/-- A `PromptTemplateError`. -/
def error (message : Text) : PyExc := ⟨.promptTemplateError, message⟩

/-- `render(values)`. -/
def render [Runtime] (template : PromptTemplate) (values : Dict Text Text) : Except PyExc Text :=
  let names := placeholders template.content
  let missing := names.filter fun name => name ∉ values.keys
  let extra := values.keys.filter fun key => key ∉ names
  if missing ≠ [] ∨ extra ≠ [] then
    .error (error ("Prompt values do not match template: missing=" ++ sortedNames missing ++
      ", extra=" ++ sortedNames extra))
  else
    let rendered := values.foldl (fun s e => s.replace (placeholder e.1) e.2) template.content
    if placeholders rendered ≠ [] then .error (error "Prompt contains an unresolved placeholder")
    else .ok rendered

end PromptTemplate

end SupportPlatform
