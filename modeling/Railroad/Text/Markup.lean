/-!
Texts inside HTML and XML documents.
-/
namespace Railroad.Text

/-- Character data: the ampersand and the angle brackets become entities. -/
def dataChar (c : Char) : List Char :=
  if c = '&' then "&amp;".toList
  else if c = '<' then "&lt;".toList
  else if c = '>' then "&gt;".toList
  else [c]

/-- Attribute values: both quotes become entities too. -/
def attributeChar (c : Char) : List Char :=
  if c = '"' then "&quot;".toList
  else if c = '\'' then "&#x27;".toList
  else dataChar c

/-- A text as character data. -/
def markupData (text : String) : String :=
  String.ofList (text.toList.flatMap dataChar)

/-- A text as an attribute value. -/
def markupAttribute (text : String) : String :=
  String.ofList (text.toList.flatMap attributeChar)

end Railroad.Text
