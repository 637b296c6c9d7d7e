import Lookahead.Text.Hidden

/-!
Structural texts: one line that names a value's type and lists its parts.

`Form` is the shape of such a text and `Form.text` writes it. Quoted strings escape the quote, the
backslash and every character that does not show.
-/

namespace Lookahead.Text

/-! ## Quoting -/

/-- How one character is written between quotes. -/
def escape (c : Char) : String :=
  if c = '"' then "\\\""
  else if c = '\\' then "\\\\"
  else if c = '\n' then "\\n"
  else if c = '\r' then "\\r"
  else if c = '\t' then "\\t"
  else if c.toNat = 0 then "\\0"
  else if isHidden c then "\\u\x7b" ++ String.ofList (Nat.toDigits 16 c.toNat) ++ "\x7d"
  else c.toString

def quoted (s : String) : String := "\"" ++ String.join (s.toList.map escape) ++ "\""

/-! ## Shapes -/

/-- The shape of a structural text. -/
inductive Form where
  | word (text : String)
  | quote (text : String)
  | call (name : String) (argument : Form)
  | record (name : String) (fields : List (String × Form))
  | list (items : List Form)
  | map (entries : List (Form × Form))

/-- A number is written in decimal. -/
def Form.nat (n : Nat) : Form := .word (toString n)

def Form.int (n : Int) : Form := .word (toString n)

def Form.option : Option Form → Form
  | none => .word "None"
  | some form => .call "Some" form

mutual

/-- Write a shape on one line. -/
def Form.text : Form → String
  | .word text => text
  | .quote text => quoted text
  | .call name argument => name ++ "(" ++ argument.text ++ ")"
  | .record name [] => name
  | .record name fields => name ++ " \x7b " ++ ", ".intercalate (fieldTexts fields) ++ " \x7d"
  | .list items => "[" ++ ", ".intercalate (itemTexts items) ++ "]"
  | .map entries => "\x7b" ++ ", ".intercalate (entryTexts entries) ++ "\x7d"

def fieldTexts : List (String × Form) → List String
  | [] => []
  | (name, form) :: rest => (name ++ ": " ++ form.text) :: fieldTexts rest

def itemTexts : List Form → List String
  | [] => []
  | form :: rest => form.text :: itemTexts rest

def entryTexts : List (Form × Form) → List String
  | [] => []
  | (key, form) :: rest => (key.text ++ ": " ++ form.text) :: entryTexts rest

end

end Lookahead.Text
