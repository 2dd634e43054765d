import AccessControl.Value
import AccessControl.Decimal.Shortest

/-! # Writing JSON

Compact text and text indented by two spaces. Strings keep every character but the quote, the
backslash and the control characters below a space. Numbers that JSON cannot name are written
`null`.
-/
namespace AccessControl.Json

def hexDigit (n : Nat) : Char := Nat.digitChar n

def escape (c : Char) : List Char :=
  if c = '"' then ['\\', '"']
  else if c = '\\' then ['\\', '\\']
  else if c = '\n' then ['\\', 'n']
  else if c = '\r' then ['\\', 'r']
  else if c = '\t' then ['\\', 't']
  else if c = '\x08' then ['\\', 'b']
  else if c = '\x0c' then ['\\', 'f']
  else if c.toNat < 32 then
    ['\\', 'u', '0', '0', hexDigit (c.toNat / 16), hexDigit (c.toNat % 16)]
  else [c]

def writeString (s : String) : List Char := '"' :: s.toList.flatMap escape ++ ['"']

def writeInt (z : Int) : List Char :=
  if z < 0 then '-' :: Nat.toDigits 10 z.natAbs else Nat.toDigits 10 z.natAbs

def nullText : List Char := ['n', 'u', 'l', 'l']

mutual

def write : Value → List Char
  | .null => nullText
  | .bool true => ['t', 'r', 'u', 'e']
  | .bool false => ['f', 'a', 'l', 's', 'e']
  | .int z => writeInt z
  | .float x => x.text.getD nullText
  | .string s => writeString s
  | .array [] => ['[', ']']
  | .array (v :: rest) => '[' :: write v ++ writeItems rest
  | .object [] => ['{', '}']
  | .object ((n, v) :: rest) => '{' :: writeString n ++ ':' :: write v ++ writeFields rest
  | .unreadable _ => nullText

/-- The items after the first, each behind a comma, and the closing bracket. -/
def writeItems : List Value → List Char
  | [] => [']']
  | v :: rest => ',' :: write v ++ writeItems rest

/-- The fields after the first, each behind a comma, and the closing brace. -/
def writeFields : List (String × Value) → List Char
  | [] => ['}']
  | (n, v) :: rest => ',' :: writeString n ++ ':' :: write v ++ writeFields rest

end

def newLine (level : Nat) : List Char := '\n' :: List.replicate (2 * level) ' '

mutual

def writeIndented (level : Nat) : Value → List Char
  | .array (v :: rest) =>
    '[' :: newLine (level + 1) ++ writeIndented (level + 1) v ++ writeItemsIndented level rest
  | .object ((n, v) :: rest) =>
    '{' :: newLine (level + 1) ++ writeString n ++ ':' :: ' ' :: writeIndented (level + 1) v ++
      writeFieldsIndented level rest
  | .array [] => ['[', ']']
  | .object [] => ['{', '}']
  | v => write v

def writeItemsIndented (level : Nat) : List Value → List Char
  | [] => newLine level ++ [']']
  | v :: rest =>
    ',' :: newLine (level + 1) ++ writeIndented (level + 1) v ++ writeItemsIndented level rest

def writeFieldsIndented (level : Nat) : List (String × Value) → List Char
  | [] => newLine level ++ ['}']
  | (n, v) :: rest =>
    ',' :: newLine (level + 1) ++ writeString n ++ ':' :: ' ' :: writeIndented (level + 1) v ++
      writeFieldsIndented level rest

end

def compact (v : Value) : String := String.ofList (write v)

def pretty (v : Value) : String := String.ofList (writeIndented 0 v)

end AccessControl.Json
