import AccessControl.Value
import AccessControl.Text.Blank
import AccessControl.Text.Octets

/-! # Secrets

A value that is shown as `[REDACTED]` wherever it is printed or written.
-/
namespace AccessControl

structure Secret where
  exposed : String
  deriving DecidableEq

namespace Secret

def redacted : String := "[REDACTED]"

def display (_ : Secret) : String := redacted

def inspect (_ : Secret) : String := s!"Secret(\"{redacted}\")"

def toValue (_ : Secret) : Value := .string redacted

def octets (s : Secret) : Text.Octets := Text.octetsOf s.exposed

/-- Empty or nothing but white space, which never serves as a key. -/
def isBlank (s : Secret) : Bool := Text.isBlank s.exposed

end Secret
end AccessControl
