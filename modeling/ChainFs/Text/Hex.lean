/-!
# Addresses as text

* `hex` — how every address and layout figure is written: lower case, a leading `0x`, no padding.

Messages and the reports of the tools write addresses in this form only.
-/

namespace ChainFs.Text

/-- The hexadecimal digits of a number after `0x`; zero is `0x0`. -/
def hex (n : Nat) : String :=
  "0x" ++ String.ofList (Nat.toDigits 16 n)

end ChainFs.Text
