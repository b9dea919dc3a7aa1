namespace Tether.Text

def isBlank (c : Char) : Bool :=
  let n := c.toNat
  (9 ≤ n && n ≤ 13) || n == 0x20 || n == 0x85 || n == 0xa0 || n == 0x1680 ||
    (0x2000 ≤ n && n ≤ 0x200a) || n == 0x2028 || n == 0x2029 || n == 0x202f || n == 0x205f ||
    n == 0x3000

/-- The text without blanks at its ends. -/
def trim (text : String) : String :=
  let front := text.toList.dropWhile isBlank
  String.ofList (front.reverse.dropWhile isBlank).reverse

end Tether.Text
