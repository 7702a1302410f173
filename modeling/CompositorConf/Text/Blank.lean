namespace CompositorConf.Text

/-- Whether a character has the Unicode property `White_Space`.  Zero-width
characters such as U+200B and U+FEFF do not have it. -/
def isBlank (character : Char) : Bool :=
  let code := character.toNat
  (0x09 ≤ code && code ≤ 0x0D) || code == 0x20 || code == 0x85 ||
    code == 0xA0 || code == 0x1680 || (0x2000 ≤ code && code ≤ 0x200A) ||
    code == 0x2028 || code == 0x2029 || code == 0x202F || code == 0x205F ||
    code == 0x3000

def trimStart (text : List Char) : List Char :=
  text.dropWhile isBlank

def trimEnd (text : List Char) : List Char :=
  (text.reverse.dropWhile isBlank).reverse

/-- A text without blank characters at either end. -/
def trim (text : List Char) : List Char :=
  trimEnd (trimStart text)

end CompositorConf.Text
