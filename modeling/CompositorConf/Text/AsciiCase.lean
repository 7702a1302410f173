namespace CompositorConf.Text

/-- The characters of a text with ASCII capitals in lower case. -/
def lowerAscii (text : String) : List Char :=
  text.toList.map Char.toLower

/-- Whether two texts are equal up to the case of ASCII letters. -/
def equalIgnoringCase (first second : String) : Bool :=
  lowerAscii first == lowerAscii second

/-- Equality up to ASCII case is equality of the lower-case forms. -/
theorem equalIgnoringCase_iff {first second : String} :
    equalIgnoringCase first second = true ↔
      lowerAscii first = lowerAscii second := by
  simp [equalIgnoringCase]

end CompositorConf.Text
