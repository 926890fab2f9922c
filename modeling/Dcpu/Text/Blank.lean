/-! Blank characters, and the words of a line: the longest runs of characters that are not blank. -/
namespace Dcpu.Text

/-- The characters with the property `White_Space`. -/
def isBlank (c : Char) : Bool :=
  let n := c.toNat
  (0x0009 ≤ n && n ≤ 0x000d) || n == 0x0020 || n == 0x0085 || n == 0x00a0 || n == 0x1680 ||
    (0x2000 ≤ n && n ≤ 0x200a) || n == 0x2028 || n == 0x2029 || n == 0x202f || n == 0x205f ||
    n == 0x3000

theorem length_dropWhile_le (p : Char → Bool) (cs : List Char) :
    (cs.dropWhile p).length ≤ cs.length :=
  (List.dropWhile_sublist p).length_le

/-- The runs of `cs` between blanks, as lists of characters. None of them is empty. -/
def runs : List Char → List (List Char)
  | [] => []
  | c :: cs =>
    if isBlank c then runs cs
    else (c :: cs.takeWhile (!isBlank ·)) :: runs (cs.dropWhile (!isBlank ·))
termination_by cs => cs.length
decreasing_by
  · simp
  · have := length_dropWhile_le (!isBlank ·) cs
    simp only [List.length_cons]
    omega

def tokens (line : String) : List String := (runs line.toList).map String.ofList

end Dcpu.Text
