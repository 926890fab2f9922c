/-! The lines of a stream of bytes. -/
namespace Dcpu.Text

/-- A line without the carriage return at its end. -/
def dropReturn (line : List UInt8) : List UInt8 :=
  if line.getLast? = some 0x0d then line.dropLast else line

/-- The lines of an input. A newline ends a line, and a carriage return before it is not part of the
line; the last line may lack its newline. -/
def lineBytes : List UInt8 → List (List UInt8)
  | [] => []
  | byte :: bytes =>
    let line := (byte :: bytes).takeWhile (· != 0x0a)
    match _ : (byte :: bytes).dropWhile (· != 0x0a) with
    | [] => [line]
    | _ :: rest => dropReturn line :: lineBytes rest
termination_by bytes => bytes.length
decreasing_by
  rename_i h
  have := (List.dropWhile_sublist (l := byte :: bytes) (· != 0x0a)).length_le
  rw [h] at this
  simp only [List.length_cons] at this ⊢
  omega

/-- The lines of an input as text, where they are valid UTF-8. -/
def lines (bytes : List UInt8) : List (Option String) :=
  (lineBytes bytes).map fun line => String.fromUTF8? ⟨line.toArray⟩

end Dcpu.Text
