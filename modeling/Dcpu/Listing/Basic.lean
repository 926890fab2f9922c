import Dcpu.File
import Dcpu.Listing.ByteReader

/-! Listings of machine code, one instruction a line: as a list, as a text and as a file. -/
namespace Dcpu

inductive ListingError where
  | unreadable (path : String) (fault : FileFault)
  | uncreatable (path : String) (fault : FileFault)
  | unwritable (path : String) (fault : FileFault)
  /-- The instruction with that index does not decode. -/
  | undecodable (index : Nat) (cause : DecodeError)
deriving DecidableEq

def ListingError.message : ListingError → String
  | unreadable path fault => "Failed to read " ++ path ++ ": " ++ fault.message
  | uncreatable path fault => "Failed to create " ++ path ++ ": " ++ fault.message
  | unwritable path fault => "Failed to write " ++ path ++ ": " ++ fault.message
  | undecodable index cause =>
    "Failed to decode instruction " ++ Nat.repr index ++ ": " ++ cause.message

namespace ByteReader

/-- Every instruction of the stream, unless a fault ends it. -/
def instructions (r : ByteReader) : Except DecodeError (List Instruction) := r.items.mapM id

/-- The listing of the stream, unless a fault ends it. -/
def text (r : ByteReader) : Except DecodeError String :=
  return String.join (← r.items.mapM fun item => item.map fun i => i.text ++ "\n")

end ByteReader

namespace Listing

/-- The values before the first error, and the error with its index. -/
def untilError {ε α : Type} (index : Nat) : List (Except ε α) → List α × Option (Nat × ε)
  | [] => ([], none)
  | .ok a :: items =>
    let (values, error) := untilError (index + 1) items
    (a :: values, error)
  | .error e :: _ => ([], some (index, e))

/-- What is in the output file in the end, if it was created, and how the listing failed. -/
structure Outcome where
  output : Option String
  error : Option ListingError
deriving DecidableEq

/-- The listing of a file, given what reading the input and creating the output come to. The output
is created only if the input was read. After a fault it holds the lines before it. -/
def ofFile (order : ByteOrder) (inputPath outputPath : String)
    (input : Except FileFault (List UInt8)) (creation : Except FileFault Unit) : Outcome :=
  match input, creation with
  | .error fault, _ => ⟨none, some (.unreadable inputPath fault)⟩
  | .ok _, .error fault => ⟨none, some (.uncreatable outputPath fault)⟩
  | .ok bytes, .ok () =>
    let (is, fault) := untilError 0 (ByteReader.mk order bytes).items
    { output := String.join (is.map fun i => i.text ++ "\n")
      error := fault.map fun (index, cause) => .undecodable index cause }

end Listing

end Dcpu
