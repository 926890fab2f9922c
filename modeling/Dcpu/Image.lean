import Dcpu.ByteOrder
import Dcpu.File
import Dcpu.Machine.Basic

/-! Machines booted from binary images. -/
namespace Dcpu

inductive ImageError where
  | unreadable (path : String) (fault : FileFault)
  | oddLength (bytes : Nat)
  | boot (cause : BootError)
deriving DecidableEq

def ImageError.message : ImageError → String
  | unreadable path fault => "Failed to read image " ++ path ++ ": " ++ fault.message
  | oddLength bytes => "Image has an odd number of bytes (" ++ Nat.repr bytes ++ ")"
  | boot cause => cause.message

/-- The machine with an image in its memory, given what reading the image comes to. -/
def Machine.ofImage (order : ByteOrder) (path : String) (image : Except FileFault (List UInt8)) :
    Except ImageError Machine :=
  match image with
  | .error fault => .error (.unreadable path fault)
  | .ok bytes =>
    match order.words bytes with
    | .error _ => .error (.oddLength bytes.length)
    | .ok program => (Machine.boot program).mapError .boot

end Dcpu
