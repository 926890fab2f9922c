/-! Why a file could not be read or created. -/
namespace Dcpu

inductive FileFault where
  /-- The file, or a folder on the way to it, does not exist. -/
  | missing
  | other (text : String)
deriving DecidableEq

def FileFault.message : FileFault → String
  | missing => "No such file or directory (os error 2)"
  | other text => text

end Dcpu
