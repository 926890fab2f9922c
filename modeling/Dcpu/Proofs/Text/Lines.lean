import Dcpu.Text.Lines

/-! Lines as the pieces between newlines. -/
namespace Dcpu.Text

end Dcpu.Text
