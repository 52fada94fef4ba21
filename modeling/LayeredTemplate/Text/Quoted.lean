import LayeredTemplate.Text.Hidden

/-! Text between quotation marks, on one line and with every character visible. -/
namespace LayeredTemplate.Text

/-- A few characters have a short escape. Others that do not show stand by their code point. -/
def quoteChar (c : Char) : List Char :=
  match c.toNat with
  | 0x00 => ['\\', '0']
  | 0x09 => ['\\', 't']
  | 0x0a => ['\\', 'n']
  | 0x0d => ['\\', 'r']
  | 0x22 | 0x5c => ['\\', c]
  | n =>
      if 0x20 ≤ n ∧ n < 0x7f ∨ isHidden c = false then [c]
      else ['\\', 'u', '\x7b'] ++ Nat.toDigits 16 n ++ ['\x7d']

def quote (s : String) : String :=
  String.ofList ('\x22' :: s.toList.flatMap quoteChar ++ ['\x22'])

end LayeredTemplate.Text
