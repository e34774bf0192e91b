import FieldLine.Text.Visible

/-!
Texts quoted for messages.  Characters without a shape of their own are written as escapes.
-/

namespace FieldLine
namespace Quoted

def renderChar (c : Char) : List Char :=
  if c = '\x00' then ['\\', '0']
  else if c = '\t' then ['\\', 't']
  else if c = '\n' then ['\\', 'n']
  else if c = '\x0d' then ['\\', 'r']
  else if c = '"' then ['\\', '"']
  else if c = '\\' then ['\\', '\\']
  else if Visible.isVisible c then [c]
  else ['\\', 'u', '\x7b'] ++ Nat.toDigits 16 c.toNat ++ ['\x7d']

def render (text : String) : String :=
  .ofList ('"' :: text.toList.flatMap renderChar ++ ['"'])

end Quoted
end FieldLine
