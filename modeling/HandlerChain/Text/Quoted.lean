/-!
# Quoted text

Labels, messages and names are shown between double quotes. Six characters are
written as an escape of their own and the other control characters by their number;
every other character, an apostrophe included, stands for itself.
-/

namespace HandlerChain.Text

def isControl (c : Char) : Bool := c.toNat < 0x20 || (0x7f ≤ c.toNat && c.toNat < 0xa0)

/-- The written form of one character inside quotes. -/
def escape (c : Char) : List Char :=
  if c = '"' then ['\\', '"']
  else if c = '\\' then ['\\', '\\']
  else if c = '\n' then ['\\', 'n']
  else if c = '\t' then ['\\', 't']
  else if c = '\r' then ['\\', 'r']
  else if c = Char.ofNat 0 then ['\\', '0']
  else if isControl c then ['\\', 'u', '\x7b'] ++ Nat.toDigits 16 c.toNat ++ ['\x7d']
  else [c]

def quoted (s : String) : String :=
  "\"" ++ String.ofList (s.toList.flatMap escape) ++ "\""

theorem escape_of_plain {c : Char} (hq : c ≠ '"') (hb : c ≠ '\\')
    (hc : isControl c = false) : escape c = [c] := by
  have h : ∀ d, isControl d = true → c ≠ d := fun d hd he => by simp [he ▸ hd] at hc
  simp [escape, hq, hb, hc, h '\n' rfl, h '\t' rfl, h '\r' rfl, h (Char.ofNat 0) rfl]

end HandlerChain.Text
