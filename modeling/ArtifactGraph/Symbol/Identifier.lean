set_option autoImplicit false

/-! Symbols are made of letters, digits, `_` and `$`, so every other character of a
name is escaped by one `$` with letters and digits after it. This leaves `$$` free
to mark structure. -/
namespace ArtifactGraph.Symbol

def hexDigits : Nat → Nat → List Char
  | 0, _ => []
  | width + 1, value => hexDigits width (value / 16) ++ [Nat.digitChar (value % 16)]

def punctuation : List (Char × Char × Char) :=
  [('<', 'L', 'T'), ('>', 'G', 'T'), (',', 'C', 'M'), ('[', 'L', 'B'), (']', 'R', 'B'),
    ('(', 'L', 'P'), (')', 'R', 'P'), (':', 'C', 'L'), ('-', 'D', 'S'), ('.', 'D', 'T'),
    (' ', 'S', 'P'), ('\x60', 'B', 'T')]

def isPlain (c : Char) : Bool := c.isAlphanum || c == '_'

-- Two digits reach U+00FF. Six come after `U`, which is no digit.
def escapeChar (c : Char) : List Char :=
  if isPlain c then [c]
  else
    match punctuation.lookup c with
    | some (first, second) => ['$', first, second]
    | none =>
      if c.toNat ≤ 0xFF then '$' :: hexDigits 2 c.toNat else '$' :: 'U' :: hexDigits 6 c.toNat

def escape (name : List Char) : List Char := name.flatMap escapeChar

def appendIdentifier (buffer name : String) : String :=
  buffer ++ String.ofList (escape name.toList)

theorem hex_digits_length (width value : Nat) : (hexDigits width value).length = width := by
  induction width generalizing value with
  | zero => rfl
  | succ width ih => simp [hexDigits, ih]

theorem escape_append (a b : List Char) : escape (a ++ b) = escape a ++ escape b := by
  simp [escape]

end ArtifactGraph.Symbol
