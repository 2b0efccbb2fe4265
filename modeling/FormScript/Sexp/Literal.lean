/-!
# String literals

Two ways to write a text as one double-quoted literal, in which no quote and no line end stands bare.

* `Literal.quote` is for text in which a backslash already protects the character after it: such
  pairs pass through, also one with a line end, so that the literal can go over several lines. Only
  bare quotes and line ends are escaped.
* `Literal.quoteVerbatim` is for text in which every character stands for itself, a backslash too. Its
  literal stands on one line.
-/

namespace FormScript.Literal

/-- A character as it is written inside a literal, where a quote or a line end cannot stand bare. -/
def escapeBare (c : Char) : List Char :=
  if c = '"' then ['\\', '"']
  else if c = '\n' then ['\\', 'n']
  else if c = '\r' then ['\\', 'r']
  else if c = '\u2028' then ['\\', 'u', '2', '0', '2', '8']
  else if c = '\u2029' then ['\\', 'u', '2', '0', '2', '9']
  else [c]

/-- The body of a literal for text with escape pairs; a backslash at the end protects nothing and
    is doubled. -/
def body : List Char → List Char
  | [] => []
  | [c] => if c = '\\' then ['\\', '\\'] else escapeBare c
  | c :: d :: cs => if c = '\\' then '\\' :: d :: body cs else escapeBare c ++ body (d :: cs)

/-- The literal for text with escape pairs. -/
def quote (content : String) : String :=
  String.ofList ('"' :: (body content.toList ++ ['"']))

/-- The body of a literal for text in which every character stands for itself. -/
def verbatimBody (cs : List Char) : List Char :=
  cs.flatMap fun c => if c = '\\' then ['\\', '\\'] else escapeBare c

/-- The literal for text in which every character stands for itself. -/
def quoteVerbatim (text : String) : String :=
  String.ofList ('"' :: (verbatimBody text.toList ++ ['"']))

end FormScript.Literal
