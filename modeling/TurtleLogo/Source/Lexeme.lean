import TurtleLogo.Text.Basic

set_option autoImplicit false

/-! # Lexemes

A program text is cut into brackets and words, blanks and comments falling away. The cutting is a
machine that takes one character at a time: its `Mode` remembers what the characters so far have
begun. A word of its own are each parenthesis and each operator; a minus sign opens a negative
numeral only where nothing, a blank or an opening bracket or parenthesis stands before it, and a
sign after the `e` of a numeral belongs to that numeral.

A bracket is kept with its place in the text: a line and a column, both counted from one. -/

namespace TurtleLogo

/-- A position in a text. -/
structure Place where
  line : Nat
  column : Nat
  deriving DecidableEq, Repr

namespace Place

/-- The place of the first character. -/
def start : Place :=
  ⟨1, 1⟩

/-- The place after a character. -/
def next (p : Place) (c : Char) : Place :=
  if c = '\n' then ⟨p.line + 1, 1⟩ else ⟨p.line, p.column + 1⟩

/-- The place after several characters. -/
def advance (p : Place) (cs : List Char) : Place :=
  cs.foldl next p

end Place

/-- A piece of program text. -/
inductive Lexeme where
  | opening (place : Place)
  | closing (place : Place)
  | word (text : List Char)
  deriving DecidableEq, Repr

namespace Lexeme

/-! ## Character classes -/

/-- Whether the character ends any word. -/
def endsWord (c : Char) : Bool :=
  Text.isBlank c || c == '[' || c == ']' || c == '(' || c == ')' || c == ';'

/-- Whether the character is an operator or the first half of one. -/
def isOperatorMark (c : Char) : Bool :=
  c == '+' || c == '-' || c == '*' || c == '/' || c == '%' || c == '^' || c == '=' || c == '<' ||
    c == '>'

/-- Whether the first characters of `cs` are a digit, or a point and a digit. -/
def startsNumeral : List Char → Bool
  | '.' :: c :: _ => c.isDigit
  | c :: _ => c.isDigit
  | [] => false

/-- Whether `text` is digits with at most one point, at least one digit among them. -/
def isMantissa (text : List Char) : Bool :=
  text.any Char.isDigit && text.all (fun c => c.isDigit || c == '.') && text.count '.' ≤ 1

/-- Whether `text` without an optional leading minus is a mantissa. -/
def isSignedMantissa : List Char → Bool
  | '-' :: text => isMantissa text
  | text => isMantissa text

/-- Whether a sign may follow the word spelt backwards by `spelt`: it is a numeral up to the letter
that opens the exponent. -/
def opensExponent : List Char → Bool
  | c :: spelt => (c == 'e' || c == 'E') && isSignedMantissa spelt.reverse
  | [] => false

/-! ## Modes -/

/-- What the characters so far have begun. Words are spelt backwards. -/
inductive Mode where
  /-- No word; the flag says whether a minus sign here may open a numeral. -/
  | idle (boundary : Bool)
  /-- A comment; the flag is kept for what follows it. -/
  | comment (boundary : Bool)
  /-- An operator whose second half comes next. -/
  | pair (first : Char)
  /-- A quoted word, in which operators are ordinary characters. -/
  | quoted (spelt : List Char)
  /-- Any other word. -/
  | bare (spelt : List Char)
  deriving DecidableEq, Repr

/-- Whether `c` and the character after it make one operator. -/
def isPair (c : Char) (rest : List Char) : Bool :=
  match c, rest with
  | '<', d :: _ => d == '=' || d == '>'
  | '>', d :: _ => d == '='
  | _, _ => false

/-- Whether the bare word spelt backwards by `spelt` goes on with `c`. -/
def continuesBare (spelt : List Char) (c : Char) : Bool :=
  !endsWord c && (!isOperatorMark c || ((c == '+' || c == '-') && opensExponent spelt))

/-- Takes the character `c` where no word is open; `rest` follows it. -/
def begin (boundary : Bool) (place : Place) (c : Char) (rest : List Char) :
    List Lexeme × Mode :=
  if Text.isBlank c then ([], .idle true)
  else if c = ';' then ([], .comment boundary)
  else if c = '[' then ([.opening place], .idle true)
  else if c = ']' then ([.closing place], .idle boundary)
  else if c = '(' then ([.word [c]], .idle true)
  else if c = ')' then ([.word [c]], .idle false)
  else if isPair c rest then ([], .pair c)
  else if c = '-' && boundary && startsNumeral rest then ([], .bare [c])
  else if isOperatorMark c then ([.word [c]], .idle false)
  else if c = '"' then ([], .quoted [c])
  else ([], .bare [c])

/-- Takes one character: the lexemes that are complete before or with it, and the mode after it. -/
def step (mode : Mode) (place : Place) (c : Char) (rest : List Char) : List Lexeme × Mode :=
  match mode with
  | .idle boundary => begin boundary place c rest
  | .comment boundary => if c = '\n' then ([], .idle true) else ([], .comment boundary)
  | .pair first => ([.word [first, c]], .idle false)
  | .quoted spelt =>
    if endsWord c then
      let (lexemes, next) := begin false place c rest
      (.word spelt.reverse :: lexemes, next)
    else ([], .quoted (c :: spelt))
  | .bare spelt =>
    if continuesBare spelt c then ([], .bare (c :: spelt))
    else
      let (lexemes, next) := begin false place c rest
      (.word spelt.reverse :: lexemes, next)

/-- What the end of the text completes. -/
def finish : Mode → List Lexeme
  | .quoted spelt => [.word spelt.reverse]
  | .bare spelt => [.word spelt.reverse]
  | _ => []

/-- The lexemes of `cs`, read from a given mode and place on. -/
def scanFrom (mode : Mode) (place : Place) : List Char → List Lexeme
  | [] => finish mode
  | c :: rest =>
    let (lexemes, next) := step mode place c rest
    lexemes ++ scanFrom next (place.next c) rest

/-- The lexemes of a text. -/
def scan (cs : List Char) : List Lexeme :=
  scanFrom (.idle true) Place.start cs

end Lexeme

end TurtleLogo
