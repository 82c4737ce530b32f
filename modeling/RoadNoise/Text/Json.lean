/-
# RoadNoise.Text.Json -- values in JSON

A text is first cut into tokens by a machine that sees one character at a time, and
the tokens are then put together by a machine that sees one token at a time.  Both
run once over what they are given, so reading ends.

A text inside a document may name half of a surrogate pair by an escape.  Such a
text stands for no characters and is read as `none`; nobody minds unless somebody
wants to know it.
-/
import RoadNoise.Text.Numeral

set_option autoImplicit false

namespace RoadNoise

inductive Json where
  | null
  | bool (b : Bool)
  | number (n : Numeral)
  | text (t : Option String)
  | array (items : List Json)
  /-- Members in the order they were written; a name may come back. -/
  | object (members : List (Option String × Json))

namespace Json

/-! ## Tokens -/

inductive Token where
  | openBracket
  | closeBracket
  | openBrace
  | closeBrace
  | comma
  | colon
  | null
  | bool (b : Bool)
  | number (n : Numeral)
  | text (t : Option String)

/-- A character of a text, or a unit of UTF-16 that an escape named. -/
inductive Piece where
  | char (c : Char)
  | unit (u : Nat)

/-- The characters of a text, if every half of a surrogate pair has its other half. -/
def joinPieces : List Piece → Option (List Char)
  | [] => some []
  | .char c :: rest => (joinPieces rest).map (c :: ·)
  | .unit u :: rest =>
      if u < 0xD800 ∨ 0xE000 ≤ u then (joinPieces rest).map (Char.ofNat u :: ·)
      else
        match rest with
        | .unit v :: rest =>
            if u < 0xDC00 ∧ 0xDC00 ≤ v ∧ v < 0xE000 then
              let c := Char.ofNat (0x10000 + (u - 0xD800) * 0x400 + (v - 0xDC00))
              (joinPieces rest).map (c :: ·)
            else none
        | _ => none

/-- What the cutting machine is in the middle of; pieces are latest first. -/
inductive Mode where
  | between
  /-- A numeral or a name. -/
  | word (chars : List Char)
  | text (pieces : List Piece)
  /-- After the mark of an escape. -/
  | escape (pieces : List Piece)
  /-- Inside an escape by number, with as many digits to come. -/
  | unit (pieces : List Piece) (value : Nat) (left : Nat)

structure Cutter where
  mode : Mode
  /-- The tokens so far, latest first. -/
  tokens : List Token

def hexValue? (c : Char) : Option Nat :=
  if '0' ≤ c ∧ c ≤ '9' then some (c.toNat - '0'.toNat)
  else if 'a' ≤ c ∧ c ≤ 'f' then some (c.toNat - 'a'.toNat + 10)
  else if 'A' ≤ c ∧ c ≤ 'F' then some (c.toNat - 'A'.toNat + 10)
  else none

/-- The character that follows the mark of an escape, and what it stands for. -/
def escaped? : Char → Option Char
  | '"' => some '"'
  | '\\' => some '\\'
  | '/' => some '/'
  | 'b' => some '\x08'
  | 'f' => some '\x0c'
  | 'n' => some '\n'
  | 'r' => some '\r'
  | 't' => some '\t'
  | _ => none

def wordToken? (chars : List Char) : Option Token :=
  if chars = "null".toList then some .null
  else if chars = "true".toList then some (.bool true)
  else if chars = "false".toList then some (.bool false)
  else (Numeral.ofChars? chars).map .number

def punctuation? : Char → Option Token
  | '[' => some .openBracket
  | ']' => some .closeBracket
  | '\x7b' => some .openBrace
  | '\x7d' => some .closeBrace
  | ',' => some .comma
  | ':' => some .colon
  | _ => none

def isBlank (c : Char) : Bool := c = ' ' || c = '\t' || c = '\n' || c = '\r'

/-- A character between tokens. -/
def cutBetween (tokens : List Token) (c : Char) : Cutter :=
  if isBlank c then ⟨.between, tokens⟩
  else if c = '"' then ⟨.text [], tokens⟩
  else
    match punctuation? c with
    | some token => ⟨.between, token :: tokens⟩
    | none => ⟨.word [c], tokens⟩

def cut (m : Cutter) (c : Char) : Option Cutter :=
  match m.mode with
  | .between => some (cutBetween m.tokens c)
  | .word chars =>
      if isBlank c || c = '"' || (punctuation? c).isSome then
        (wordToken? chars.reverse).map fun token => cutBetween (token :: m.tokens) c
      else some ⟨.word (c :: chars), m.tokens⟩
  | .text pieces =>
      if c = '"' then
        some ⟨.between, .text ((joinPieces pieces.reverse).map String.ofList) :: m.tokens⟩
      else if c = '\\' then some ⟨.escape pieces, m.tokens⟩
      else if c < ' ' then none
      else some ⟨.text (.char c :: pieces), m.tokens⟩
  | .escape pieces =>
      if c = 'u' then some ⟨.unit pieces 0 4, m.tokens⟩
      else (escaped? c).map fun e => ⟨.text (.char e :: pieces), m.tokens⟩
  | .unit pieces value left =>
      (hexValue? c).map fun h =>
        let value := 16 * value + h
        match left with
        | 0 | 1 => ⟨.text (.unit value :: pieces), m.tokens⟩
        | left + 1 => ⟨.unit pieces value left, m.tokens⟩

/-- The tokens of a text. -/
def tokens? (chars : List Char) : Option (List Token) := do
  let m ← chars.foldlM cut ⟨.between, []⟩
  match m.mode with
  | .between => return m.tokens.reverse
  | .word chars => return (← wordToken? chars.reverse) :: m.tokens |>.reverse
  | _ => none

/-! ## Values -/

/-- A list or a set of members that is not yet closed, with what it holds so far,
latest first. -/
inductive Frame where
  | items (done : List Json)
  | members (done : List (Option String × Json)) (name : Option String)

/-- What the building machine waits for. -/
inductive Awaits where
  /-- A value, or the end of a list that holds nothing yet. -/
  | value (stack : List Frame) (orEnd : Bool)
  /-- A name, or the end of members of which there is none yet. -/
  | name (stack : List Frame) (done : List (Option String × Json)) (orEnd : Bool)
  | colon (stack : List Frame) (done : List (Option String × Json)) (name : Option String)
  | nextItem (stack : List Frame) (done : List Json)
  | nextMember (stack : List Frame) (done : List (Option String × Json))
  /-- Nothing more. -/
  | nothing (value : Json)

/-- A value is complete and goes into the innermost list or set of members. -/
def complete (value : Json) : List Frame → Awaits
  | [] => .nothing value
  | .items done :: stack => .nextItem stack (value :: done)
  | .members done name :: stack => .nextMember stack ((name, value) :: done)

def build (state : Awaits) (token : Token) : Option Awaits :=
  match state, token with
  | .value stack _, .null => some (complete .null stack)
  | .value stack _, .bool b => some (complete (.bool b) stack)
  | .value stack _, .number n => some (complete (.number n) stack)
  | .value stack _, .text t => some (complete (.text t) stack)
  | .value stack _, .openBracket => some (.value (.items [] :: stack) true)
  | .value stack _, .openBrace => some (.name stack [] true)
  | .value (.items [] :: stack) true, .closeBracket => some (complete (.array []) stack)
  | .name stack done _, .text t => some (.colon stack done t)
  | .name stack [] true, .closeBrace => some (complete (.object []) stack)
  | .colon stack done name, .colon => some (.value (.members done name :: stack) false)
  | .nextItem stack done, .comma => some (.value (.items done :: stack) false)
  | .nextItem stack done, .closeBracket => some (complete (.array done.reverse) stack)
  | .nextMember stack done, .comma => some (.name stack done false)
  | .nextMember stack done, .closeBrace => some (complete (.object done.reverse) stack)
  | _, _ => none

/-- The value that a text describes. -/
def ofString? (text : String) : Option Json := do
  let tokens ← tokens? text.toList
  match ← tokens.foldlM build (.value [] false) with
  | .nothing value => return value
  | _ => none

/-! ## Writing -/

def hexDigit (n : Nat) : Char := (Nat.digitChar n)

def writeChar (out : String) (c : Char) : String :=
  match c with
  | '"' => out ++ "\\\""
  | '\\' => out ++ "\\\\"
  | '\n' => out ++ "\\n"
  | '\r' => out ++ "\\r"
  | '\t' => out ++ "\\t"
  | c =>
      if c < ' ' then
        (out ++ "\\u00").push (hexDigit (c.toNat / 16)) |>.push (hexDigit (c.toNat % 16))
      else out.push c

def writeText (out : String) (t : String) : String :=
  (t.toList.foldl writeChar (out.push '"')).push '"'

mutual

/-- Writes a value after what is written already. -/
def write (out : String) : Json → String
  | .null => out ++ "null"
  | .bool b => out ++ (if b then "true" else "false")
  | .number n => out ++ n.text
  | .text t => writeText out (t.getD "")
  | .array items => (writeItems (out.push '[') true items).push ']'
  | .object members => (writeMembers (out.push '\x7b') true members).push '\x7d'

def writeItems (out : String) (first : Bool) : List Json → String
  | [] => out
  | value :: rest => writeItems (write (if first then out else out.push ',') value) false rest

def writeMembers (out : String) (first : Bool) : List (Option String × Json) → String
  | [] => out
  | (name, value) :: rest =>
      let out := writeText (if first then out else out.push ',') (name.getD "")
      writeMembers (write (out.push ':') value) false rest

end

def render (value : Json) : String := write "" value

end Json

end RoadNoise
