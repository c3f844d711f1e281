import Reckoner.Error
import Reckoner.Text.Blank
import Reckoner.Token.Basic

/-!
# Splitting a text into tokens

Nine characters are tokens of their own. A run of digits and points is a number.
Any other character that is not blank starts a name, which extends up to the next
blank or single-character token, so a name may hold digits and points but not
start with one. Gaps between tokens are skipped; every other blank is refused.
-/

namespace Reckoner.Lexer

open Text

/-- The kind of a character that is a token of its own. -/
def signKind? : Char → Option TokenKind
  | '+' => some (.operator .plus)
  | '-' => some (.operator .minus)
  | '*' => some (.operator .star)
  | '/' => some (.operator .slash)
  | '^' => some (.operator .caret)
  | '!' => some .bang
  | '(' => some .opening
  | ')' => some .closing
  | ',' => some .comma
  | _ => none

/-- The characters of numbers. -/
def isNumeral (c : Char) : Bool := c.isDigit || c == '.'

/-- The characters of names after the first one. -/
def isNameRest (c : Char) : Bool := !isBlank c && (signKind? c).isNone

theorem length_dropWhile_le {α : Type} (p : α → Bool) (xs : List α) :
    (xs.dropWhile p).length ≤ xs.length :=
  (List.dropWhile_sublist p).length_le

/-- The tokens of `text`, whose first character stands at `position`. -/
def tokensFrom (position : Nat) : List Char → Except ParseError (List Token)
  | [] => .ok []
  | c :: rest =>
    if isGap c then tokensFrom (position + 1) rest
    else
      match signKind? c with
      | some kind =>
        (tokensFrom (position + 1) rest).map (⟨kind, String.singleton c, position⟩ :: ·)
      | none =>
        if isNumeral c then
          let word := c :: rest.takeWhile isNumeral
          (tokensFrom (position + word.length) (rest.dropWhile isNumeral)).map
            (⟨.number, String.ofList word, position⟩ :: ·)
        else if isBlank c then
          .error (.unexpectedToken (String.singleton c) position .foreignBlank)
        else
          let word := c :: rest.takeWhile isNameRest
          (tokensFrom (position + word.length) (rest.dropWhile isNameRest)).map
            (⟨.name, String.ofList word, position⟩ :: ·)
termination_by text => text.length
decreasing_by
  · exact Nat.lt_succ_self _
  · exact Nat.lt_succ_self _
  · exact Nat.lt_succ_of_le (length_dropWhile_le _ _)
  · exact Nat.lt_succ_of_le (length_dropWhile_le _ _)

end Reckoner.Lexer

namespace Reckoner

/-- The tokens of `text` with the positions of their first characters. -/
def tokenize (text : String) : Except ParseError (List Token) :=
  Lexer.tokensFrom 0 text.toList

end Reckoner
