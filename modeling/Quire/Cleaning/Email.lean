import Quire.Cleaning.Pattern

/-!
# E-mail addresses

An address is a local part, `@`, and a domain that ends in a dot and two or more ASCII letters.
Of the places where the domain may end, the one with the last such dot is taken, and all letters
that follow it: this is how `[A-Za-z0-9._%+-]+@[A-Za-z0-9.-]+\.[A-Za-z]{2,}` matches greedily.
-/

namespace Quire.Email

/-- An ASCII letter or digit, or one of `._%+-`. -/
def isLocalChar (c : Char) : Bool := c.isAlphanum || ['.', '_', '%', '+', '-'].contains c

/-- An ASCII letter or digit, a dot or a hyphen. -/
def isDomainChar (c : Char) : Bool := c.isAlphanum || ['.', '-'].contains c

/-- The length of the longest start of `t` that ends in a dot and two or more letters, with a
character before the dot if `first` holds; `0` if there is none. -/
def domainEnd (first : Bool) : Text → Nat
  | [] => 0
  | c :: t =>
    match domainEnd false t with
    | 0 =>
      if !first && c == '.' then
        let letters := (t.takeWhile Char.isAlpha).length
        if 2 ≤ letters then 1 + letters else 0
      else 0
    | n + 1 => n + 2

/-- The length of the domain at the start of a text, `0` if there is none. -/
def domain (t : Text) : Nat := domainEnd true (t.takeWhile isDomainChar)

/-- The address at the start of a text. -/
def pattern : Pattern := fun t =>
  match t.takeWhile isLocalChar, t.dropWhile isLocalChar with
  | _ :: _, '@' :: rest =>
    match domain rest with
    | 0 => 0
    | n + 1 => (t.takeWhile isLocalChar).length + 1 + (n + 1)
  | _, _ => 0

/-- A text without its e-mail addresses. -/
def remove (t : Text) : Text := pattern.removeAll t

end Quire.Email
