import ScopedStyles.Digest
import ScopedStyles.Path

/-!
# Scoped class names

A pattern holds the placeholders `[name]`, `[local]` and `[hash]`. `Naming.scopedName` puts the
stylesheet's stem, the class name and a short digest of both in their places, one placeholder
after the other.
-/

namespace ScopedStyles

/-- Replaces each occurrence of `old`, found from left to right; the first argument counts the
characters of the current occurrence still to be skipped. -/
def replaceFrom (old new : List Char) : Nat → List Char → List Char
  | _, [] => []
  | k + 1, _ :: cs => replaceFrom old new k cs
  | 0, c :: cs =>
    if old.isPrefixOf (c :: cs) then new ++ replaceFrom old new (old.length - 1) cs
    else c :: replaceFrom old new 0 cs

def replaceAll (old new text : List Char) : List Char := replaceFrom old new 0 text

structure Naming where
  pattern : String
deriving DecidableEq, Repr, Inhabited

namespace Naming

def defaultPattern : String := "[name]_[local]_[hash]"

def isIdentChar (c : Char) : Bool := c.isAlphanum || c = '_' || c = '-'

/-- The stem of the stylesheet's file name as it is shown, every other character than an ASCII
letter, digit, `_` or `-` turned into `_`. -/
def safeStem (path : Path) : List Char :=
  (Bytes.text (path.stem?.getD [])).toList.map fun c => if isIdentChar c then c else '_'

/-- The first five hexadecimal digits of the digest of `path:name`, the path as it is shown. -/
def shortHash (path : Path) (name : String) : List Char :=
  (Digest.hex (path.text ++ ":" ++ name)).toList.take 5

def nameMark : List Char := ['[', 'n', 'a', 'm', 'e', ']']
def localMark : List Char := ['[', 'l', 'o', 'c', 'a', 'l', ']']
def hashMark : List Char := ['[', 'h', 'a', 's', 'h', ']']

def scopedName (naming : Naming) (path : Path) (name : String) : String :=
  let text := replaceAll nameMark (safeStem path) naming.pattern.toList
  let text := replaceAll localMark name.toList text
  String.ofList (replaceAll hashMark (shortHash path name) text)

end Naming

end ScopedStyles
