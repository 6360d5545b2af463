import ScopedStyles.Path

/-!
# Stylesheet specifiers

A module names a stylesheet by a specifier that ends in `.sss`. `Specifier.resolve` gives the path
it stands for, `Specifier.sibling` the specifier of the processed stylesheet beside it.
-/

namespace ScopedStyles.Specifier

def suffix : List Char := ['.', 's', 's', 's']

def isStylesheet (specifier : String) : Bool := suffix.isSuffixOf specifier.toList

/-- The same specifier with `.css` in place of `.sss`; any other is left alone. -/
def sibling (specifier : String) : String :=
  let cs := specifier.toList
  if suffix.isSuffixOf cs then String.ofList (cs.take (cs.length - 4) ++ ['.', 'c', 's', 's'])
  else specifier

/-- A specifier that starts with a dot is relative to the directory of `source`; any other is taken
as it stands. -/
def resolve (specifier : String) (source : Path) : Path :=
  if specifier.toList.head? = some '.' then
    (Path.ofComponents source.parentComponents).join ⟨specifier⟩ |>.normalize
  else ⟨specifier⟩

end ScopedStyles.Specifier
