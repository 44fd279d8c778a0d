import CommentMarkdown.Content

/-!
# Hovers

A hover shows what a declaration is and, if there is any, its documentation. The
declaration comes first: as a block of code in its language, or, for a type,
under the name of its package.
-/

namespace CommentMarkdown.Hover

/-- The language of a block of code when none is given. -/
def defaultLanguage : Text := "java".toList

/-- Documentation below a rule, or nothing if there is none. -/
def below (docs : Text) : Text :=
  if docs.isEmpty then [] else "\n\n---\n\n".toList ++ docs

/-- The signature as a block of code, then the documentation. -/
def compose (signature docs language : Text) : Content :=
  .markdown ("\x60\x60\x60".toList ++ language ++ '\n' :: signature ++ "\n\x60\x60\x60".toList ++
    below docs)

/-- What stands in front of the last dot of a qualified name; nothing if it has no dot. -/
def packageName (qualifiedName : Text) : Text :=
  ((qualifiedName.reverse.dropWhile (· ≠ '.')).drop 1).reverse

/-- The package that a type without a package name is said to be in. -/
def defaultPackage : Text := "(default package)".toList

/-- The package in bold, the signature, then the documentation. -/
def composeType (qualifiedName signature docs : Text) : Content :=
  let package := packageName qualifiedName
  .markdown ("**".toList ++ (if package.isEmpty then defaultPackage else package) ++
    "**\n".toList ++ signature ++ below docs)

end CommentMarkdown.Hover
