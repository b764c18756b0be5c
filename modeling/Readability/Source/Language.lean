import Readability.Source.Path

/-!
The languages whose source can be rated, and how a file's name tells its language.
-/

namespace Readability.Source

/-- A language with a grammar. -/
inductive Language where
  | rust
  | python
  | java
  | javaScript
  | typeScript
  | tsx
  | go
  | c
  | cpp
  | cSharp
deriving Repr, DecidableEq, Inhabited

namespace Language

/-- All languages. -/
def all : List Language :=
  [rust, python, java, javaScript, typeScript, tsx, go, c, cpp, cSharp]

/-- The name shown to readers. -/
def name : Language → String
  | rust => "Rust"
  | python => "Python"
  | java => "Java"
  | javaScript => "JavaScript"
  | typeScript => "TypeScript"
  | tsx => "TSX"
  | go => "Go"
  | c => "C"
  | cpp => "C++"
  | cSharp => "C#"

/-- The name used in documents. -/
def tag : Language → String
  | rust => "rust"
  | python => "python"
  | java => "java"
  | javaScript => "javascript"
  | typeScript => "typescript"
  | tsx => "tsx"
  | go => "go"
  | c => "c"
  | cpp => "cpp"
  | cSharp => "csharp"

/-- The endings of a language's files. -/
def extensions : Language → List String
  | rust => ["rs"]
  | python => ["py", "pyi"]
  | java => ["java"]
  | javaScript => ["js", "jsx", "mjs", "cjs"]
  | typeScript => ["ts", "mts", "cts"]
  | tsx => ["tsx"]
  | go => ["go"]
  | c => ["c", "h"]
  | cpp => ["cpp", "cc", "cxx", "c++", "hpp", "hh", "hxx", "h++"]
  | cSharp => ["cs"]

/-- The language of files with that ending, written in small letters. -/
def ofExtension? (extension : String) : Option Language :=
  all.find? fun language => language.extensions.contains extension

/-- The language of a path, its ending read without regard to case. -/
def ofPath? (path : String) : Option Language :=
  (Path.extension? path).bind fun extension =>
    ofExtension? (String.ofList (extension.toList.map Char.toLower))

/-- The language with that shown name. -/
def ofName? (name : String) : Option Language :=
  all.find? fun language => language.name == name

end Language

end Readability.Source
