import Tinct.ThemeLibrary

/-! # Built-in themes -/

namespace Tinct

namespace Theme

/-- A theme with a background color and descriptions by key. -/
def declare (name background : String) (styles : List (String × String)) : Theme :=
  ⟨name, some background, .ofList (styles.map fun (key, text) => (.ofKey key, text))⟩

/-- The theme that is used by default. -/
def standard : Theme :=
  declare "default" "#f8f8f8"
    [("Token", ""),
     ("Text.Whitespace", "#bbbbbb"),
     ("Comment", "italic #3D7B7B"),
     ("Comment.Preproc", "noitalic #9C6500"),
     ("Keyword", "bold #008000"),
     ("Keyword.Pseudo", "nobold"),
     ("Keyword.Type", "nobold #B00040"),
     ("Operator", "#666666"),
     ("Operator.Word", "bold #AA22FF"),
     ("Name.Builtin", "#008000"),
     ("Name.Function", "#0000FF"),
     ("Name.Class", "bold #0000FF"),
     ("Name.Namespace", "bold #0000FF"),
     ("Name.Exception", "bold #CB3F38"),
     ("Name.Variable", "#19177C"),
     ("Name.Constant", "#880000"),
     ("Name.Label", "#767600"),
     ("Name.Entity", "bold #717171"),
     ("Name.Attribute", "#687822"),
     ("Name.Tag", "bold #008000"),
     ("Name.Decorator", "#AA22FF"),
     ("Literal.String", "#BA2121"),
     ("Literal.String.Doc", "italic"),
     ("Literal.String.Interpol", "bold #A45A77"),
     ("Literal.String.Escape", "bold #AA5D1F"),
     ("Literal.String.Regex", "#A45A77"),
     ("Literal.String.Symbol", "#19177C"),
     ("Literal.String.Other", "#008000"),
     ("Literal.Number", "#666666"),
     ("Generic.Heading", "bold #000080"),
     ("Generic.Subheading", "bold #800080"),
     ("Generic.Deleted", "#A00000"),
     ("Generic.Inserted", "#008400"),
     ("Generic.Error", "#E40000"),
     ("Generic.Emph", "italic"),
     ("Generic.Strong", "bold"),
     ("Generic.EmphStrong", "bold italic"),
     ("Generic.Prompt", "bold #000080"),
     ("Generic.Output", "#717171"),
     ("Generic.Traceback", "#04D"),
     ("Error", "border:#FF0000")]

/-- A theme with bright colors on a dark background. -/
def monokai : Theme :=
  declare "monokai" "#272822"
    [("Token", "#f8f8f2"),
     ("Text.Whitespace", ""),
     ("Error", "#ed007e bg:#1e0010"),
     ("Comment", "#959077"),
     ("Comment.Multiline", ""),
     ("Comment.Preproc", ""),
     ("Comment.Single", ""),
     ("Comment.Special", ""),
     ("Keyword", "#66d9ef"),
     ("Keyword.Constant", ""),
     ("Keyword.Declaration", ""),
     ("Keyword.Namespace", "#ff4689"),
     ("Keyword.Pseudo", ""),
     ("Keyword.Reserved", ""),
     ("Keyword.Type", ""),
     ("Operator", "#ff4689"),
     ("Operator.Word", ""),
     ("Punctuation", "#f8f8f2"),
     ("Name", "#f8f8f2"),
     ("Name.Attribute", "#a6e22e"),
     ("Name.Builtin", ""),
     ("Name.Builtin.Pseudo", ""),
     ("Name.Class", "#a6e22e"),
     ("Name.Constant", "#66d9ef"),
     ("Name.Decorator", "#a6e22e"),
     ("Name.Exception", "#a6e22e"),
     ("Name.Function", "#a6e22e"),
     ("Name.Namespace", ""),
     ("Name.Other", "#a6e22e"),
     ("Name.Tag", "#ff4689"),
     ("Name.Variable", ""),
     ("Literal", "#ae81ff"),
     ("Literal.Date", "#e6db74"),
     ("Literal.String", "#e6db74"),
     ("Literal.String.Doc", ""),
     ("Literal.String.Escape", "#ae81ff"),
     ("Literal.Number", "#ae81ff"),
     ("Generic.Deleted", "#ff4689"),
     ("Generic.Emph", "italic"),
     ("Generic.Inserted", "#a6e22e"),
     ("Generic.Output", "#66d9ef"),
     ("Generic.Prompt", "bold #ff4689"),
     ("Generic.Strong", "bold"),
     ("Generic.EmphStrong", "bold italic"),
     ("Generic.Subheading", "#959077"),
     ("Generic.Heading", "")]

/-- A theme without colors. -/
def blackAndWhite : Theme :=
  declare "bw" "#ffffff"
    [("Comment", "italic"),
     ("Comment.Preproc", "noitalic"),
     ("Keyword", "bold"),
     ("Keyword.Pseudo", "nobold"),
     ("Keyword.Type", "nobold"),
     ("Operator.Word", "bold"),
     ("Name.Class", "bold"),
     ("Name.Namespace", "bold"),
     ("Name.Exception", "bold"),
     ("Name.Entity", "bold"),
     ("Name.Tag", "bold"),
     ("Literal.String", "italic"),
     ("Literal.String.Interpol", "bold"),
     ("Literal.String.Escape", "bold"),
     ("Generic.Heading", "bold"),
     ("Generic.Subheading", "bold"),
     ("Generic.Emph", "italic"),
     ("Generic.Strong", "bold"),
     ("Generic.EmphStrong", "bold italic"),
     ("Generic.Prompt", "bold"),
     ("Error", "border:#FF0000")]

end Theme

/-- The collection of the built-in themes. -/
def ThemeLibrary.builtin : ThemeLibrary :=
  [Theme.standard, Theme.monokai, Theme.blackAndWhite].foldl ThemeLibrary.register .empty

end Tinct
