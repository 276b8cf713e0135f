/-!
# Identifiers

Names of exchanges and fields become names in generated programs. This module says which names are
identifiers, how they change between snake case and camel case, and which of them a generated
program cannot use.
-/

namespace SerialContract

/-- Characters that start an identifier. -/
def isIdentifierStart (c : Char) : Bool :=
  c.isAlpha || c == '_'

/-- Characters that continue an identifier. -/
def isIdentifierPart (c : Char) : Bool :=
  c.isAlphanum || c == '_'

/-- Whether the characters are a letter or underscore and then letters, digits and underscores. -/
def isIdentifierSpelling : List Char → Bool
  | [] => false
  | c :: rest => isIdentifierStart c && rest.all isIdentifierPart

/-- Whether a name is an identifier. -/
def isIdentifier (name : String) : Bool :=
  isIdentifierSpelling name.toList

/-- Whether a new word starts at `c`: a capital after a small letter or a digit. -/
def startsWord (before : Option Char) (c : Char) : Bool :=
  c.isUpper && before.any fun p => p.isLower || p.isDigit

/-- Snake case of the characters after `before`. -/
def snakeFrom (before : Option Char) : List Char → List Char
  | [] => []
  | c :: rest =>
    let lowered := c.toLower :: snakeFrom (some c) rest
    if startsWord before c then '_' :: lowered else lowered

/-- Small letters throughout, with an underscore in front of each capital that starts a word. -/
def snakeCase (name : String) : String :=
  String.ofList (snakeFrom none name.toList)

/-- Camel case of snake-case characters; `raise` says that an underscore has just been left out. -/
def joinFrom (raise : Bool) : List Char → List Char
  | [] => []
  | c :: rest =>
    if c = '_' then joinFrom true rest
    else (if raise then c.toUpper else c) :: joinFrom false rest

/-- Camel case of snake-case characters: an underscore at the front stays. -/
def camelSpelling : List Char → List Char
  | [] => []
  | c :: rest => c :: joinFrom false rest

/-- The words of a name without underscores between them, each but the first with a capital. -/
def camelCase (name : String) : String :=
  String.ofList (camelSpelling (snakeFrom none name.toList))

/-- The words that the firmware's language keeps for itself. -/
def cppKeywords : List String := [
  "alignas", "alignof", "and", "and_eq", "asm", "auto", "bitand", "bitor", "bool", "break",
  "case", "catch", "char", "char8_t", "char16_t", "char32_t", "class", "compl", "concept",
  "const", "consteval", "constexpr", "constinit", "const_cast", "continue", "co_await",
  "co_return", "co_yield", "decltype", "default", "delete", "do", "double", "dynamic_cast",
  "else", "enum", "explicit", "export", "extern", "false", "float", "for", "friend", "goto",
  "if", "inline", "int", "long", "mutable", "namespace", "new", "noexcept", "not", "not_eq",
  "nullptr", "operator", "or", "or_eq", "private", "protected", "public", "register",
  "reinterpret_cast", "requires", "return", "short", "signed", "sizeof", "static",
  "static_assert", "static_cast", "struct", "switch", "template", "this", "thread_local",
  "throw", "true", "try", "typedef", "typeid", "typename", "union", "unsigned", "using",
  "virtual", "void", "volatile", "wchar_t", "while", "xor", "xor_eq"]

/-- The words that the host's language keeps for itself but admits when marked as raw. -/
def rustKeywords : List String := [
  "as", "async", "await", "break", "const", "continue", "dyn", "else", "enum", "extern",
  "false", "fn", "for", "if", "impl", "in", "let", "loop", "match", "mod", "move", "mut", "pub",
  "ref", "return", "static", "struct", "trait", "true", "type", "unsafe", "use", "where",
  "while", "abstract", "become", "box", "do", "final", "macro", "override", "priv", "try",
  "typeof", "unsized", "virtual", "yield"]

/-- The words of the host's language that cannot be names even when marked as raw. -/
def rustUnmarkable : List String := ["_", "self", "Self", "super", "crate"]

/-- The variables that every generated firmware wrapper declares. -/
def wrapperVariables : List String := ["parsed", "result_"]

/-- The exchanges that every device answers: a ping, and the report of an error. -/
def builtInExchangeNames : List String := ["Ping", "Error"]

/-- Whether generated programs cannot have a field of this name. -/
def isReservedFieldName (name : String) : Bool :=
  cppKeywords.contains name || rustUnmarkable.contains name || wrapperVariables.contains name

/-- Whether generated programs cannot have an exchange of this name. -/
def isReservedExchangeName (name : String) : Bool :=
  (builtInExchangeNames.map snakeCase).contains (snakeCase name) ||
    cppKeywords.contains (snakeCase name)

/-- A name as the host's language writes it: its keywords are marked as raw. -/
def rustIdentifier (name : String) : String :=
  if rustKeywords.contains name then "r#" ++ name else name

end SerialContract
