import Highlighter.Languages.Parts

/-!
# C and C++
-/

namespace Highlighter.Languages.C

/-- The keywords of C. -/
def keywords : String :=
  Text.unwords
    ["auto break case char const continue default do double else enum",
      "extern float for goto if inline int long register restrict return short signed sizeof",
      "static struct switch typedef union unsigned void volatile while _Alignas _Alignof _Atomic",
      "_Bool _Complex _Generic _Imaginary _Noreturn _Static_assert _Thread_local"]

/-- The keywords that C++ adds. -/
def moreKeywords : String :=
  Text.unwords
    ["alignas alignof and and_eq asm bitand bitor bool catch class",
      "compl concept consteval constexpr constinit const_cast co_await co_return co_yield decltype",
      "delete dynamic_cast explicit export friend mutable namespace new noexcept not not_eq",
      "operator or or_eq private protected public reinterpret_cast requires static_assert",
      "static_cast template this thread_local throw try typeid typename using virtual xor xor_eq"]

/-- The types of C. -/
def types : String :=
  Text.unwords
    ["size_t ptrdiff_t intptr_t uintptr_t int8_t int16_t int32_t int64_t",
      "uint8_t uint16_t uint32_t uint64_t FILE"]

/-- The words of the preprocessor. -/
def directives : String :=
  Text.unwords
    ["if else elif endif define undef warning error line pragma ifdef",
      "ifndef include"]

/-- A character. -/
def character : RawMode :=
  .of { scope := some "string", wholePattern := re "'(\\\\.|[^\\\\'\\n])+'" }

/-- A line for the preprocessor, which a backslash continues on the next line. -/
def directive : RawMode :=
  .of {
    scope := some "meta"
    beginPattern := re "#\\s*[a-z]+\\b"
    endPattern := re "$"
    keywords := some (Keywords.byCategory.category "keyword" directives) }
    ([simple none "\\\\\\n" (some 0), quoteString,
      .of { scope := some "string", wholePattern := re "<[^\\n>]*>" },
      slashComment, blockComment].map .own)

/-- The name of a type after the word that declares it. -/
def typeName : RawMode :=
  .of {
    scope := some "title.class"
    wholePattern := re underscoreIdentifier
    beforePattern := re "\\b(?:struct|enum|union|class)\\s+"
    keywords := some (Keywords.words "struct enum union class") }

/-- The name of a function that is called. -/
def call : RawMode :=
  .of {
    scope := some "title.function"
    wholePattern := re
      "\\b(?!(?:if|while|for|switch|return|sizeof)\\b)[a-zA-Z_]\\w*(?=\\s*\\()"
    relevance := some 0 }

/-- The top mode of C and C++. -/
def root (keywords : Keywords) : RawMode :=
  .of { keywords := some keywords, illegal := re "</" }
    ([directive, slashComment, blockComment, quoteString, character, cNumber, typeName,
      call].map .own)

/-- Keywords, types and literals by category. -/
def words (keywords types literals : String) : Keywords :=
  ((Keywords.byCategory.category "keyword" keywords).category "type" types).category
    "literal" literals

/-- The grammar of C. -/
def grammar : Grammar where
  name := "c"
  aliases := ["h"]
  root := root (words keywords types "NULL true false")

/-- The grammar of C++. Every text in C is one in C++, too, so C++ wins ties against C. -/
def plusGrammar : Grammar where
  name := "cpp"
  aliases := ["cc", "c++", "h++", "hpp", "hh", "hxx", "cxx"]
  supersetOf := some "c"
  root := root
    (words (Text.unwords [keywords, moreKeywords]) (Text.unwords [types, "string vector map"])
      "NULL nullptr true false")

end Highlighter.Languages.C
