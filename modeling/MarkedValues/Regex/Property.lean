import MarkedValues.Regex.Pattern

/-!
Character properties that a pattern can name, as `\pL` or with a name in braces. Case, blanks,
dashes, underscores and a leading `is` do not count in names.
-/
namespace MarkedValues.Regex

open Unicode (Category)

def categoriesNamed : List (List String × (Category → Bool)) :=
  [(["l", "letter"], Category.isLetter),
   (["lc", "casedletter"], fun c => c matches .Lu | .Ll | .Lt),
   (["lu", "uppercaseletter"], (· == .Lu)), (["ll", "lowercaseletter"], (· == .Ll)),
   (["lt", "titlecaseletter"], (· == .Lt)), (["lm", "modifierletter"], (· == .Lm)),
   (["lo", "otherletter"], (· == .Lo)),
   (["m", "mark", "combiningmark"], Category.isMark),
   (["mn", "nonspacingmark"], (· == .Mn)), (["mc", "spacingmark"], (· == .Mc)),
   (["me", "enclosingmark"], (· == .Me)),
   (["n", "number"], Category.isNumber),
   (["nd", "decimalnumber", "digit"], (· == .Nd)), (["nl", "letternumber"], (· == .Nl)),
   (["no", "othernumber"], (· == .No)),
   (["p", "punctuation", "punct"], Category.isPunctuation),
   (["pc", "connectorpunctuation"], (· == .Pc)), (["pd", "dashpunctuation"], (· == .Pd)),
   (["ps", "openpunctuation"], (· == .Ps)), (["pe", "closepunctuation"], (· == .Pe)),
   (["pi", "initialpunctuation"], (· == .Pi)), (["pf", "finalpunctuation"], (· == .Pf)),
   (["po", "otherpunctuation"], (· == .Po)),
   (["s", "symbol"], Category.isSymbol),
   (["sm", "mathsymbol"], (· == .Sm)), (["sc", "currencysymbol"], (· == .Sc)),
   (["sk", "modifiersymbol"], (· == .Sk)), (["so", "othersymbol"], (· == .So)),
   (["z", "separator"], Category.isSeparator),
   (["zs", "spaceseparator"], (· == .Zs)), (["zl", "lineseparator"], (· == .Zl)),
   (["zp", "paragraphseparator"], (· == .Zp)),
   (["c", "other"], Category.isOther),
   (["cc", "control", "cntrl"], (· == .Cc)), (["cf", "format"], (· == .Cf)),
   (["cs", "surrogate"], (· == .Cs)), (["co", "privateuse"], (· == .Co)),
   (["cn", "unassigned"], (· == .Cn)), (["assigned"], (· != .Cn))]

def classesNamed : List (List String × CharClass) :=
  [(["any"], fun _ => true), (["ascii"], fun c => c.toNat < 128),
   (["alphabetic", "alpha"], established Unicode.isAlphabetic),
   (["whitespace", "wspace", "space"], Unicode.isWhite),
   (["cased"], established Unicode.isCased),
   (["caseignorable", "ci"], established Unicode.isCaseIgnorable),
   (["graphemeextend", "grext"], established Unicode.isGraphemeExtend)]

/-- A name as it is compared. -/
def plainName (name : List Char) : String :=
  let kept := (name.filter fun c => !(Unicode.isWhite c || c == '-' || c == '_')).map Char.toLower
  let short := match kept with
    | 'i' :: 's' :: rest => if rest.isEmpty || rest == ['c'] then kept else rest
    | _ => kept
  String.ofList short

def classNamed? (name : List Char) : Option CharClass :=
  let key := plainName name
  let category := categoriesNamed.findSome? fun (names, test) =>
    if names.contains key then some (fun c => test (Unicode.earlierCategory c)) else none
  category.or <| classesNamed.findSome? fun (names, test) =>
    if names.contains key then some test else none

def asciiClassNamed? (name : List Char) : Option CharClass :=
  let range := fun (low high : Char) (c : Char) => low ≤ c && c ≤ high
  match String.ofList name with
  | "alnum" => some Char.isAlphanum
  | "alpha" => some Char.isAlpha
  | "ascii" => some (range '\x00' '\x7f')
  | "blank" => some fun c => c == ' ' || c == '\t'
  | "cntrl" => some fun c => c < ' ' || c == '\x7f'
  | "digit" => some Char.isDigit
  | "graph" => some (range '!' '~')
  | "lower" => some Char.isLower
  | "print" => some (range ' ' '~')
  | "punct" => some fun c => range '!' '~' c && !c.isAlphanum
  | "space" => some fun c => c == ' ' || range '\t' '\r' c
  | "upper" => some Char.isUpper
  | "word" => some isAsciiWord
  | "xdigit" => some fun c => c.isDigit || range 'a' 'f' c || range 'A' 'F' c
  | _ => none

end MarkedValues.Regex
