import MarkedValues.Regex.Property

/-!
Reading the parts of a regular expression: escapes, classes in brackets, counts and flags. A reader
takes the text at hand and returns what it read with the text behind it, or nothing for text that
is no pattern.
-/
namespace MarkedValues.Regex

open Text (isDigitOf numberOf)

structure Flags where
  ignoreCase : Bool := false
  multiLine : Bool := false
  dotAll : Bool := false
  swapGreed : Bool := false
  unicode : Bool := true
  crlf : Bool := false
  verbose : Bool := false

abbrev Reader (α : Type) := List Char → Option (α × List Char)

def skipVerbose : (inComment : Bool) → List Char → List Char
  | _, [] => []
  | true, c :: cs => skipVerbose (c != '\n') cs
  | false, c :: cs =>
    if Unicode.isWhite c then skipVerbose false cs
    else if c == '#' then skipVerbose true cs
    else c :: cs

/-- In a verbose pattern, blanks and comments stand for nothing. -/
def Flags.skip (f : Flags) (cs : List Char) : List Char :=
  if f.verbose then skipVerbose false cs else cs

/-- The characters that a class takes besides when case is ignored. -/
def Flags.orbit (f : Flags) (c : Char) : List Char :=
  if f.unicode then
    if Unicode.isRecent c then [c] else (Unicode.caseOrbit c).filter (!Unicode.isRecent ·)
  else if c.isAlpha then [c.toLower, c.toUpper]
  else [c]

/-- The class closed under case, if case is ignored. -/
def Flags.fold (f : Flags) (cls : CharClass) : CharClass :=
  if f.ignoreCase then fun c => cls c || (f.orbit c).any cls else cls

def Flags.literal (f : Flags) (c : Char) : CharClass := f.fold (· == c)

/-- What an escape or a single character stands for. -/
inductive Atom where
  /-- A character; `byte` when it is given as two hexadecimal digits. -/
  | literal (c : Char) (byte : Bool)
  | cls (c : CharClass)
  | dot
  | assert (a : Assertion)

/-- The characters up to a closing brace, which is dropped too. -/
def readBraced (f : Flags) : (fuel : Nat) → Reader (List Char)
  | 0, _ => none
  | fuel + 1, cs =>
    match f.skip cs with
    | [] => none
    | '\x7d' :: rest => some ([], rest)
    | c :: rest => (readBraced f fuel rest).map fun (name, rest) => (c :: name, rest)

def readHexDigits (f : Flags) : (count : Nat) → Reader (List Char)
  | 0, cs => some ([], cs)
  | count + 1, cs =>
    match f.skip cs with
    | c :: rest =>
      if isDigitOf 16 c then
        (readHexDigits f count rest).map fun (ds, rest) => (c :: ds, rest)
      else none
    | [] => none

/-- The character of a code point; surrogates and numbers too large are none. -/
def charOf? (n : Nat) : Option Char := if n.isValidChar then some (Char.ofNat n) else none

/-- A code point in hexadecimal, of fixed width or in braces. -/
def readHex (f : Flags) (width : Nat) (cs : List Char) : Option (Atom × List Char) :=
  match f.skip cs with
  | '\x7b' :: rest => do
    let (digits, rest) ← readBraced f (rest.length + 1) rest
    if digits.isEmpty || !digits.all (isDigitOf 16) then none
    let c ← charOf? (numberOf 16 digits)
    some (.literal c false, f.skip rest)
  | rest => do
    let (digits, rest) ← readHexDigits f width rest
    let c ← charOf? (numberOf 16 digits)
    some (.literal c (width == 2), f.skip rest)

/-- A class by property: one letter, or a name in braces, with or without `gc=` in front. -/
def readProperty (f : Flags) (negated : Bool) (cs : List Char) : Option (Atom × List Char) := do
  if !f.unicode then none
  let (name, rest) ← match f.skip cs with
    | [] => none
    | '\x7b' :: rest => readBraced f (rest.length + 1) rest
    | '\\' :: _ => none
    | c :: rest => some ([c], f.skip rest)
  let key := name.takeWhile fun c => c != '=' && c != ':' && c != '!'
  let (unequal, value) := match name.drop key.length with
    | '!' :: '=' :: v => (true, v)
    | _ :: v => (false, v)
    | [] => (false, [])
  let cls ←
    if key.length == name.length then classNamed? name
    else if ["gc", "generalcategory"].contains (plainName key) then classNamed? value
    else none
  let folded := f.fold cls
  some (.cls fun c => folded c != (negated != unequal), rest)

/-- The class of `\d`, `\s` or `\w`, negated for capital letters. -/
def shorthandClass (f : Flags) (c : Char) : Option Atom :=
  let base : CharClass := match c.toLower with
    | 'd' => if f.unicode then isDecimalDigit else Char.isDigit
    | 's' => if f.unicode then Unicode.isWhite else fun c => c == ' ' || ('\t' ≤ c && c ≤ '\r')
    | _ => if f.unicode then isWord else isAsciiWord
  if c.isUpper then if f.unicode then some (.cls fun c => !base c) else none
  else some (.cls base)

/-- Punctuation with a meaning of its own. -/
def isMeta (c : Char) : Bool := "\\.+*?()|[]\x7b\x7d^$#&-~".toList.contains c

/-- Other ASCII characters that may stand behind a backslash for themselves. -/
def isEscapable (c : Char) : Bool :=
  c.toNat < 128 && !c.isAlphanum && c != '<' && c != '>'

/-- Behind `\b`: one of the special boundaries in braces. Braces that do not begin with a letter or
    dash are left for a count. -/
def readBoundary (f : Flags) (cs : List Char) : Option (Assertion × List Char) :=
  let ascii := !f.unicode
  match cs with
  | '\x7b' :: rest =>
    let isNameChar := fun (c : Char) => c.isAlpha || c == '-'
    match f.skip rest with
    | [] => none
    | c :: _ =>
      if !isNameChar c then some (.wordBoundary ascii, cs)
      else do
        let (name, rest) ← readBraced f (rest.length + 1) rest
        match String.ofList name with
        | "start" => some (.wordStart ascii, rest)
        | "end" => some (.wordEnd ascii, rest)
        | "start-half" => some (.noWordBefore ascii, rest)
        | "end-half" => some (.noWordAfter ascii, rest)
        | _ => none
  | _ => some (.wordBoundary ascii, cs)

/-- What stands behind a backslash. There are no back-references. -/
def readEscape (f : Flags) (cs : List Char) : Option (Atom × List Char) :=
  let ascii := !f.unicode
  match cs with
  | [] => none
  | c :: rest =>
    let literal := fun (c : Char) => some (Atom.literal c false, rest)
    if c.isDigit then none
    else if c == 'x' then readHex f 2 rest
    else if c == 'u' then readHex f 4 rest
    else if c == 'U' then readHex f 8 rest
    else if c == 'p' || c == 'P' then readProperty f (c == 'P') rest
    else if "dswDSW".toList.contains c then (shorthandClass f c).map fun a => (a, rest)
    else if isMeta c || isEscapable c then literal c
    else match c with
    | 'a' => literal '\x07'
    | 'f' => literal '\x0c'
    | 't' => literal '\t'
    | 'n' => literal '\n'
    | 'r' => literal '\r'
    | 'v' => literal '\x0b'
    | 'A' => some (.assert .textStart, rest)
    | 'z' => some (.assert .textEnd, rest)
    | 'b' => (readBoundary f rest).map fun (a, rest) => (.assert a, rest)
    | 'B' => some (.assert (.noWordBoundary ascii), rest)
    | '<' => some (.assert (.wordStart ascii), rest)
    | '>' => some (.assert (.wordEnd ascii), rest)
    | _ => none

def readAtom (f : Flags) : Reader Atom
  | [] => none
  | '\\' :: cs => readEscape f cs
  | '.' :: cs => some (.dot, cs)
  | '^' :: cs =>
    let a := if f.multiLine then if f.crlf then .anyLineStart else .lineStart else .textStart
    some (.assert a, cs)
  | '$' :: cs =>
    let a := if f.multiLine then if f.crlf then .anyLineEnd else .lineEnd else .textEnd
    some (.assert a, cs)
  | c :: cs => some (.literal c false, cs)

/-- The pattern of a single atom. Without Unicode nothing may match part of a character, which rules
    out bytes past ASCII and the dot. -/
def Atom.pattern? (f : Flags) : Atom → Option Pattern
  | .literal c byte =>
    if !f.unicode && byte && 128 ≤ c.toNat then none else some (.one (f.literal c))
  | .cls members => some (.one members)
  | .dot =>
    if !f.unicode then none
    else if f.dotAll then some (.one fun _ => true)
    else some (.one fun c => c != '\n' && !(f.crlf && c == '\r'))
  | .assert a => some (.assert a)

/-- One end of a range, or a class, inside brackets. -/
def readClassAtom (f : Flags) : Reader Atom
  | [] => none
  | '\\' :: cs => readEscape f cs
  | c :: cs => some (.literal c false, cs)

def Atom.classLiteral? (f : Flags) : Atom → Option Char
  | .literal c _ => if !f.unicode && 128 ≤ c.toNat then none else some c
  | _ => none

def Atom.member? (f : Flags) : Atom → Option CharClass
  | .cls members => some members
  | atom => (atom.classLiteral? f).map fun c d => c == d

/-- An atom, or a range of two with a dash between them. A dash before `]` or
    another dash is none. -/
def readRange (f : Flags) (cs : List Char) : Option (CharClass × List Char) := do
  let (low, rest) ← readClassAtom f cs
  let rest := f.skip rest
  let alone := (low.member? f).map fun cls => (cls, rest)
  match rest with
  | [] => none
  | '-' :: more =>
    match f.skip more with
    | ']' :: _ | '-' :: _ => alone
    | [] => none
    | more => do
      let (high, rest) ← readClassAtom f more
      let low ← low.classLiteral? f
      let high ← high.classLiteral? f
      if high < low then none else some (fun c => low ≤ c && c ≤ high, rest)
  | _ => alone

/-- `[:name:]` or `[:^name:]`, its bracket already taken. -/
def readAsciiClass (f : Flags) (cs : List Char) : Option (Option CharClass × List Char) :=
  match cs with
  | ':' :: cs =>
    let (negated, cs) := match cs with
      | '^' :: rest => (true, rest)
      | _ => (false, cs)
    match cs.dropWhile (· != ':') with
    | ':' :: ']' :: rest =>
      match asciiClassNamed? (cs.takeWhile (· != ':')) with
      | none => none
      | some cls =>
        if negated && !f.unicode then some (none, rest)
        else
          let folded := f.fold cls
          some (some fun c => folded c != negated, rest)
    | _ => none
  | _ => none

/-- The dashes at the start of a class, which stand for themselves. -/
def readDashes (f : Flags) : (fuel : Nat) → (found : Bool) → List Char → Bool × List Char
  | 0, found, cs => (found, cs)
  | fuel + 1, found, cs =>
    match cs with
    | '-' :: rest => readDashes f fuel true (f.skip rest)
    | _ => (found, cs)

/-- The start of a class behind its bracket: whether it is negated, and what stands for itself
    there, a dash or else a closing bracket. -/
def readClassStart (f : Flags) (cs : List Char) : (Bool × CharClass) × List Char :=
  let (negated, cs) := match f.skip cs with
    | '^' :: rest => (true, f.skip rest)
    | cs => (false, cs)
  let (dashes, cs) := readDashes f cs.length false cs
  match dashes, cs with
  | false, ']' :: rest => ((negated, (· == ']')), f.skip rest)
  | _, _ => ((negated, fun c => dashes && c == '-'), cs)

/-- An open class: the members read since the last operator, and what to do with them. -/
structure OpenClass where
  negated : Bool
  members : CharClass
  combine : CharClass → CharClass

def OpenClass.add (o : OpenClass) (cls : CharClass) : OpenClass :=
  { o with members := fun c => o.members c || cls c }

/-- Goes on to the right side of an operator. Operators are taken from left to right. -/
def OpenClass.operator (o : OpenClass) (f : Flags) (op : Bool → Bool → Bool) : OpenClass :=
  let left := f.fold (o.combine o.members)
  { o with
    members := fun _ => false
    combine := fun right =>
      let right := f.fold right
      fun c => op (left c) (right c) }

/-- The class once its bracket is closed. Without Unicode a class cannot be negated. -/
def OpenClass.close? (o : OpenClass) (f : Flags) : Option CharClass :=
  let cls := f.fold (o.combine o.members)
  if o.negated then if f.unicode then some fun c => !cls c else none else some cls

def openClass (f : Flags) (cs : List Char) : OpenClass × List Char :=
  let ((negated, members), rest) := readClassStart f cs
  (⟨negated, members, id⟩, rest)

/-- The rest of a class; `outer` are the classes around it. Each round takes at least one
    character. -/
def readClassRest (f : Flags) :
    (fuel : Nat) → OpenClass → (outer : List OpenClass) → Reader CharClass
  | 0, _, _, _ => none
  | fuel + 1, o, outer, cs =>
    match f.skip cs with
    | [] => none
    | '[' :: rest =>
      match readAsciiClass f rest with
      | some (none, _) => none
      | some (some cls, rest) => readClassRest f fuel (o.add cls) outer rest
      | none =>
        let (inner, rest) := openClass f rest
        readClassRest f fuel inner (o :: outer) rest
    | ']' :: rest =>
      match o.close? f, outer with
      | none, _ => none
      | some cls, [] => some (cls, rest)
      | some cls, p :: outer => readClassRest f fuel (p.add cls) outer rest
    | '&' :: '&' :: rest => readClassRest f fuel (o.operator f (· && ·)) outer rest
    | '-' :: '-' :: rest => readClassRest f fuel (o.operator f fun a b => a && !b) outer rest
    | '~' :: '~' :: rest => readClassRest f fuel (o.operator f (· != ·)) outer rest
    | cs =>
      match readRange f cs with
      | none => none
      | some (cls, rest) => readClassRest f fuel (o.add cls) outer rest

def readClass (f : Flags) (cs : List Char) : Option (CharClass × List Char) :=
  let (o, rest) := openClass f cs
  readClassRest f (cs.length + 1) o [] rest

/-- The digits at the start, with what stands for nothing between them. -/
def readDigits (f : Flags) : (fuel : Nat) → List Char → List Char × List Char
  | 0, cs => ([], cs)
  | fuel + 1, cs =>
    match cs with
    | c :: rest =>
      if c.isDigit then
        let (ds, rest) := readDigits f fuel (f.skip rest)
        (c :: ds, rest)
      else ([], cs)
    | [] => ([], [])

/-- A decimal number below 2^32 with blanks around it; nothing inside when there are no digits. -/
def readCount (f : Flags) (cs : List Char) : Option (Option Nat × List Char) :=
  let (digits, rest) := readDigits f cs.length (cs.dropWhile Unicode.isWhite)
  let rest := f.skip (rest.dropWhile Unicode.isWhite)
  let n := numberOf 10 digits
  if digits.isEmpty then some (none, rest)
  else if n < UInt32.size then some (some n, rest)
  else none

def readBounds (f : Flags) (cs : List Char) : Option ((Nat × Option Nat) × List Char) := do
  let (low, rest) ← readCount f (f.skip cs)
  let low ← low
  match rest with
  | '\x7d' :: rest => some ((low, some low), rest)
  | ',' :: rest =>
    match f.skip rest with
    | '\x7d' :: rest => some ((low, none), rest)
    | rest =>
      let (high, rest) ← readCount f rest
      let high ← high
      match rest with
      | '\x7d' :: rest => if high < low then none else some ((low, some high), rest)
      | _ => none
  | _ => none

def Flags.set? (f : Flags) (letter : Char) (on : Bool) : Option Flags :=
  match letter with
  | 'i' => some { f with ignoreCase := on }
  | 'm' => some { f with multiLine := on }
  | 's' => some { f with dotAll := on }
  | 'U' => some { f with swapGreed := on }
  | 'u' => some { f with unicode := on }
  | 'R' => some { f with crlf := on }
  | 'x' => some { f with verbose := on }
  | _ => none

/-- Flag letters up to a colon or closing parenthesis, which is left. Each letter and the dash may
    stand once, and the dash not last. -/
def readFlags (f : Flags) (seen : List Char) : Reader (Flags × Bool)
  | [] => none
  | c :: cs =>
    if c == ':' || c == ')' then
      if seen.head? == some '-' then none else some ((f, !seen.isEmpty), c :: cs)
    else if seen.contains c then none
    else if c == '-' then readFlags f (c :: seen) cs
    else match f.set? c (!seen.contains '-') with
    | none => none
    | some g => readFlags g (c :: seen) cs

def readName (cs : List Char) : Option (String × List Char) :=
  let name := cs.takeWhile (· != '>')
  let isNameChar := fun (c : Char) =>
    c == '_' || c == '.' || c == '[' || c == ']' || Unicode.isAlphanumeric c
  match name, cs.drop name.length with
  | c :: more, _ :: rest =>
    if (c == '_' || Unicode.isAlphabetic c) && more.all isNameChar then
      some (String.ofList name, rest)
    else none
  | _, _ => none

end MarkedValues.Regex
