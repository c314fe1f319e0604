import FleetManagement.Library.Regex

/-!
# Masking and redacting text

`fleet_management.privacy.sanitizer` on texts. What `re` takes from the Unicode tables beyond ASCII is a
parameter.
-/

namespace FleetManagement

abbrev Text := List Char

/-- The white space of ASCII, as `str.isspace` has it. -/
def asciiSpaces : Text := ['\t', '\n', '\x0b', '\x0c', '\r', '\x1c', '\x1d', '\x1e', '\x1f', ' ']

/-- The character classes and the comparison without case of `re`. -/
structure CharTables where
  isDigit : Char → Bool
  isWord : Char → Bool
  isSpace : Char → Bool
  sameCase : Char → Char → Bool
  digit_ascii : ∀ c : Char, c.toNat < 128 → isDigit c = c.isDigit
  word_ascii : ∀ c : Char, c.toNat < 128 → isWord c = (c.isAlphanum || c == '_')
  space_ascii : ∀ c : Char, c.toNat < 128 → isSpace c = asciiSpaces.contains c
  sameCase_ascii : ∀ a c : Char, a.toNat < 128 → c.toNat < 128 →
    sameCase a c = (a.toLower == c.toLower)
  word_of_digit : ∀ c, isDigit c → isWord c
  not_space_of_word : ∀ c, isWord c → isSpace c = false

/-! ## Patterns -/

def chars (s : String) : Regex Char := .one fun c => s.toList.contains c

def literal (s : String) : Regex Char := .chain (s.toList.map fun a => .one fun c => c == a)

/-- Any character but a line break. -/
def dot : Regex Char := .one fun c => c != '\n'

def isLetter (c : Char) : Bool := c.isAlpha

section Patterns
variable (t : CharTables)

/-- `\d` -/
def digit : Regex Char := .one t.isDigit

/-- `\s` -/
def space : Regex Char := .one t.isSpace

/-- A literal under `re.IGNORECASE`. -/
def anyCase (s : String) : Regex Char := .chain (s.toList.map fun a => .one fun c => t.sameCase a c)

/-- A letter of `[A-Za-z]` under `re.IGNORECASE`. -/
def anyCaseLetter (c : Char) : Bool := "abcdefghijklmnopqrstuvwxyz".toList.any fun a => t.sameCase a c

/-- `\b` -/
def wordBoundary : Regex Char := .assert fun prev next => prev.any t.isWord != next.any t.isWord

/-- `[\w-]*` -/
def keyChars : Regex Char := .star (.one fun c => t.isWord c || c == '-')

/-- `[\w-]*(?:password|passwd|pwd|token|api[_-]?key|secret|authorization|credential)[\w-]*` -/
def secretKeyRe : Regex Char :=
  .chain [keyChars t,
    .anyOf (anyCase t "password") [anyCase t "passwd", anyCase t "pwd", anyCase t "token",
      .chain [anyCase t "api", .opt (chars "_-"), anyCase t "key"], anyCase t "secret",
      anyCase t "authorization", anyCase t "credential"],
    keyChars t]

/-- `["']?\s*[:=]\s*` -/
def separator : Regex Char :=
  .chain [.opt (chars "\"'"), .star (space t), chars ":=", .star (space t)]

/-- `"[^"]*"|'[^']*'|(?:(?:Bearer|Basic)\s+)?[^\s,;}&\]]+` -/
def secretValue : Regex Char :=
  .anyOf (.chain [chars "\"", .star (.one fun c => c != '"'), chars "\""])
    [.chain [chars "'", .star (.one fun c => c != '\''), chars "'"],
      .chain [.opt (.seq (.anyOf (anyCase t "bearer") [anyCase t "basic"]) (.plus (space t))),
        .plus (.one fun c => !(t.isSpace c || ",;\x7d&]".toList.contains c))]]

def secretKvRe : Regex Char :=
  .chain [.group "key" (secretKeyRe t), .group "sep" (separator t), .group "val" (secretValue t)]

def nameKvRe : Regex Char :=
  .chain [
    .group "key" (.chain [.opt (chars "\"'"),
      .anyOf (anyCase t "full_name")
        [anyCase t "first_name", anyCase t "last_name", anyCase t "license_number"],
      separator t]),
    .group "q" (chars "\"'"), .group "val" (.rep dot 0 none false), .backref "q"]

/-- `\bBearer\s+[A-Za-z0-9._~+/=-]+` -/
def bearerRe : Regex Char :=
  .chain [wordBoundary t, anyCase t "bearer", .plus (space t),
    .plus (.one fun c => anyCaseLetter t c || c.isDigit || "._~+/=-".toList.contains c)]

/-- `[A-Za-z0-9_-]` -/
def base64Url (c : Char) : Bool := isLetter c || c.isDigit || c == '_' || c == '-'

/-- `\beyJ[A-Za-z0-9_-]+\.[A-Za-z0-9_-]+\.[A-Za-z0-9_-]*` -/
def jwtRe : Regex Char :=
  .chain [wordBoundary t, literal "eyJ", .plus (.one base64Url), literal ".", .plus (.one base64Url),
    literal ".", .star (.one base64Url)]

/-- `\$argon2[\w$=,+/.-]+` -/
def hashRe : Regex Char :=
  .chain [literal "$argon2", .plus (.one fun c => t.isWord c || "$=,+/.-".toList.contains c)]

/-- `[A-Za-z0-9._%+-]` -/
def isLocal (c : Char) : Bool := isLetter c || c.isDigit || "._%+-".toList.contains c

/-- `[A-Za-z0-9-]` -/
def isLabel (c : Char) : Bool := isLetter c || c.isDigit || c == '-'

/-- `[A-Za-z0-9-]+(?:\.[A-Za-z0-9-]+)+` -/
def domainRe : Regex Char :=
  .seq (.plus (.one isLabel)) (.plus (.seq (literal ".") (.plus (.one isLabel))))

/-- `([A-Za-z0-9._%+-])[A-Za-z0-9._%+-]*@([A-Za-z0-9-]+(?:\.[A-Za-z0-9-]+)+)` -/
def emailRe : Regex Char :=
  .chain [.group "1" (.one isLocal), .star (.one isLocal), literal "@", .group "2" domainRe]

/-- `(?<![\w+])\+?\d(?:[\s().-]?\d){8,14}(?!\w)` -/
def phoneRe : Regex Char :=
  .chain [.assert fun prev _ => !prev.any fun c => t.isWord c || c == '+',
    .opt (literal "+"), digit t,
    .rep (.seq (.opt (.one fun c => t.isSpace c || "().-".toList.contains c)) (digit t)) 8 (some 14) true,
    .assert fun _ next => !next.any t.isWord]

/-- `\d{4}-\d{2}-\d{2}` -/
def isoDateRe : Regex Char :=
  .chain [.rep (digit t) 4 (some 4) true, literal "-", .rep (digit t) 2 (some 2) true, literal "-",
    .rep (digit t) 2 (some 2) true]

end Patterns

/-! ## Masking -/

def redacted : Text := "[REDACTED]".toList

def maskEmail (email : Text) : Text :=
  emailRe.sub (fun m => m.group "1" ++ "***@".toList ++ m.group "2") email

section Masking
variable (t : CharTables)

def maskPhoneMatch (m : Regex.Match Char) : Text :=
  let raw := m.text
  if (isoDateRe t).matchesAt raw then raw
  else
    let digits := raw.filter t.isDigit
    let plus : Text := if raw.head? = some '+' then ['+'] else []
    plus ++ "***".toList ++ digits.drop (digits.length - 2)

def maskPhone (text : Text) : Text := (phoneRe t).sub (maskPhoneMatch t) text

def maskName (value : Text) : Text :=
  match value with
  | c :: _ => c :: "***".toList
  | [] => []

def redactSecretKv (m : Regex.Match Char) : Text :=
  let quote := ((m.group "val").take 1).filter fun c => c = '"' || c = '\''
  m.group "key" ++ m.group "sep" ++ quote ++ redacted ++ quote

def maskNameKv (m : Regex.Match Char) : Text :=
  let q := m.group "q"
  m.group "key" ++ q ++ maskName (m.group "val") ++ q

/-- The passes that come before the masking of addresses and phone numbers. -/
def redactText (text : Text) : Text :=
  let text := (secretKvRe t).sub redactSecretKv text
  let text := (bearerRe t).sub (fun _ => "Bearer ".toList ++ redacted) text
  let text := (jwtRe t).sub (fun _ => redacted) text
  let text := hashRe t |>.sub (fun _ => redacted) text
  (nameKvRe t).sub maskNameKv text

def sanitizeText (text : Text) : Text := maskPhone t (maskEmail (redactText t text))

end Masking

/-! ## The tables of ASCII -/

theorem not_asciiSpace_of_word (c : Char) (h : (c.isAlphanum || c == '_') = true) :
    asciiSpaces.contains c = false := by
  have hspaces : ∀ d ∈ asciiSpaces, (d.isAlphanum || d == '_') = false := by decide
  refine Bool.eq_false_iff.mpr fun hc => ?_
  have hword := hspaces c (List.contains_iff_mem.mp hc)
  rw [h] at hword
  cases hword

theorem asciiWord_of_digit (c : Char) (h : c.isDigit = true) : (c.isAlphanum || c == '_') = true := by
  simp [Char.isAlphanum, h]

def asciiTables : CharTables where
  isDigit := Char.isDigit
  isWord c := c.isAlphanum || c == '_'
  isSpace c := asciiSpaces.contains c
  sameCase a c := a.toLower == c.toLower
  digit_ascii _ _ := rfl
  word_ascii _ _ := rfl
  space_ascii _ _ := rfl
  sameCase_ascii _ _ _ _ := rfl
  word_of_digit := asciiWord_of_digit
  not_space_of_word := not_asciiSpace_of_word

end FleetManagement
