import FleetManagement.Library.Texts

/-!
# JSON texts

JSON values and the text that an encoder makes of them, with the escapes of strings.
-/

inductive Json where
  | null
  | bool (b : Bool)
  | int (n : Int)
  /-- A float, as the language writes it. -/
  | float (repr : List Char)
  | str (s : List Char)
  | arr (items : List Json)
  | obj (members : List (List Char × Json))

namespace Json

def hex4 (n : Nat) : List Char :=
  [(n / 4096 % 16).digitChar, (n / 256 % 16).digitChar, (n / 16 % 16).digitChar, (n % 16).digitChar]

/-- `\uXXXX`, or two of them for a character beyond the basic plane. -/
def unicodeEscape (c : Char) : List Char :=
  if c.toNat < 0x10000 then "\\u".toList ++ hex4 c.toNat
  else "\\u".toList ++ hex4 (0xd800 + (c.toNat - 0x10000) / 0x400) ++
    "\\u".toList ++ hex4 (0xdc00 + (c.toNat - 0x10000) % 0x400)

/-- What stands for a character in a string; `ascii` asks for an escape of everything beyond ASCII. -/
def escape (ascii : Bool) (c : Char) : List Char :=
  if c = '"' then "\\\"".toList
  else if c = '\\' then "\\\\".toList
  else if c = '\n' then "\\n".toList
  else if c = '\r' then "\\r".toList
  else if c = '\t' then "\\t".toList
  else if c = '\x0c' then "\\f".toList
  else if c = '\x08' then "\\b".toList
  else if c.toNat < 32 ∨ (ascii = true ∧ 126 < c.toNat) then unicodeEscape c
  else [c]

def quote (ascii : Bool) (s : List Char) : List Char := '"' :: (s.flatMap (escape ascii) ++ ['"'])

mutual
/-- `json.dumps` -/
def dumps (ascii : Bool) : Json → List Char
  | .null => "null".toList
  | .bool b => if b then "true".toList else "false".toList
  | .int n => (toString n).toList
  | .float repr => repr
  | .str s => quote ascii s
  | .arr items => '[' :: (dumpsItems ascii items ++ [']'])
  | .obj members => '\x7b' :: (dumpsMembers ascii members ++ ['\x7d'])

def dumpsItems (ascii : Bool) : List Json → List Char
  | [] => []
  | [x] => dumps ascii x
  | x :: xs => dumps ascii x ++ (", ".toList ++ dumpsItems ascii xs)

def dumpsMembers (ascii : Bool) : List (List Char × Json) → List Char
  | [] => []
  | [(k, x)] => quote ascii k ++ (": ".toList ++ dumps ascii x)
  | (k, x) :: ms => quote ascii k ++ (": ".toList ++ dumps ascii x) ++ (", ".toList ++ dumpsMembers ascii ms)
end

/-! ## Characters of a quoted string -/

/-- The characters of a hexadecimal number. -/
def isHexDigit (c : Char) : Bool := "0123456789abcdef".toList.contains c

theorem isHexDigit_digitChar {n : Nat} (h : n < 16) : isHexDigit n.digitChar = true := by
  revert n
  decide

theorem mem_hex4 {n : Nat} {c : Char} (h : c ∈ hex4 n) : isHexDigit c = true := by
  simp only [hex4, List.mem_cons, List.not_mem_nil, or_false] at h
  rcases h with rfl | rfl | rfl | rfl <;> exact isHexDigit_digitChar (Nat.mod_lt _ (by decide))

/-- An escape of a character beyond the printable ones. -/
theorem mem_unicodeEscape {c d : Char} (h : d ∈ unicodeEscape c) : d = '\\' ∨ d = 'u' ∨ isHexDigit d = true := by
  have hfirst : ∀ d ∈ "\\u".toList, d = '\\' ∨ d = 'u' := by decide
  have hpart : ∀ n, d ∈ "\\u".toList ++ hex4 n → d = '\\' ∨ d = 'u' ∨ isHexDigit d = true := fun n hd => by
    rcases List.mem_append.mp hd with hd | hd
    · exact (hfirst d hd).imp_right Or.inl
    · exact Or.inr (Or.inr (mem_hex4 hd))
  unfold unicodeEscape at h
  split at h
  · exact hpart _ h
  · rw [List.append_assoc] at h
    rcases List.mem_append.mp h with h | h
    · exact hpart _ h
    · exact hpart _ h

/-- A printable character of ASCII stands for itself. -/
theorem escape_printable {ascii : Bool} {c : Char} (hlow : 32 ≤ c.toNat) (hhigh : c.toNat ≤ 126) (hquote : c ≠ '"')
    (hback : c ≠ '\\') : escape ascii c = [c] := by
  have hctrl : ∀ d : Char, d.toNat < 32 → c ≠ d := fun d hd h => by rw [h] at hlow; omega
  have hcond : ¬ (c.toNat < 32 ∨ ascii = true ∧ 126 < c.toNat) := by omega
  simp [escape, hquote, hback, hctrl '\n' (by decide), hctrl '\r' (by decide), hctrl '\t' (by decide),
    hctrl '\x0c' (by decide), hctrl '\x08' (by decide), hcond]

theorem escape_beyond {c : Char} (h : 126 < c.toNat) : escape true c = unicodeEscape c := by
  have hne : ∀ d : Char, d.toNat ≤ 126 → c ≠ d := fun d hd hcd => by rw [hcd] at h; omega
  simp [escape, hne '"' (by decide), hne '\\' (by decide), hne '\n' (by decide), hne '\r' (by decide),
    hne '\t' (by decide), hne '\x0c' (by decide), hne '\x08' (by decide), h]

/-- No escape of another character has a quote. -/
theorem not_mem_escape {ascii : Bool} {q c : Char} (hq : q = '"' ∨ q = '\'') (hc : c ≠ q) :
    q ∉ escape ascii c := by
  have hno : ∀ s ∈ ["\\\\", "\\n", "\\r", "\\t", "\\f", "\\b"], '"' ∉ s.toList ∧ '\'' ∉ s.toList := by decide
  have hshort : ∀ s ∈ ["\\\\", "\\n", "\\r", "\\t", "\\f", "\\b"], q ∉ s.toList := fun s hs => by
    rcases hq with rfl | rfl
    · exact (hno s hs).1
    · exact (hno s hs).2
  unfold escape
  split
  · rename_i hquote
    rcases hq with rfl | rfl
    · exact absurd hquote hc
    · decide
  split
  · exact hshort _ (by simp)
  split
  · exact hshort _ (by simp)
  split
  · exact hshort _ (by simp)
  split
  · exact hshort _ (by simp)
  split
  · exact hshort _ (by simp)
  split
  · exact hshort _ (by simp)
  split
  · intro hmem
    have hother : ∀ q : Char, q = '"' ∨ q = '\'' → ¬ (q = '\\' ∨ q = 'u' ∨ isHexDigit q = true) := by
      rintro q (rfl | rfl) <;> decide
    exact hother q hq (mem_unicodeEscape hmem)
  · simpa using fun h : q = c => hc h.symm

/-- The members before another one, with the comma after them. -/
def membersFront (ascii : Bool) : List (List Char × Json) → List Char
  | [] => []
  | m :: ms => dumpsMembers ascii (m :: ms) ++ [',', ' ']

/-- The members of an object around one of them. -/
theorem dumpsMembers_append (ascii : Bool) (before : List (List Char × Json)) (k : List Char)
    (after : List (List Char × Json)) : ∃ right, ∀ x, dumpsMembers ascii (before ++ (k, x) :: after) =
      membersFront ascii before ++ (quote ascii k ++ (": ".toList ++ dumps ascii x) ++ right) := by
  induction before with
  | nil =>
      cases after with
      | nil => exact ⟨[], fun x => by simp [dumpsMembers, membersFront]⟩
      | cons m after =>
          exact ⟨", ".toList ++ dumpsMembers ascii (m :: after), fun x => by simp [dumpsMembers, membersFront]⟩
  | cons m before ih =>
      obtain ⟨right, hall⟩ := ih
      obtain ⟨k', x'⟩ := m
      have hcons : ∀ {ms : List (List Char × Json)}, ms ≠ [] → dumpsMembers ascii ((k', x') :: ms) =
          quote ascii k' ++ (": ".toList ++ dumps ascii x') ++ (", ".toList ++ dumpsMembers ascii ms) :=
        fun {ms} hms => by
          cases ms with
          | nil => exact absurd rfl hms
          | cons m ms => rw [dumpsMembers]; simp
      refine ⟨right, fun x => ?_⟩
      rw [List.cons_append, hcons (by simp), hall x]
      cases before with
      | nil => simp [dumpsMembers, membersFront]
      | cons m before =>
          rw [membersFront, membersFront, hcons (List.cons_ne_nil m before)]
          simp

end Json
