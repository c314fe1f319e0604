import FleetManagement.Library.Json
import Mathlib.Data.Char

/-!
# Reading JSON

A reader of JSON texts, as of `json.loads`, and that it reads what the encoder writes.
-/

namespace Json

def isSpace (c : Char) : Bool := " \t\n\r".toList.contains c

def skipSpace (s : List Char) : List Char := s.dropWhile isSpace

/-! ## Strings -/

def hexValue (c : Char) : Option Nat :=
  if c.isDigit then some (c.toNat - 48)
  else if 'a' ≤ c ∧ c ≤ 'f' then some (c.toNat - 87)
  else if 'A' ≤ c ∧ c ≤ 'F' then some (c.toNat - 55)
  else none

def readHex4 : List Char → Option (Nat × List Char)
  | c₃ :: c₂ :: c₁ :: c₀ :: s => do
      let d₃ ← hexValue c₃
      let d₂ ← hexValue c₂
      let d₁ ← hexValue c₁
      let d₀ ← hexValue c₀
      return (d₃ * 4096 + d₂ * 256 + d₁ * 16 + d₀, s)
  | _ => none

/-- The character of `\uXXXX`, or of two of them. One half of a pair is not a character. -/
def readUnicode (s : List Char) : Option (Char × List Char) := do
  let (high, s) ← readHex4 s
  if 0xd800 ≤ high ∧ high < 0xdc00 then
    match s with
    | '\\' :: 'u' :: s => do
        let (low, s) ← readHex4 s
        if 0xdc00 ≤ low ∧ low < 0xe000 then
          return (Char.ofNat (0x10000 + (high - 0xd800) * 0x400 + (low - 0xdc00)), s)
        else none
    | _ => none
  else if 0xdc00 ≤ high ∧ high < 0xe000 then none
  else return (Char.ofNat high, s)

def readEscape : List Char → Option (Char × List Char)
  | '"' :: s => some ('"', s)
  | '\\' :: s => some ('\\', s)
  | '/' :: s => some ('/', s)
  | 'b' :: s => some ('\x08', s)
  | 'f' :: s => some ('\x0c', s)
  | 'n' :: s => some ('\n', s)
  | 'r' :: s => some ('\r', s)
  | 't' :: s => some ('\t', s)
  | 'u' :: s => readUnicode s
  | _ => none

/-- One character within a string. -/
def readChar : List Char → Option (Char × List Char)
  | '\\' :: s => readEscape s
  | c :: s => if c.toNat < 32 then none else some (c, s)
  | [] => none

/-- The characters up to the closing quote, at most as many as the first argument. -/
def readString : Nat → List Char → Option (List Char × List Char)
  | _, '"' :: s => some ([], s)
  | 0, _ => none
  | n + 1, s => do
      let (c, s) ← readChar s
      let (cs, s) ← readString n s
      return (c :: cs, s)

/-! ## Numbers -/

/-- Digits without a zero before another one. -/
def readDigits : List Char → Option (List Char × List Char)
  | '0' :: s => some (['0'], s)
  | c :: s => if c.isDigit then some (c :: s.takeWhile Char.isDigit, s.dropWhile Char.isDigit) else none
  | [] => none

def readWhole : List Char → Option (List Char × List Char)
  | '-' :: s => (readDigits s).map fun p => ('-' :: p.1, p.2)
  | s => readDigits s

/-- Some digits after `lead`. -/
def readTail (lead s : List Char) : Option (List Char × List Char) :=
  if s.takeWhile Char.isDigit = [] then none
  else some (lead ++ s.takeWhile Char.isDigit, s.dropWhile Char.isDigit)

def readFraction : List Char → List Char × List Char
  | '.' :: s => (readTail ['.'] s).getD ([], '.' :: s)
  | s => ([], s)

def readSign : List Char → List Char × List Char
  | '+' :: s => (['+'], s)
  | '-' :: s => (['-'], s)
  | s => ([], s)

def readExponent : List Char → List Char × List Char
  | [] => ([], [])
  | e :: s =>
      if e = 'e' ∨ e = 'E' then (readTail (e :: (readSign s).1) (readSign s).2).getD ([], e :: s) else ([], e :: s)

def intValue : List Char → Int
  | '-' :: ds => -(Nat.ofDigitChars 10 ds 0 : Int)
  | ds => Nat.ofDigitChars 10 ds 0

/-- A number with a fraction or an exponent is a float, which is kept as its text. -/
def readNumber (s : List Char) : Option (Json × List Char) := do
  let (whole, s) ← readWhole s
  let (fraction, s) := readFraction s
  let (exponent, s) := readExponent s
  return (if fraction = [] ∧ exponent = [] then .int (intValue whole) else .float (whole ++ fraction ++ exponent), s)

/-! ## Values -/

/-- The names of values. The last three stand for floats that are not finite. -/
def names : List (List Char × Json) :=
  [("null".toList, .null), ("true".toList, .bool true), ("false".toList, .bool false),
    ("NaN".toList, .float "NaN".toList), ("Infinity".toList, .float "Infinity".toList),
    ("-Infinity".toList, .float "-Infinity".toList)]

def readName (s : List Char) : Option (Json × List Char) :=
  (names.find? fun p => p.1.isPrefixOf s).map fun p => (p.2, s.drop p.1.length)

mutual
/-- The value at the start of a text, with at most so many brackets and elements. -/
def readValue : Nat → List Char → Option (Json × List Char)
  | 0, _ => none
  | _ + 1, '"' :: s => (readString s.length s).map fun p => (.str p.1, p.2)
  | n + 1, '[' :: s =>
      match skipSpace s with
      | ']' :: s => some (.arr [], s)
      | s => (readItems n s).map fun p => (.arr p.1, p.2)
  | n + 1, '\x7b' :: s =>
      match skipSpace s with
      | '\x7d' :: s => some (.obj [], s)
      | s => (readMembers n s).map fun p => (.obj p.1, p.2)
  | _ + 1, s => (readName s).or (readNumber s)

def readItems : Nat → List Char → Option (List Json × List Char)
  | 0, _ => none
  | n + 1, s => do
      let (x, s) ← readValue n s
      match skipSpace s with
      | ',' :: s => do
          let (xs, s) ← readItems n (skipSpace s)
          return (x :: xs, s)
      | ']' :: s => return ([x], s)
      | _ => none

def readMembers : Nat → List Char → Option (List (List Char × Json) × List Char)
  | 0, _ => none
  | n + 1, '"' :: s => do
      let (k, s) ← readString s.length s
      match skipSpace s with
      | ':' :: s => do
          let (x, s) ← readValue n (skipSpace s)
          match skipSpace s with
          | ',' :: s => do
              let (ms, s) ← readMembers n (skipSpace s)
              return ((k, x) :: ms, s)
          | '\x7d' :: s => return ([(k, x)], s)
          | _ => none
      | _ => none
  | _ + 1, _ => none
end

/-- `json.loads`: the text is one value, with space around it. -/
def loads (s : List Char) : Option Json := do
  let (x, rest) ← readValue (s.length + 1) (skipSpace s)
  if skipSpace rest = [] then return x else none

/-! ## Texts of numbers -/

def Digits (ds : List Char) : Prop := ∀ c ∈ ds, c.isDigit = true

/-- The text does not go on with the number before it. -/
def Ends (s : List Char) : Prop := ∀ c ∈ s.head?, c.isDigit = false ∧ c ≠ '.' ∧ c ≠ 'e' ∧ c ≠ 'E'

inductive Whole : List Char → Prop where
  | zero : Whole ['0']
  | digits {c : Char} {ds : List Char} (hc : c.isDigit = true) (hne : c ≠ '0') (hds : Digits ds) : Whole (c :: ds)

/-- Nothing, or digits after one of the leads. -/
def Tail (leads : List (List Char)) (s : List Char) : Prop :=
  s = [] ∨ ∃ lead ∈ leads, ∃ ds, ds ≠ [] ∧ Digits ds ∧ s = lead ++ ds

def exponentLeads : List (List Char) := ["e".toList, "e+".toList, "e-".toList]

/-- The text of a finite float: a number with a fraction or an exponent. -/
structure FloatText (repr : List Char) : Prop where
  parts : ∃ sign ds fraction exponent, (sign = [] ∨ sign = ['-']) ∧ Whole ds ∧ Tail [['.']] fraction ∧
    Tail exponentLeads exponent ∧ (fraction ≠ [] ∨ exponent ≠ []) ∧ repr = sign ++ ds ++ fraction ++ exponent

section Numbers
variable {s ds fraction exponent : List Char}

theorem Ends.head (h : Ends s) : ∀ c ∈ s.head?, c.isDigit = false := fun c hc => (h c hc).1

theorem ends_cons {c : Char} (h : c.isDigit = false ∧ c ≠ '.' ∧ c ≠ 'e' ∧ c ≠ 'E') : Ends (c :: s) := by
  intro c' hc'
  obtain rfl : c = c' := by simpa using hc'
  exact h

theorem takeWhile_digits (hds : Digits ds) (hs : ∀ c ∈ s.head?, c.isDigit = false) :
    (ds ++ s).takeWhile Char.isDigit = ds ∧ (ds ++ s).dropWhile Char.isDigit = s := by
  have hstop : s.takeWhile Char.isDigit = [] ∧ s.dropWhile Char.isDigit = s := by
    cases s with
    | nil => exact ⟨rfl, rfl⟩
    | cons c s => simp [hs c rfl]
  rw [List.takeWhile_append_of_pos hds, List.dropWhile_append_of_pos hds, hstop.1, hstop.2]
  exact ⟨List.append_nil _, rfl⟩

theorem readTail_append {lead : List Char} (hne : ds ≠ []) (hds : Digits ds)
    (hs : ∀ c ∈ s.head?, c.isDigit = false) : readTail lead (ds ++ s) = some (lead ++ ds, s) := by
  obtain ⟨htake, hdrop⟩ := takeWhile_digits hds hs
  rw [readTail, htake, hdrop, if_neg hne]

theorem readDigits_append (h : Whole ds) (hs : ∀ c ∈ s.head?, c.isDigit = false) :
    readDigits (ds ++ s) = some (ds, s) := by
  cases h with
  | zero => rfl
  | digits hc hne hds =>
      obtain ⟨htake, hdrop⟩ := takeWhile_digits hds hs
      rw [List.cons_append, readDigits, if_pos hc, htake, hdrop]
      exact fun h => hne h

theorem Whole.head (h : Whole ds) : ∃ c cs, ds = c :: cs ∧ c.isDigit = true := by
  cases h with
  | zero => exact ⟨'0', [], rfl, rfl⟩
  | digits hc _ _ => exact ⟨_, _, rfl, hc⟩

theorem Whole.digits_all (h : Whole ds) : Digits ds := by
  cases h with
  | zero => simp [Digits]
  | digits hc _ hds => exact List.forall_mem_cons.mpr ⟨hc, hds⟩

theorem readWhole_append {sign : List Char} (hsign : sign = [] ∨ sign = ['-']) (h : Whole ds)
    (hs : ∀ c ∈ s.head?, c.isDigit = false) : readWhole (sign ++ ds ++ s) = some (sign ++ ds, s) := by
  rcases hsign with rfl | rfl
  · obtain ⟨c, cs, hds, hc⟩ := h.head
    have hread := readDigits_append h hs
    rw [List.nil_append]
    rw [hds] at hread ⊢
    rw [List.cons_append] at hread ⊢
    rw [readWhole, hread]
    intro _ hminus
    rw [(List.cons.inj hminus).1] at hc
    exact absurd hc (by decide)
  · have hread : readWhole ('-' :: (ds ++ s)) = (readDigits (ds ++ s)).map fun p => ('-' :: p.1, p.2) := rfl
    rw [readDigits_append h hs] at hread
    exact hread

theorem readFraction_append (h : Tail [['.']] fraction) (hs : ∀ c ∈ s.head?, c.isDigit = false ∧ c ≠ '.') :
    readFraction (fraction ++ s) = (fraction, s) := by
  rcases h with rfl | ⟨lead, hlead, ds, hne, hds, rfl⟩
  · cases s with
    | nil => rfl
    | cons c s =>
        rw [List.nil_append, readFraction]
        exact fun _ hdot => (hs c rfl).2 (List.cons.inj hdot).1
  · obtain rfl := List.mem_singleton.mp hlead
    have hread : readFraction ('.' :: (ds ++ s)) = (readTail ['.'] (ds ++ s)).getD ([], '.' :: (ds ++ s)) := rfl
    rw [readTail_append hne hds fun c hc => (hs c hc).1] at hread
    exact hread

theorem readExponent_append (h : Tail exponentLeads exponent) (hs : Ends s) :
    readExponent (exponent ++ s) = (exponent, s) := by
  rcases h with rfl | ⟨lead, hlead, ds, hne, hds, rfl⟩
  · cases s with
    | nil => rfl
    | cons c s =>
        obtain ⟨-, -, he, hE⟩ := hs c rfl
        simp [readExponent, he, hE]
  · have hread : ∀ sign : List Char, readSign (sign ++ (ds ++ s)) = (sign, ds ++ s) →
        readExponent ('e' :: (sign ++ (ds ++ s))) = ('e' :: (sign ++ ds), s) := by
      intro sign hsign
      rw [readExponent, if_pos (Or.inl rfl), hsign, readTail_append hne hds hs.head]
      rfl
    simp only [exponentLeads, List.mem_cons, List.not_mem_nil, or_false] at hlead
    rcases hlead with rfl | rfl | rfl
    · refine hread [] ?_
      obtain ⟨d, ds', rfl⟩ := List.exists_cons_of_ne_nil hne
      have hd := hds d List.mem_cons_self
      rw [List.nil_append, List.cons_append, readSign]
      · intro _ hplus
        rw [(List.cons.inj hplus).1] at hd
        exact absurd hd (by decide)
      · intro _ hminus
        rw [(List.cons.inj hminus).1] at hd
        exact absurd hd (by decide)
    · exact hread ['+'] rfl
    · exact hread ['-'] rfl

theorem Tail.ends {leads : List (List Char)} (hleads : ∀ lead ∈ leads, ∃ c cs, lead = c :: cs ∧ c.isDigit = false)
    (h : Tail leads fraction) (hs : ∀ c ∈ s.head?, c.isDigit = false) :
    ∀ c ∈ (fraction ++ s).head?, c.isDigit = false := by
  rcases h with rfl | ⟨lead, hlead, ds, -, -, rfl⟩
  · exact hs
  · obtain ⟨c, cs, rfl, hc⟩ := hleads lead hlead
    rintro c' hc'
    obtain rfl : c = c' := by simpa using hc'
    exact hc

end Numbers

theorem readNumber_float {repr s : List Char} (h : FloatText repr) (hs : Ends s) :
    readNumber (repr ++ s) = some (.float repr, s) := by
  obtain ⟨sign, ds, fraction, exponent, hsign, hds, hfraction, hexponent, hne, rfl⟩ := h.parts
  have hexp : ∀ c ∈ (exponent ++ s).head?, c.isDigit = false ∧ c ≠ '.' := by
    rcases hexponent with rfl | ⟨lead, hlead, ds', -, -, rfl⟩
    · exact fun c hc => ⟨(hs c hc).1, (hs c hc).2.1⟩
    · simp only [exponentLeads, List.mem_cons, List.not_mem_nil, or_false] at hlead
      rintro c hc
      obtain rfl : 'e' = c := by rcases hlead with rfl | rfl | rfl <;> simpa using hc
      decide
  have hfrac : ∀ c ∈ (fraction ++ (exponent ++ s)).head?, c.isDigit = false :=
    hfraction.ends (by simp) fun c hc => (hexp c hc).1
  have hwhole := readWhole_append hsign hds hfrac
  have htext : sign ++ ds ++ fraction ++ exponent ++ s = sign ++ ds ++ (fraction ++ (exponent ++ s)) := by simp
  have hfloat : ¬ (fraction = [] ∧ exponent = []) := fun h => hne.elim (· h.1) (· h.2)
  rw [htext, readNumber, hwhole]
  simp only [Option.bind_eq_bind, Option.bind_some, readFraction_append hfraction hexp,
    readExponent_append hexponent hs, if_neg hfloat]
  rfl

theorem head_toDigits {m : Nat} (hm : 0 < m) : ∀ c ∈ (Nat.toDigits 10 m).head?, c ≠ '0' := by
  induction m using Nat.strongRecOn with
  | ind m ih =>
      by_cases hlt : m < 10
      · rw [Nat.toDigits_of_lt_base hlt]
        have hall : ∀ m < 10, 0 < m → m.digitChar ≠ '0' := by decide
        rintro c hc
        obtain rfl : m.digitChar = c := by simpa using hc
        exact hall m hlt hm
      · rw [Nat.toDigits_of_base_le (by decide) (by omega)]
        have hne : Nat.toDigits 10 (m / 10) ≠ [] := Nat.toDigits_ne_nil
        rw [List.head?_append_of_ne_nil _ hne]
        exact ih (m / 10) (by omega) (by omega)

theorem whole_toDigits (m : Nat) : Whole (Nat.toDigits 10 m) := by
  cases hm : m with
  | zero => exact .zero
  | succ k =>
      obtain ⟨c, ds, hds⟩ := List.exists_cons_of_ne_nil (Nat.toDigits_ne_nil (n := k + 1) (b := 10))
      have hdigit : ∀ c ∈ Nat.toDigits 10 (k + 1), c.isDigit = true :=
        fun c hc => Nat.isDigit_of_mem_toDigits (by decide) le_rfl hc
      have hhead := head_toDigits (Nat.succ_pos k)
      rw [hds] at hdigit hhead ⊢
      exact .digits (hdigit c List.mem_cons_self) (hhead c rfl) fun d hd => hdigit d (List.mem_cons_of_mem _ hd)

theorem toString_int (n : Int) : ∃ sign ds, (toString n).toList = sign ++ ds ∧ (sign = [] ∨ sign = ['-']) ∧
    Whole ds ∧ intValue (sign ++ ds) = n := by
  have hdigits : ∀ m : Nat, (toString m).toList = Nat.toDigits 10 m := fun m => by
    rw [Nat.toString_eq_ofList_toDigits, String.toList_ofList]
  cases n with
  | ofNat m =>
      have hwhole := whole_toDigits m
      refine ⟨[], Nat.toDigits 10 m, hdigits m, Or.inl rfl, hwhole, ?_⟩
      obtain ⟨c, cs, hds, hc⟩ := hwhole.head
      have hvalue := Nat.ofDigitChars_ten_toDigits (n := m)
      rw [List.nil_append]
      rw [hds] at hvalue ⊢
      rw [intValue, hvalue]
      · rfl
      · intro _ hminus
        rw [(List.cons.inj hminus).1] at hc
        exact absurd hc (by decide)
  | negSucc m =>
      have hsign : (toString (Int.negSucc m)).toList = '-' :: (toString (m + 1)).toList := by
        show ("-" ++ toString (m + 1)).toList = _
        rw [String.toList_append]
        rfl
      refine ⟨['-'], Nat.toDigits 10 (m + 1), ?_, Or.inr rfl, whole_toDigits _, ?_⟩
      · rw [hsign, hdigits]
        rfl
      · show -(Nat.ofDigitChars 10 (Nat.toDigits 10 (m + 1)) 0 : Int) = _
        rw [Nat.ofDigitChars_ten_toDigits]
        rfl

theorem readNumber_int (n : Int) {s : List Char} (hs : Ends s) :
    readNumber ((toString n).toList ++ s) = some (.int n, s) := by
  obtain ⟨sign, ds, htext, hsign, hds, hvalue⟩ := toString_int n
  rw [htext, readNumber, readWhole_append hsign hds hs.head]
  have hfraction : readFraction ([] ++ s) = ([], s) := readFraction_append (Or.inl rfl) fun c hc => ⟨(hs c hc).1, (hs c hc).2.1⟩
  have hexponent : readExponent ([] ++ s) = ([], s) := readExponent_append (Or.inl rfl) hs
  rw [List.nil_append] at hfraction hexponent
  simp [hfraction, hexponent, hvalue]

/-! ## Characters of strings -/

theorem hexValue_digitChar : ∀ d < 16, hexValue d.digitChar = some d := by decide

theorem readHex4_hex4 {n : Nat} (h : n < 65536) (s : List Char) : readHex4 (hex4 n ++ s) = some (n, s) := by
  have hdigit : ∀ k, hexValue (k % 16).digitChar = some (k % 16) := fun k =>
    hexValue_digitChar _ (Nat.mod_lt k (by decide))
  simp only [hex4, List.cons_append, List.nil_append, readHex4, hdigit, Option.bind_eq_bind, Option.bind_some,
    Option.pure_def, Option.some.injEq, Prod.mk.injEq, and_true]
  omega

theorem readUnicode_one {n : Nat} (hn : n < 65536) (h : n < 0xd800 ∨ 0xe000 ≤ n) (s : List Char) :
    readUnicode (hex4 n ++ s) = some (Char.ofNat n, s) := by
  have hhigh : ¬ (0xd800 ≤ n ∧ n < 0xdc00) := by omega
  have hlow : ¬ (0xdc00 ≤ n ∧ n < 0xe000) := by omega
  simp [readUnicode, readHex4_hex4 hn, hhigh, hlow]

theorem readUnicode_two {high low : Nat} (hhigh : 0xd800 ≤ high ∧ high < 0xdc00)
    (hlow : 0xdc00 ≤ low ∧ low < 0xe000) (s : List Char) :
    readUnicode (hex4 high ++ '\\' :: 'u' :: (hex4 low ++ s)) =
      some (Char.ofNat (0x10000 + (high - 0xd800) * 0x400 + (low - 0xdc00)), s) := by
  have hhigh' : high < 65536 := by omega
  have hlow' : low < 65536 := by omega
  simp [readUnicode, readHex4_hex4 hhigh', readHex4_hex4 hlow', hhigh, hlow]

/-- The two halves of a character beyond the basic plane. -/
theorem halves_sum {n : Nat} (h : 0x10000 ≤ n) :
    0x10000 + (0xd800 + (n - 0x10000) / 0x400 - 0xd800) * 0x400 + (0xdc00 + (n - 0x10000) % 0x400 - 0xdc00) = n := by
  omega

theorem readUnicode_escape (c : Char) (s : List Char) : ∃ t, unicodeEscape c ++ s = '\\' :: 'u' :: t ∧
    readUnicode t = some (c, s) := by
  have hvalid : c.toNat < 0xd800 ∨ 0xdfff < c.toNat ∧ c.toNat < 0x110000 := c.valid
  unfold unicodeEscape
  split
  · rename_i hsmall
    refine ⟨hex4 c.toNat ++ s, by simp, ?_⟩
    rw [readUnicode_one hsmall (by omega), Char.ofNat_toNat]
  · rename_i hlarge
    refine ⟨hex4 (0xd800 + (c.toNat - 0x10000) / 0x400) ++ ('\\' :: 'u' ::
      (hex4 (0xdc00 + (c.toNat - 0x10000) % 0x400) ++ s)), by simp, ?_⟩
    rw [readUnicode_two (by omega) (by omega), halves_sum (Nat.le_of_not_lt hlarge), Char.ofNat_toNat]

theorem readChar_escape (ascii : Bool) (c : Char) (s : List Char) :
    readChar (escape ascii c ++ s) = some (c, s) := by
  unfold escape
  split
  · rename_i h; rw [h]; rfl
  split
  · rename_i h; rw [h]; rfl
  split
  · rename_i h; rw [h]; rfl
  split
  · rename_i h; rw [h]; rfl
  split
  · rename_i h; rw [h]; rfl
  split
  · rename_i h; rw [h]; rfl
  split
  · rename_i h; rw [h]; rfl
  split
  · obtain ⟨t, htext, hread⟩ := readUnicode_escape c s
    rw [htext]
    exact hread
  · rename_i hback _ _ _ _ _ hplain
    rw [not_or] at hplain
    rw [List.singleton_append, readChar, if_neg hplain.1]
    exact hback

theorem escape_head (ascii : Bool) (c : Char) : ∃ d t, escape ascii c = d :: t ∧ d ≠ '"' := by
  unfold escape
  split
  · exact ⟨_, _, rfl, by decide⟩
  split
  · exact ⟨_, _, rfl, by decide⟩
  split
  · exact ⟨_, _, rfl, by decide⟩
  split
  · exact ⟨_, _, rfl, by decide⟩
  split
  · exact ⟨_, _, rfl, by decide⟩
  split
  · exact ⟨_, _, rfl, by decide⟩
  split
  · exact ⟨_, _, rfl, by decide⟩
  split
  · obtain ⟨t, htext, -⟩ := readUnicode_escape c []
    exact ⟨'\\', 'u' :: t, by simpa using htext, by decide⟩
  · rename_i hquote _ _ _ _ _ _ _
    exact ⟨c, [], rfl, hquote⟩

theorem readString_escaped (ascii : Bool) (cs s : List Char) {n : Nat} (hn : cs.length ≤ n) :
    readString n (cs.flatMap (escape ascii) ++ '"' :: s) = some (cs, s) := by
  induction cs generalizing n with
  | nil => rw [List.flatMap_nil, List.nil_append, readString]
  | cons c cs ih =>
      obtain ⟨m, rfl⟩ := Nat.exists_eq_succ_of_ne_zero (by simp at hn; omega : n ≠ 0)
      obtain ⟨d, t, hd, hne⟩ := escape_head ascii c
      have hread := readChar_escape ascii c (cs.flatMap (escape ascii) ++ '"' :: s)
      rw [List.flatMap_cons, List.append_assoc]
      rw [hd] at hread ⊢
      rw [List.cons_append] at hread ⊢
      rw [readString, hread]
      · simp [ih (by simpa using hn)]
      · exact fun _ hquote => hne (List.cons.inj hquote).1

theorem length_flatMap_escape (ascii : Bool) (cs : List Char) :
    cs.length ≤ (cs.flatMap (escape ascii)).length := by
  induction cs with
  | nil => exact Nat.le_refl 0
  | cons c cs ih =>
      obtain ⟨d, t, hd, -⟩ := escape_head ascii c
      rw [List.flatMap_cons, hd, List.length_append, List.length_cons, List.length_cons]
      omega

/-- What follows the opening quote is read up to the closing one. -/
theorem readString_quote (ascii : Bool) (cs s : List Char) : ∃ t, quote ascii cs ++ s = '"' :: t ∧
    readString t.length t = some (cs, s) := by
  refine ⟨cs.flatMap (escape ascii) ++ '"' :: s, by simp [quote], readString_escaped ascii cs s ?_⟩
  have := length_flatMap_escape ascii cs
  rw [List.length_append]
  omega

/-! ## What is written is read -/

mutual
/-- The floats of the value have the texts of floats. -/
def Readable : Json → Prop
  | .float repr => FloatText repr ∨ repr ∈ ["NaN".toList, "Infinity".toList, "-Infinity".toList]
  | .arr items => AllReadable items
  | .obj members => MembersReadable members
  | _ => True

def AllReadable : List Json → Prop
  | [] => True
  | x :: xs => Readable x ∧ AllReadable xs

def MembersReadable : List (List Char × Json) → Prop
  | [] => True
  | (_, x) :: ms => Readable x ∧ MembersReadable ms
end

mutual
/-- The brackets and elements of the value. -/
def size : Json → Nat
  | .arr items => 1 + sizeItems items
  | .obj members => 1 + sizeMembers members
  | _ => 1

def sizeItems : List Json → Nat
  | [] => 0
  | x :: xs => 1 + size x + sizeItems xs

def sizeMembers : List (List Char × Json) → Nat
  | [] => 0
  | (_, x) :: ms => 1 + size x + sizeMembers ms
end

theorem membersReadable_iff {ms : List (List Char × Json)} : MembersReadable ms ↔ ∀ m ∈ ms, Readable m.2 := by
  induction ms with
  | nil => simp [MembersReadable]
  | cons m ms ih => simp [MembersReadable, ih]

section Reading
variable {ascii : Bool} {n : Nat} {s : List Char}

theorem FloatText.head {repr : List Char} (h : FloatText repr) : ∃ c cs, repr = c :: cs ∧
    (c.isDigit = true ∨ c = '-') := by
  obtain ⟨sign, ds, fraction, exponent, hsign, hds, -, -, -, rfl⟩ := h.parts
  obtain ⟨c, cs, rfl, hc⟩ := hds.head
  rcases hsign with rfl | rfl
  · exact ⟨c, cs ++ fraction ++ exponent, rfl, Or.inl hc⟩
  · exact ⟨'-', c :: cs ++ fraction ++ exponent, rfl, Or.inr rfl⟩

theorem head_toString (n : Int) : ∃ c cs, (toString n).toList = c :: cs ∧ (c.isDigit = true ∨ c = '-') := by
  obtain ⟨sign, ds, htext, hsign, hds, -⟩ := toString_int n
  obtain ⟨c, cs, rfl, hc⟩ := hds.head
  rcases hsign with rfl | rfl
  · exact ⟨c, cs, htext, Or.inl hc⟩
  · exact ⟨'-', c :: cs, htext, Or.inr rfl⟩

/-- No value starts with a space or with the end of a list. -/
theorem dumps_head (ascii : Bool) (x : Json) (h : Readable x) :
    ∃ c cs, dumps ascii x = c :: cs ∧ isSpace c = false ∧ c ≠ ']' := by
  have hnumber : ∀ c : Char, c.isDigit = true ∨ c = '-' → isSpace c = false ∧ c ≠ ']' := by
    rintro c (hc | rfl)
    · constructor
      · refine Bool.eq_false_iff.mpr fun hspace => ?_
        simp only [isSpace, List.contains_iff_mem] at hspace
        have hall : ∀ c ∈ " \t\n\r".toList, c.isDigit = false := by decide
        rw [hall c hspace] at hc
        cases hc
      · rintro rfl
        exact absurd hc (by decide)
    · decide
  cases x with
  | null => exact ⟨_, _, rfl, by decide, by decide⟩
  | bool b => cases b <;> exact ⟨_, _, rfl, by decide, by decide⟩
  | int n =>
      obtain ⟨c, cs, htext, hc⟩ := head_toString n
      exact ⟨c, cs, htext, hnumber c hc⟩
  | float repr =>
      rcases h with h | h
      · obtain ⟨c, cs, htext, hc⟩ := h.head
        exact ⟨c, cs, htext, hnumber c hc⟩
      · simp only [List.mem_cons, List.not_mem_nil, or_false] at h
        rcases h with rfl | rfl | rfl <;> exact ⟨_, _, rfl, by decide, by decide⟩
  | str cs => exact ⟨_, _, rfl, by decide, by decide⟩
  | arr items => exact ⟨_, _, rfl, by decide, by decide⟩
  | obj members => exact ⟨_, _, rfl, by decide, by decide⟩

theorem skipSpace_cons {c : Char} (h : isSpace c = false) : skipSpace (c :: s) = c :: s := by
  simp [skipSpace, h]

theorem skipSpace_dumps {x : Json} (h : Readable x) : skipSpace (' ' :: (dumps ascii x ++ s)) = dumps ascii x ++ s := by
  obtain ⟨c, cs, htext, hspace, -⟩ := dumps_head ascii x h
  rw [htext, List.cons_append]
  have hfirst : skipSpace (' ' :: c :: (cs ++ s)) = skipSpace (c :: (cs ++ s)) := rfl
  rw [hfirst, skipSpace_cons hspace]

/-- A value that is neither a string nor in brackets. -/
theorem readValue_plain {c : Char} (hc : c ≠ '"' ∧ c ≠ '[' ∧ c ≠ '\x7b') :
    readValue (n + 1) (c :: s) = (readName (c :: s)).or (readNumber (c :: s)) := by
  rw [readValue]
  · exact fun _ h => hc.1 (List.cons.inj h).1
  · exact fun _ h => hc.2.1 (List.cons.inj h).1
  · exact fun _ h => hc.2.2 (List.cons.inj h).1

theorem readName_number {sign ds : List Char} (hsign : sign = [] ∨ sign = ['-']) (h : Whole ds) :
    readName (sign ++ ds ++ s) = none := by
  obtain ⟨c, cs, rfl, hc⟩ := h.head
  have hne : ∀ d : Char, d.isDigit = false → (d == c) = false := by
    intro d hd
    refine beq_eq_false_iff_ne.mpr ?_
    rintro rfl
    rw [hd] at hc
    cases hc
  rcases hsign with rfl | rfl
  · simp [readName, names, List.isPrefixOf, hne]
  · simp [readName, names, List.isPrefixOf, hne]

theorem readValue_number {sign ds : List Char} (hsign : sign = [] ∨ sign = ['-']) (h : Whole ds) :
    readValue (n + 1) (sign ++ ds ++ s) = readNumber (sign ++ ds ++ s) := by
  have hname := readName_number (s := s) hsign h
  obtain ⟨c, cs, hcs, hc⟩ : ∃ c cs, sign ++ ds ++ s = c :: cs ∧ (c.isDigit = true ∨ c = '-') := by
    obtain ⟨c, cs, rfl, hc⟩ := h.head
    rcases hsign with rfl | rfl
    · exact ⟨c, cs ++ s, rfl, Or.inl hc⟩
    · exact ⟨'-', c :: cs ++ s, rfl, Or.inr rfl⟩
  rw [hcs] at hname ⊢
  rw [readValue_plain, hname, Option.none_or]
  refine ⟨?_, ?_, ?_⟩ <;> rintro rfl <;> revert hc <;> decide

mutual
theorem readValue_dumps : (x : Json) → {n : Nat} → {s : List Char} → Readable x → size x ≤ n → Ends s →
    readValue n (dumps ascii x ++ s) = some (x, s)
  | x, 0, s, _, hn, _ => by
      have : 0 < size x := by unfold size; split <;> omega
      omega
  | .null, n + 1, s, _, _, _ => rfl
  | .bool true, n + 1, s, _, _, _ => rfl
  | .bool false, n + 1, s, _, _, _ => rfl
  | .int k, n + 1, s, _, _, hs => by
      obtain ⟨sign, ds, htext, hsign, hds, -⟩ := toString_int k
      have hread := readNumber_int k hs
      rw [dumps]
      rw [htext] at hread ⊢
      rw [readValue_number hsign hds]
      exact hread
  | .float repr, n + 1, s, h, _, hs => by
      rw [dumps]
      rcases h with h | h
      · have hread := readNumber_float h hs
        obtain ⟨sign, ds, fraction, exponent, hsign, hds, -, -, -, rfl⟩ := h.parts
        have htext : sign ++ ds ++ fraction ++ exponent ++ s = sign ++ ds ++ (fraction ++ exponent ++ s) := by simp
        rw [htext] at hread ⊢
        rw [readValue_number hsign hds]
        exact hread
      · simp only [List.mem_cons, List.not_mem_nil, or_false] at h
        rcases h with rfl | rfl | rfl <;> rfl
  | .str cs, n + 1, s, _, _, _ => by
      obtain ⟨t, htext, hread⟩ := readString_quote ascii cs s
      rw [dumps, htext, readValue, hread]
      rfl
  | .arr [], n + 1, s, _, _, _ => rfl
  | .arr (x :: xs), n + 1, s, h, hn, _ => by
      have hitems := readItems_dumps (x :: xs) (n := n) (s := s) (by simp) h (by simp only [size] at hn; omega)
      obtain ⟨c, cs, htext, hspace, hend⟩ := dumps_head ascii x h.1
      obtain ⟨t, ht⟩ : ∃ t, dumpsItems ascii (x :: xs) ++ ']' :: s = c :: t := by
        cases xs with
        | nil => exact ⟨_, by rw [dumpsItems, htext]; rfl⟩
        | cons y ys => exact ⟨_, by simp [dumpsItems, htext]; rfl⟩
      have hcons : dumps ascii (.arr (x :: xs)) ++ s = '[' :: (dumpsItems ascii (x :: xs) ++ ']' :: s) := by
        simp [dumps]
      rw [hcons, readValue, ht, skipSpace_cons hspace]
      rw [ht] at hitems
      split
      · rename_i heq
        exact absurd (List.cons.inj heq).1 hend
      · rw [hitems]
        rfl
  | .obj [], n + 1, s, _, _, _ => rfl
  | .obj (m :: ms), n + 1, s, h, hn, _ => by
      have hmembers := readMembers_dumps (m :: ms) (n := n) (s := s) (by simp) h (by simp only [size] at hn; omega)
      obtain ⟨t, ht⟩ : ∃ t, dumpsMembers ascii (m :: ms) ++ '\x7d' :: s = '"' :: t := by
        obtain ⟨k, x⟩ := m
        cases ms with
        | nil => exact ⟨_, by rw [dumpsMembers, quote]; simp; rfl⟩
        | cons m' ms => exact ⟨_, by simp [dumpsMembers, quote]; rfl⟩
      have hcons : dumps ascii (.obj (m :: ms)) ++ s = '\x7b' :: (dumpsMembers ascii (m :: ms) ++ '\x7d' :: s) := by
        simp [dumps]
      rw [hcons, readValue, ht, skipSpace_cons (by decide)]
      rw [ht] at hmembers
      show (readMembers n ('"' :: t)).map _ = _
      rw [hmembers]
      rfl

theorem readItems_dumps : (xs : List Json) → {n : Nat} → {s : List Char} → xs ≠ [] → AllReadable xs →
    sizeItems xs ≤ n → readItems n (dumpsItems ascii xs ++ ']' :: s) = some (xs, s)
  | [], _, _, hne, _, _ => absurd rfl hne
  | x :: xs, 0, _, _, _, hn => by simp only [sizeItems] at hn; omega
  | [x], n + 1, s, _, h, hn => by
      have hread := readValue_dumps x (n := n) (s := ']' :: s) h.1 (by simp only [sizeItems] at hn; omega)
        (ends_cons (by decide))
      rw [dumpsItems, readItems, hread]
      rfl
  | x :: y :: xs, n + 1, s, _, h, hn => by
      have hread := readValue_dumps x (n := n) (s := ',' :: ' ' :: (dumpsItems ascii (y :: xs) ++ ']' :: s)) h.1
        (by simp only [sizeItems] at hn; omega)
        (ends_cons (by decide))
      have hrest := readItems_dumps (y :: xs) (n := n) (s := s) (by simp) h.2
        (by simp only [sizeItems] at hn ⊢; omega)
      have hskip : skipSpace (' ' :: (dumpsItems ascii (y :: xs) ++ ']' :: s)) =
          dumpsItems ascii (y :: xs) ++ ']' :: s := by
        cases xs with
        | nil => exact skipSpace_dumps h.2.1
        | cons z zs =>
            rw [dumpsItems, List.append_assoc]
            · exact skipSpace_dumps h.2.1
            · simp
      have hcons : dumpsItems ascii (x :: y :: xs) ++ ']' :: s =
          dumps ascii x ++ ',' :: ' ' :: (dumpsItems ascii (y :: xs) ++ ']' :: s) := by
        simp [dumpsItems]
      have hcomma : skipSpace (',' :: ' ' :: (dumpsItems ascii (y :: xs) ++ ']' :: s)) =
          ',' :: ' ' :: (dumpsItems ascii (y :: xs) ++ ']' :: s) := rfl
      rw [hcons, readItems, hread]
      simp [hcomma, hskip, hrest]

theorem readMembers_dumps : (ms : List (List Char × Json)) → {n : Nat} → {s : List Char} → ms ≠ [] →
    MembersReadable ms → sizeMembers ms ≤ n → readMembers n (dumpsMembers ascii ms ++ '\x7d' :: s) = some (ms, s)
  | [], _, _, hne, _, _ => absurd rfl hne
  | (_, _) :: ms, 0, _, _, _, hn => by simp only [sizeMembers] at hn; omega
  | [(k, x)], n + 1, s, _, h, hn => by
      have hread := readValue_dumps x (n := n) (s := '\x7d' :: s) h.1 (by simp only [sizeMembers] at hn; omega)
        (ends_cons (by decide))
      obtain ⟨t, htext, hkey⟩ := readString_quote ascii k (':' :: ' ' :: (dumps ascii x ++ '\x7d' :: s))
      have hcons : dumpsMembers ascii [(k, x)] ++ '\x7d' :: s =
          quote ascii k ++ ':' :: ' ' :: (dumps ascii x ++ '\x7d' :: s) := by
        simp [dumpsMembers]
      have hcolon : skipSpace (':' :: ' ' :: (dumps ascii x ++ '\x7d' :: s)) =
          ':' :: ' ' :: (dumps ascii x ++ '\x7d' :: s) := rfl
      have hclose : skipSpace ('\x7d' :: s) = '\x7d' :: s := rfl
      rw [hcons, htext, readMembers, hkey]
      simp [hcolon, skipSpace_dumps h.1, hread, hclose]
  | (k, x) :: m :: ms, n + 1, s, _, h, hn => by
      have hread := readValue_dumps x (n := n) (s := ',' :: ' ' :: (dumpsMembers ascii (m :: ms) ++ '\x7d' :: s)) h.1
        (by simp only [sizeMembers] at hn; omega)
        (ends_cons (by decide))
      have hrest := readMembers_dumps (m :: ms) (n := n) (s := s) (by simp) h.2
        (by simp only [sizeMembers] at hn ⊢; omega)
      obtain ⟨t, htext, hkey⟩ := readString_quote ascii k
        (':' :: ' ' :: (dumps ascii x ++ ',' :: ' ' :: (dumpsMembers ascii (m :: ms) ++ '\x7d' :: s)))
      have hskip : skipSpace (' ' :: (dumpsMembers ascii (m :: ms) ++ '\x7d' :: s)) =
          dumpsMembers ascii (m :: ms) ++ '\x7d' :: s := by
        obtain ⟨k', x'⟩ := m
        cases ms <;> rfl
      have hcons : dumpsMembers ascii ((k, x) :: m :: ms) ++ '\x7d' :: s =
          quote ascii k ++ ':' :: ' ' :: (dumps ascii x ++ ',' :: ' ' ::
            (dumpsMembers ascii (m :: ms) ++ '\x7d' :: s)) := by
        simp [dumpsMembers]
      have hcolon : ∀ t, skipSpace (':' :: t) = ':' :: t := fun _ => rfl
      have hcomma : ∀ t, skipSpace (',' :: t) = ',' :: t := fun _ => rfl
      rw [hcons, htext, readMembers, hkey]
      simp [hcolon, hcomma, skipSpace_dumps h.1, hread, hskip, hrest]
end

mutual
theorem size_le_length : (x : Json) → Readable x → size x ≤ (dumps ascii x).length
  | .arr items, h => by
      have := sizeItems_le_length items h
      simp [size, dumps]
      omega
  | .obj members, h => by
      have := sizeMembers_le_length members h
      simp [size, dumps]
      omega
  | .null, h | .bool _, h | .int _, h | .float _, h | .str _, h => by
      obtain ⟨c, cs, htext, -⟩ := dumps_head ascii _ h
      rw [htext]
      simp [size]

theorem sizeItems_le_length : (xs : List Json) → AllReadable xs → sizeItems xs ≤ (dumpsItems ascii xs).length + 1
  | [], _ => by simp [sizeItems]
  | [x], h => by
      have := size_le_length x h.1
      simp [sizeItems, dumpsItems]
      omega
  | x :: y :: xs, h => by
      have := size_le_length x h.1
      have := sizeItems_le_length (y :: xs) h.2
      have hlen : (dumpsItems ascii (x :: y :: xs)).length =
          (dumps ascii x).length + 2 + (dumpsItems ascii (y :: xs)).length := by
        simp [dumpsItems]
        omega
      rw [hlen, sizeItems]
      omega

theorem sizeMembers_le_length : (ms : List (List Char × Json)) → MembersReadable ms →
    sizeMembers ms ≤ (dumpsMembers ascii ms).length + 1
  | [], _ => by simp [sizeMembers]
  | [(k, x)], h => by
      have := size_le_length x h.1
      simp [sizeMembers, dumpsMembers]
      omega
  | (k, x) :: m :: ms, h => by
      have := size_le_length x h.1
      have := sizeMembers_le_length (m :: ms) h.2
      have hlen : (dumps ascii x).length + 2 + (dumpsMembers ascii (m :: ms)).length ≤
          (dumpsMembers ascii ((k, x) :: m :: ms)).length := by
        simp [dumpsMembers]
        omega
      rw [sizeMembers]
      omega
end

/-- Reading undoes writing. -/
theorem loads_dumps {x : Json} (h : Readable x) : loads (dumps ascii x) = some x := by
  obtain ⟨c, cs, htext, hspace, -⟩ := dumps_head ascii x h
  have hread : readValue ((dumps ascii x).length + 1) (dumps ascii x ++ []) = some (x, []) :=
    readValue_dumps x h (Nat.le_succ_of_le (size_le_length x h)) nofun
  have hskip : skipSpace (dumps ascii x) = dumps ascii x := by
    rw [htext]
    exact skipSpace_cons hspace
  rw [List.append_nil] at hread
  rw [loads, hskip, hread]
  rfl

end Reading

/-! ## Lines -/

section Lines
variable {ascii : Bool}

theorem printable_escape {c d : Char} (h : d ∈ escape ascii c) : 32 ≤ d.toNat := by
  have hshort : ∀ s ∈ ["\\\"", "\\\\", "\\n", "\\r", "\\t", "\\f", "\\b"], ∀ d ∈ s.toList, 32 ≤ d.toNat := by decide
  unfold escape at h
  split at h
  · exact hshort _ (by simp) d h
  split at h
  · exact hshort _ (by simp) d h
  split at h
  · exact hshort _ (by simp) d h
  split at h
  · exact hshort _ (by simp) d h
  split at h
  · exact hshort _ (by simp) d h
  split at h
  · exact hshort _ (by simp) d h
  split at h
  · exact hshort _ (by simp) d h
  split at h
  · have hhex : ∀ d ∈ "0123456789abcdef".toList, 32 ≤ d.toNat := by decide
    rcases mem_unicodeEscape h with rfl | rfl | h
    · decide
    · decide
    · exact hhex d (List.contains_iff_mem.mp h)
  · rename_i hplain
    obtain rfl := List.mem_singleton.mp h
    rw [not_or] at hplain
    omega

theorem printable_quote {cs : List Char} {d : Char} (h : d ∈ quote ascii cs) : 32 ≤ d.toNat := by
  simp only [quote, List.mem_cons, List.mem_append, List.not_mem_nil, or_false, List.mem_flatMap] at h
  rcases h with rfl | ⟨c, -, hd⟩ | rfl
  · decide
  · exact printable_escape hd
  · decide

theorem printable_digit {c : Char} (h : c.isDigit = true) : 32 ≤ c.toNat := by
  simp only [Char.isDigit, Bool.and_eq_true, decide_eq_true_eq, ge_iff_le, UInt32.le_iff_toNat_le] at h
  exact le_trans (by decide) h.1

theorem printable_tail {leads : List (List Char)} {s : List Char}
    (hleads : ∀ lead ∈ leads, ∀ c ∈ lead, 32 ≤ c.toNat) (h : Tail leads s) : ∀ c ∈ s, 32 ≤ c.toNat := by
  rcases h with rfl | ⟨lead, hlead, ds, -, hds, rfl⟩
  · simp
  · intro c hc
    rcases List.mem_append.mp hc with hc | hc
    · exact hleads lead hlead c hc
    · exact printable_digit (hds c hc)

theorem printable_whole {sign ds : List Char} (hsign : sign = [] ∨ sign = ['-']) (h : Whole ds) :
    ∀ c ∈ sign ++ ds, 32 ≤ c.toNat := by
  intro c hc
  rcases List.mem_append.mp hc with hc | hc
  · rcases hsign with rfl | rfl
    · cases hc
    · obtain rfl := List.mem_singleton.mp hc
      decide
  · exact printable_digit (h.digits_all c hc)

mutual
/-- A value has no control characters in its text. -/
theorem printable_dumps : (x : Json) → Readable x → ∀ c ∈ dumps ascii x, 32 ≤ c.toNat
  | .null, _ => by
      have : ∀ c ∈ "null".toList, 32 ≤ c.toNat := by decide
      exact this
  | .bool true, _ => by
      have : ∀ c ∈ "true".toList, 32 ≤ c.toNat := by decide
      exact this
  | .bool false, _ => by
      have : ∀ c ∈ "false".toList, 32 ≤ c.toNat := by decide
      exact this
  | .int n, _ => by
      obtain ⟨sign, ds, htext, hsign, hds, -⟩ := toString_int n
      rw [dumps, htext]
      exact printable_whole hsign hds
  | .float repr, h => by
      rw [dumps]
      rcases h with h | h
      · obtain ⟨sign, ds, fraction, exponent, hsign, hds, hfraction, hexponent, -, rfl⟩ := h.parts
        intro c hc
        rcases List.mem_append.mp hc with hc | hc
        · rcases List.mem_append.mp hc with hc | hc
          · exact printable_whole hsign hds c hc
          · exact printable_tail (by decide) hfraction c hc
        · exact printable_tail (by decide) hexponent c hc
      · have hall : ∀ s ∈ ["NaN".toList, "Infinity".toList, "-Infinity".toList], ∀ c ∈ s, 32 ≤ c.toNat := by decide
        exact hall repr h
  | .str cs, _ => fun c hc => printable_quote hc
  | .arr items, h => by
      intro c hc
      simp only [dumps, List.mem_cons, List.mem_append, List.not_mem_nil, or_false] at hc
      rcases hc with rfl | hc | rfl
      · decide
      · exact printable_dumpsItems items h c hc
      · decide
  | .obj members, h => by
      intro c hc
      simp only [dumps, List.mem_cons, List.mem_append, List.not_mem_nil, or_false] at hc
      rcases hc with rfl | hc | rfl
      · decide
      · exact printable_dumpsMembers members h c hc
      · decide

theorem printable_dumpsItems : (xs : List Json) → AllReadable xs → ∀ c ∈ dumpsItems ascii xs, 32 ≤ c.toNat
  | [], _ => by simp [dumpsItems]
  | [x], h => by
      rw [dumpsItems]
      exact printable_dumps x h.1
  | x :: y :: xs, h => by
      have hcomma : ∀ c ∈ ", ".toList, 32 ≤ c.toNat := by decide
      intro c hc
      rw [dumpsItems, List.mem_append, List.mem_append] at hc
      · rcases hc with hc | hc | hc
        · exact printable_dumps x h.1 c hc
        · exact hcomma c hc
        · exact printable_dumpsItems (y :: xs) h.2 c hc
      · simp

theorem printable_dumpsMembers : (ms : List (List Char × Json)) → MembersReadable ms →
    ∀ c ∈ dumpsMembers ascii ms, 32 ≤ c.toNat
  | [], _ => by simp [dumpsMembers]
  | [(k, x)], h => by
      have hcolon : ∀ c ∈ ": ".toList, 32 ≤ c.toNat := by decide
      intro c hc
      rw [dumpsMembers, List.mem_append, List.mem_append] at hc
      rcases hc with hc | hc | hc
      · exact printable_quote hc
      · exact hcolon c hc
      · exact printable_dumps x h.1 c hc
  | (k, x) :: m :: ms, h => by
      have hcolon : ∀ c ∈ ": ".toList, 32 ≤ c.toNat := by decide
      have hcomma : ∀ c ∈ ", ".toList, 32 ≤ c.toNat := by decide
      intro c hc
      rw [dumpsMembers, List.mem_append, List.mem_append, List.mem_append, List.mem_append] at hc
      · rcases hc with (hc | hc | hc) | hc | hc
        · exact printable_quote hc
        · exact hcolon c hc
        · exact printable_dumps x h.1 c hc
        · exact hcomma c hc
        · exact printable_dumpsMembers (m :: ms) h.2 c hc
      · simp
end

/-- The text is one line. -/
theorem newline_not_mem_dumps {x : Json} (h : Readable x) : '\n' ∉ dumps ascii x := by
  intro hmem
  exact absurd (printable_dumps x h _ hmem) (by decide)

def writeLines (lines : List (List Char)) : List Char := lines.flatMap fun line => line ++ ['\n']

/-- The lines of a file that ends with an end of a line. -/
def readLines (s : List Char) : List (List Char) := (s.splitOn '\n').dropLast

theorem readLines_writeLines {lines : List (List Char)} (h : ∀ line ∈ lines, '\n' ∉ line) :
    readLines (writeLines lines) = lines := by
  have htext : writeLines lines = ['\n'].intercalate (lines ++ [[]]) := by
    induction lines with
    | nil => rfl
    | cons line lines ih =>
        have hlines := ih fun l hl => h l (List.mem_cons_of_mem _ hl)
        obtain ⟨next, rest, hnext⟩ := List.exists_cons_of_ne_nil (List.append_ne_nil_of_right_ne_nil lines
          (List.cons_ne_nil ([] : List Char) []))
        rw [writeLines] at hlines ⊢
        rw [List.flatMap_cons, hlines, List.cons_append, hnext]
        simp [List.intercalate]
  rw [readLines, htext, List.splitOn_intercalate '\n' _ (by simp)]
  · exact List.dropLast_concat
  · intro l hl
    rcases List.mem_append.mp hl with hl | hl
    · exact h l hl
    · obtain rfl := List.mem_singleton.mp hl
      exact List.not_mem_nil

end Lines

end Json
