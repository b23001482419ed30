import Mathlib.Data.List.TakeDrop
import MiniAgent.Lib.Json
import MiniAgent.Lib.Lines

/-!
# JSON text

`dumps` writes a value as Python's `json.dumps` does with `ensure_ascii=False` and without blanks,
and `loads` reads a document. A value whose objects have distinct keys is read back from its text
(`loads_dumps`). The text of a `float` is left to `Floats`.

`loads` reads by descent; its fuel is the length of the text. What Python reads as a value outside
`Json` (`NaN`, a lone surrogate) is not read.
-/

namespace Lib

namespace Json

/-! ## Writing -/

def hexDigit (n : Nat) : Char := if n < 10 then Char.ofNat (48 + n) else Char.ofNat (87 + n)

def escapeChar (c : Char) : Text :=
  if c = '"' then ['\\', '"']
  else if c = '\\' then ['\\', '\\']
  else if c = '\n' then ['\\', 'n']
  else if c = '\r' then ['\\', 'r']
  else if c = '\t' then ['\\', 't']
  else if c = '\x08' then ['\\', 'b']
  else if c = '\x0c' then ['\\', 'f']
  else if c.toNat < 32 then ['\\', 'u', '0', '0', hexDigit (c.toNat / 16), hexDigit (c.toNat % 16)]
  else [c]

def stringText (s : Text) : Text := '"' :: s.flatMap escapeChar ++ ['"']

def intText (n : Int) : Text := (if n < 0 then ['-'] else []) ++ Nat.toDigits 10 n.natAbs

/-! ## Scanning -/

def skipBlanks (t : Text) : Text := t.dropWhile fun c => c = ' ' || c = '\t' || c = '\n' || c = '\r'

def hexValue (c : Char) : Option Nat :=
  if '0' ≤ c ∧ c ≤ '9' then some (c.toNat - 48)
  else if 'a' ≤ c ∧ c ≤ 'f' then some (c.toNat - 87)
  else if 'A' ≤ c ∧ c ≤ 'F' then some (c.toNat - 55)
  else none

/-- Four hexadecimal digits. -/
def scanHex : Text → Option (Nat × Text)
  | a :: b :: c :: d :: rest => do
    let a ← hexValue a
    let b ← hexValue b
    let c ← hexValue c
    let d ← hexValue d
    pure (((a * 16 + b) * 16 + c) * 16 + d, rest)
  | _ => none

def charOf (n : Nat) : Option Char := if n.isValidChar then some (Char.ofNat n) else none

/-- After `\u`: a character, or the two surrogates of one. -/
def scanUnicode (t : Text) : Option (Char × Text) := do
  let (high, rest) ← scanHex t
  if 0xd800 ≤ high ∧ high ≤ 0xdbff ∧ rest.take 2 = ['\\', 'u'] then do
    let (low, rest) ← scanHex (rest.drop 2)
    if 0xdc00 ≤ low ∧ low ≤ 0xdfff then
      (charOf (0x10000 + (high - 0xd800) * 1024 + (low - 0xdc00))).map (·, rest)
    else none
  else (charOf high).map (·, rest)

/-- `BACKSLASH`. -/
def unescapeChar (c : Char) : Option Char :=
  if c = '"' then some '"'
  else if c = '\\' then some '\\'
  else if c = '/' then some '/'
  else if c = 'b' then some '\x08'
  else if c = 'f' then some '\x0c'
  else if c = 'n' then some '\n'
  else if c = 'r' then some '\r'
  else if c = 't' then some '\t'
  else none

def scanEscape : Text → Option (Char × Text)
  | [] => none
  | c :: rest => if c = 'u' then scanUnicode rest else (unescapeChar c).map (·, rest)

/-- The characters of a string, up to the quote that ends it. -/
def scanString : Nat → Text → Option (Text × Text)
  | 0, _ => none
  | _ + 1, [] => none
  | n + 1, c :: rest =>
    if c = '"' then some ([], rest)
    else if c = '\\' then do
      let (c, rest) ← scanEscape rest
      let (s, rest) ← scanString n rest
      pure (c :: s, rest)
    else if c.toNat < 32 then none
    else do
      let (s, rest) ← scanString n rest
      pure (c :: s, rest)

/-- `0`, or digits that do not begin with it. -/
def scanDigits (t : Text) : Option (Text × Text) :=
  match t.span Char.isDigit with
  | ([], _) => none
  | ('0' :: digits, rest) => some (['0'], digits ++ rest)
  | (digits, rest) => some (digits, rest)

def scanFraction : Text → Text × Text
  | '.' :: rest => match rest.span Char.isDigit with
    | ([], _) => ([], '.' :: rest)
    | (digits, rest) => ('.' :: digits, rest)
  | t => ([], t)

def scanSign : Text → Text × Text
  | '+' :: rest => (['+'], rest)
  | '-' :: rest => (['-'], rest)
  | t => ([], t)

def scanExponent (t : Text) : Text × Text :=
  match t with
  | [] => ([], [])
  | c :: rest =>
    if c = 'e' ∨ c = 'E' then
      let (sign, rest') := scanSign rest
      match rest'.span Char.isDigit with
      | ([], _) => ([], t)
      | (digits, rest) => (c :: sign ++ digits, rest)
    else ([], t)

def scanMinus : Text → Text × Text
  | '-' :: rest => (['-'], rest)
  | t => ([], t)

/-- A number: its sign and digits, its fraction and exponent, and what follows. -/
def scanNumber (t : Text) : Option (Text × Text × Text) := do
  let (minus, t) := scanMinus t
  let (digits, t) ← scanDigits t
  let (fraction, t) := scanFraction t
  let (exponent, t) := scanExponent t
  pure (minus ++ digits, fraction ++ exponent, t)

/-- `int` of a sign and digits. -/
def intOf : Text → Int
  | '-' :: digits => -(Nat.ofDigitChars 10 digits 0 : Int)
  | digits => Nat.ofDigitChars 10 digits 0

/-- What may follow a number. -/
def EndsNumber (rest : Text) : Prop := ∀ c ∈ rest.head?, c = ',' ∨ c = ']' ∨ c = '\x7d'

/-- The texts of the finite `float` numbers: each is a number with a fraction or an exponent, and is
read as itself. -/
structure Floats where
  repr : Rat → Text
  read : Text → Rat
  read_repr : ∀ q, read (repr q) = q
  scan_repr : ∀ q rest, EndsNumber rest → ∃ digits tail, tail ≠ [] ∧ repr q = digits ++ tail ∧
    scanNumber (repr q ++ rest) = some (digits, tail, rest)

variable (floats : Floats)

mutual

/-- `json.dumps(value, ensure_ascii=False, separators=(",", ":"))`. -/
def dumps : Json → Text
  | null => "null".toList
  | bool true => "true".toList
  | bool false => "false".toList
  | int n => intText n
  | float q => floats.repr q
  | str s => stringText s.toList
  | arr [] => "[]".toList
  | arr (a :: l) => '[' :: dumps a ++ dumpsElems l
  | obj [] => "\x7b\x7d".toList
  | obj ((k, v) :: l) => '\x7b' :: stringText k.toList ++ ':' :: dumps v ++ dumpsMembers l

/-- The elements after the first. -/
def dumpsElems : List Json → Text
  | [] => [']']
  | a :: l => ',' :: dumps a ++ dumpsElems l

def dumpsMembers : Fields → Text
  | [] => ['\x7d']
  | (k, v) :: l => ',' :: stringText k.toList ++ ':' :: dumps v ++ dumpsMembers l

end

/-! ## Reading -/

def literal (word : Text) (v : Json) (t : Text) : Option (Json × Text) :=
  if t.take word.length = word then some (v, t.drop word.length) else none

def number (t : Text) : Option (Json × Text) := do
  let (digits, tail, rest) ← scanNumber t
  if tail = [] then pure (int (intOf digits), rest)
    else pure (float (floats.read (digits ++ tail)), rest)

/-- The object of the pairs; the last of equal keys counts. -/
def dictOf (members : Fields) : Fields := members.foldl (fun f p => f.set p.1 p.2) []

mutual

def value : Nat → Text → Option (Json × Text)
  | 0, _ => none
  | _ + 1, [] => none
  | n + 1, c :: rest =>
    if c = '"' then do
      let (s, rest) ← scanString (rest.length + 1) rest
      pure (str (String.ofList s), rest)
    else if c = '\x7b' then
      if (skipBlanks rest).head? = some '\x7d' then some (obj [], (skipBlanks rest).tail)
      else do
        let (members, rest) ← membersFrom n (skipBlanks rest)
        pure (obj (dictOf members), rest)
    else if c = '[' then
      if (skipBlanks rest).head? = some ']' then some (arr [], (skipBlanks rest).tail)
      else do
        let (elems, rest) ← elemsFrom n (skipBlanks rest)
        pure (arr elems, rest)
    else if c = 'n' then literal "ull".toList null rest
    else if c = 't' then literal "rue".toList (bool true) rest
    else if c = 'f' then literal "alse".toList (bool false) rest
    else number floats (c :: rest)

/-- The elements up to the bracket that ends them. -/
def elemsFrom : Nat → Text → Option (List Json × Text)
  | 0, _ => none
  | n + 1, t => do
    let (a, t) ← value n t
    match skipBlanks t with
    | ',' :: t => do
      let (l, t) ← elemsFrom n (skipBlanks t)
      pure (a :: l, t)
    | ']' :: t => pure ([a], t)
    | _ => none

def membersFrom : Nat → Text → Option (Fields × Text)
  | 0, _ => none
  | n + 1, '"' :: t => do
    let (k, t) ← scanString (t.length + 1) t
    match skipBlanks t with
    | ':' :: t => do
      let (v, t) ← value n (skipBlanks t)
      match skipBlanks t with
      | ',' :: t => do
        let (l, t) ← membersFrom n (skipBlanks t)
        pure ((String.ofList k, v) :: l, t)
      | '\x7d' :: t => pure ([(String.ofList k, v)], t)
      | _ => none
    | _ => none
  | _ + 1, _ => none

end

/-- `json.loads`. -/
def loads (t : Text) : Option Json := do
  let (v, rest) ← value floats (t.length + 1) (skipBlanks t)
  if skipBlanks rest = [] then pure v else none

/-! ## Numbers -/

section Numbers

variable {t rest : Text} {n : Nat}

theorem span_digits (ht : ∀ c ∈ t, c.isDigit = true) (hrest : ∀ c ∈ rest.head?, c.isDigit = false) :
    (t ++ rest).span Char.isDigit = (t, rest) := by
  rw [List.span_eq_takeWhile_dropWhile, List.takeWhile_append_of_pos ht,
    List.dropWhile_append_of_pos ht]
  cases rest with
  | nil => simp
  | cons c rest => simp [hrest c rfl]

theorem EndsNumber.digit (h : EndsNumber rest) : ∀ c ∈ rest.head?, c.isDigit = false := by
  intro c hc
  rcases h c hc with rfl | rfl | rfl <;> rfl

theorem isDigit_of_mem (n : Nat) : ∀ c ∈ Nat.toDigits 10 n, c.isDigit = true :=
  fun _ hc => Nat.isDigit_of_mem_toDigits (by omega) (by omega) hc

/-- A number does not begin with a zero. -/
theorem head_toDigits (hn : 0 < n) : (Nat.toDigits 10 n).head? ≠ some '0' := by
  induction n using Nat.strongRecOn with
  | ind n ih =>
    rw [Nat.toDigits_eq_if (by omega)]
    split
    · rw [List.head?_cons, Ne, Option.some_inj, Nat.digitChar_eq_zero]
      omega
    · have hdiv : 0 < n / 10 := by omega
      rw [List.head?_append_of_ne_nil _ Nat.toDigits_ne_nil]
      exact ih (n / 10) (by omega) hdiv

theorem scanDigits_toDigits (n : Nat) (h : ∀ c ∈ rest.head?, c.isDigit = false) :
    scanDigits (Nat.toDigits 10 n ++ rest) = some (Nat.toDigits 10 n, rest) := by
  rw [scanDigits, span_digits (isDigit_of_mem n) h]
  rcases Nat.eq_zero_or_pos n with rfl | hn
  · rfl
  · have hhead := head_toDigits hn
    have hne : Nat.toDigits 10 n ≠ [] := Nat.toDigits_ne_nil
    generalize Nat.toDigits 10 n = digits at hhead hne
    split
    · next heq => cases heq; exact absurd rfl hne
    · next heq => cases heq; exact absurd rfl hhead
    · next heq => cases heq; rfl

/-- The sign and the digits of a number, whatever other part follows. -/
theorem scanNumber_digits (n : Int) (h : ∀ c ∈ rest.head?, c.isDigit = false) :
    scanNumber (intText n ++ rest) =
    some (intText n, (scanFraction rest).1 ++ (scanExponent (scanFraction rest).2).1,
      (scanExponent (scanFraction rest).2).2) := by
  have hdigits := scanDigits_toDigits n.natAbs h
  have hminus : scanMinus (Nat.toDigits 10 n.natAbs ++ rest) =
      ([], Nat.toDigits 10 n.natAbs ++ rest) := by
    have hne : Nat.toDigits 10 n.natAbs ≠ [] := Nat.toDigits_ne_nil
    have hall := isDigit_of_mem n.natAbs
    generalize Nat.toDigits 10 n.natAbs = digits at hne hall
    unfold scanMinus
    split
    · next heq =>
      cases digits with
      | nil => exact absurd rfl hne
      | cons c digits =>
        cases heq
        exact absurd (hall '-' List.mem_cons_self) (by decide)
    · rfl
  rw [scanNumber, intText]
  by_cases hn : n < 0
  · rw [if_pos hn, List.append_assoc, List.singleton_append, scanMinus]
    simp [hdigits]
  · rw [if_neg hn, List.nil_append, hminus]
    simp [hdigits]

theorem EndsNumber.fraction (h : EndsNumber rest) : scanFraction rest = ([], rest) := by
  unfold scanFraction
  split
  · rcases h '.' rfl with hc | hc | hc <;> exact absurd hc (by decide)
  · rfl

theorem EndsNumber.exponent (h : EndsNumber rest) : scanExponent rest = ([], rest) := by
  unfold scanExponent
  split
  · rfl
  · next c rest =>
    rw [if_neg]
    rintro (rfl | rfl) <;> rcases h _ rfl with hc | hc | hc <;> exact absurd hc (by decide)

theorem scanNumber_intText (n : Int) (h : EndsNumber rest) :
    scanNumber (intText n ++ rest) = some (intText n, [], rest) := by
  rw [scanNumber_digits n h.digit, h.fraction, h.exponent]
  rfl

theorem intOf_intText (n : Int) : intOf (intText n) = n := by
  unfold intText
  split
  · rw [List.singleton_append, intOf, Nat.ofDigitChars_ten_toDigits]
    omega
  · rw [List.nil_append, intOf, Nat.ofDigitChars_ten_toDigits]
    · omega
    · intro digits heq
      exact absurd (isDigit_of_mem n.natAbs '-' (heq ▸ List.mem_cons_self)) (by decide)

/-- The digits after the point: a whole number has a zero, another its denominator. -/
def ratioDigits (q : Rat) : Text := Nat.toDigits 10 (if q.den = 1 then 0 else q.den)

/-- Floats written as `1.0`, or as a numerator and a denominator. -/
def Floats.ratio : Floats where
  repr q := intText q.num ++ '.' :: ratioDigits q
  read t :=
    let den := Nat.ofDigitChars 10 ((t.dropWhile (· ≠ '.')).drop 1) 0
    mkRat (intOf (t.takeWhile (· ≠ '.'))) (if den = 0 then 1 else den)
  read_repr := by
    intro q
    have hplain : ∀ c ∈ intText q.num, decide (c ≠ '.') = true := by
      intro c hc
      rw [intText, List.mem_append] at hc
      rcases hc with hc | hc
      · split at hc
        · rw [List.mem_singleton.mp hc]
          decide
        · cases hc
      · rw [decide_eq_true_eq]
        rintro rfl
        exact absurd (isDigit_of_mem _ _ hc) (by decide)
    have hden : (if q.den = 1 then 1 else if q.den = 1 then 0 else q.den) = q.den := by
      split_ifs with h
      · exact h.symm
      · rfl
    rw [List.takeWhile_append_of_pos hplain, List.dropWhile_append_of_pos hplain]
    simp only [ratioDigits, intOf_intText, List.takeWhile_cons, List.dropWhile_cons,
      ne_eq, not_true_eq_false, decide_false,
      Bool.false_eq_true, if_false, List.append_nil, List.drop_succ_cons,
      List.drop_zero, Nat.ofDigitChars_ten_toDigits,
      ite_eq_left_iff]
    simp [hden, Rat.mkRat_self]
  scan_repr := by
    intro q rest hrest
    have hfraction : scanFraction ('.' :: (ratioDigits q ++ rest)) =
        ('.' :: ratioDigits q, rest) := by
      have hne : ratioDigits q ≠ [] := Nat.toDigits_ne_nil
      have hall : ∀ c ∈ ratioDigits q, c.isDigit = true := isDigit_of_mem _
      rw [scanFraction, span_digits hall hrest.digit]
      cases hdigits : ratioDigits q with
      | nil => exact absurd hdigits hne
      | cons c digits => rfl
    refine ⟨intText q.num, '.' :: ratioDigits q, List.cons_ne_nil _ _, rfl, ?_⟩
    rw [List.append_assoc, List.cons_append,
      scanNumber_digits q.num (by rintro c hc; cases hc; rfl), hfraction, hrest.exponent,
      List.append_nil]

theorem number_intText (n : Int) (h : EndsNumber rest) :
    number floats (intText n ++ rest) = some (int n, rest) := by
  rw [number, scanNumber_intText n h]
  simp [intOf_intText]

theorem number_float (q : Rat) (h : EndsNumber rest) :
    number floats (floats.repr q ++ rest) = some (float q, rest) := by
  obtain ⟨digits, tail, htail, hrepr, hscan⟩ := floats.scan_repr q rest h
  rw [number, hscan]
  simp [htail, ← hrepr, floats.read_repr]

end Numbers

/-! ## Strings -/

section Strings

variable {c : Char} {s rest : Text}

theorem hexValue_hexDigit : ∀ d < 16, hexValue (hexDigit d) = some d := by decide

theorem charOf_toNat (c : Char) : charOf c.toNat = some c := by
  rw [charOf, if_pos (show c.toNat.isValidChar from c.valid), Char.ofNat_toNat]

/-- A control character is read back from its number. -/
theorem scanUnicode_control (h : c.toNat < 32) :
    scanUnicode ('0' :: '0' :: hexDigit (c.toNat / 16) :: hexDigit (c.toNat % 16) :: rest) =
      some (c, rest) := by
  have hhigh := hexValue_hexDigit (c.toNat / 16) (by omega)
  have hlow := hexValue_hexDigit (c.toNat % 16) (by omega)
  have hzero : hexValue '0' = some 0 := by decide
  have hcode : c.toNat / 16 * 16 + c.toNat % 16 = c.toNat := by omega
  have hscan : scanHex ('0' :: '0' :: hexDigit (c.toNat / 16) :: hexDigit (c.toNat % 16) :: rest) =
      some (c.toNat, rest) := by
    simp [scanHex, hzero, hhigh, hlow, hcode]
  rw [scanUnicode, hscan]
  show (if 0xd800 ≤ c.toNat ∧ c.toNat ≤ 0xdbff ∧ rest.take 2 = ['\\', 'u'] then _ else _) = _
  rw [if_neg (by omega), charOf_toNat]
  rfl

/-- What a character is written as is that character again, or a backslash and an escape of it. -/
theorem escapeChar_spec (c : Char) :
    (escapeChar c = [c] ∧ c ≠ '"' ∧ c ≠ '\\' ∧ ¬ c.toNat < 32) ∨
    ∃ escape, escapeChar c = '\\' :: escape ∧ ∀ rest, scanEscape (escape ++ rest) =
      some (c, rest) := by
  unfold escapeChar
  split_ifs with h1 h2 h3 h4 h5 h6 h7 h8
  case neg => exact .inl ⟨rfl, h1, h2, h8⟩
  case pos => exact .inr ⟨_, rfl, fun rest => by subst h1; rfl⟩
  case pos => exact .inr ⟨_, rfl, fun rest => by subst h2; rfl⟩
  case pos => exact .inr ⟨_, rfl, fun rest => by subst h3; rfl⟩
  case pos => exact .inr ⟨_, rfl, fun rest => by subst h4; rfl⟩
  case pos => exact .inr ⟨_, rfl, fun rest => by subst h5; rfl⟩
  case pos => exact .inr ⟨_, rfl, fun rest => by subst h6; rfl⟩
  case pos => exact .inr ⟨_, rfl, fun rest => by subst h7; rfl⟩
  case pos => exact .inr ⟨_, rfl, fun rest => scanUnicode_control h8⟩

theorem scanString_escaped (s rest : Text) {n : Nat} (hn : s.length < n) :
    scanString n (s.flatMap escapeChar ++ '"' :: rest) = some (s, rest) := by
  induction s generalizing n with
  | nil =>
    obtain ⟨n, rfl⟩ : ∃ m, n = m + 1 := ⟨n - 1, by omega⟩
    rw [List.flatMap_nil, List.nil_append, scanString, if_pos rfl]
  | cons c s ih =>
    obtain ⟨n, rfl⟩ : ∃ m, n = m + 1 := ⟨n - 1, by omega⟩
    have hrest := @ih n (by simpa using hn)
    rw [List.flatMap_cons, List.append_assoc]
    rcases escapeChar_spec c with ⟨heq, hquote, hslash, hcontrol⟩ | ⟨escape, heq, hscan⟩
    · rw [heq, List.singleton_append, scanString, if_neg hquote, if_neg hslash,
        if_neg hcontrol, hrest]
      rfl
    · rw [heq, List.cons_append, scanString, if_neg (by decide), if_pos rfl, hscan]
      show (scanString n _).bind _ = _
      rw [hrest]
      rfl

theorem length_flatMap_escapeChar (s : Text) : s.length ≤ (s.flatMap escapeChar).length := by
  induction s with
  | nil => exact Nat.le_refl _
  | cons c s ih =>
    have hpos : 0 < (escapeChar c).length := by
      rcases escapeChar_spec c with ⟨heq, -⟩ | ⟨escape, heq, -⟩ <;> simp [heq]
    rw [List.flatMap_cons, List.length_append, List.length_cons]
    omega

/-- A string is read back, with the fuel that is left in the text. -/
theorem scanString_stringText (s : String) (rest : Text) :
    scanString ((s.toList.flatMap escapeChar ++ '"' :: rest).length + 1)
    (s.toList.flatMap escapeChar ++ '"' :: rest) =
      some (s.toList, rest) := by
  refine scanString_escaped s.toList rest ?_
  have := length_flatMap_escapeChar s.toList
  rw [List.length_append]
  omega

end Strings

/-! ## Values -/

mutual

/-- The keys of each object are distinct. -/
def DistinctKeys : Json → Prop
  | arr l => DistinctElems l
  | obj f => (f.map Prod.fst).Nodup ∧ DistinctMembers f
  | _ => True

def DistinctElems : List Json → Prop
  | [] => True
  | a :: l => DistinctKeys a ∧ DistinctElems l

def DistinctMembers : Fields → Prop
  | [] => True
  | (_, v) :: l => DistinctKeys v ∧ DistinctMembers l

end

section Values

variable {floats} {t rest : Text} {q : Rat} {n : Int} {v : Json} {l : List Json} {f g : Fields}

theorem set_new {k : String} (h : k ∉ f.map Prod.fst) (v : Json) :
    Fields.set f k v = f ++ [(k, v)] := by
  induction f with
  | nil => rfl
  | cons p f ih =>
    obtain ⟨hp, hf⟩ := List.ne_and_not_mem_of_not_mem_cons h
    rw [Fields.set, if_neg hp.symm, ih hf, List.cons_append]

theorem foldl_set (h : ((f ++ g).map Prod.fst).Nodup) :
    g.foldl (fun f p => Fields.set f p.1 p.2) f = f ++ g := by
  induction g generalizing f with
  | nil => exact (List.append_nil f).symm
  | cons p g ih =>
    have hsplit : f ++ p :: g = f ++ [p] ++ g := by simp
    rw [hsplit] at h ⊢
    have hnew : p.1 ∉ f.map Prod.fst := by
      rw [List.map_append, List.map_append, List.nodup_append, List.nodup_append] at h
      intro hmem
      exact h.1.2.2 _ hmem p.1 (by simp) rfl
    rw [List.foldl_cons, set_new hnew, ih h]

theorem dictOf_eq (h : (f.map Prod.fst).Nodup) : dictOf f = f := foldl_set (f := []) h

/-- The first character of a value: no blank, and none that ends something. -/
def StartsValue (t : Text) : Prop :=
  ∃ c rest, t = c :: rest ∧ c ≠ ' ' ∧ c ≠ '\t' ∧ c ≠ '\n' ∧ c ≠ '\r' ∧ c ≠ ']' ∧ c ≠ '\x7d'

theorem skipBlanks_cons {c : Char} (h : c ≠ ' ' ∧ c ≠ '\t' ∧ c ≠ '\n' ∧ c ≠ '\r') (t : Text) :
    skipBlanks (c :: t) = c :: t := by
  rw [skipBlanks, List.dropWhile_cons, if_neg]
  simp [h]

theorem StartsValue.skip (h : StartsValue t) (rest : Text) :
    skipBlanks (t ++ rest) = t ++ rest := by
  obtain ⟨c, t, rfl, h1, h2, h3, h4, -⟩ := h
  exact skipBlanks_cons ⟨h1, h2, h3, h4⟩ _

theorem StartsValue.head (h : StartsValue t) (rest : Text) :
    (t ++ rest).head? ≠ some ']' ∧ (t ++ rest).head? ≠ some '\x7d' := by
  obtain ⟨c, t, rfl, -, -, -, -, h5, h6⟩ := h
  exact ⟨fun heq => h5 (Option.some_inj.mp heq), fun heq => h6 (Option.some_inj.mp heq)⟩

/-- A number begins with a sign or a digit. -/
theorem head_of_scanNumber {t : Text} {out : Text × Text × Text} (h : scanNumber t = some out) :
    ∃ c rest, t = c :: rest ∧ (c = '-' ∨ c.isDigit = true) := by
  cases t with
  | nil => cases h
  | cons c t =>
    refine ⟨c, t, rfl, ?_⟩
    by_contra hc
    obtain ⟨hminus, hdigit⟩ := not_or.mp hc
    have hscan : scanMinus (c :: t) = ([], c :: t) := by
      unfold scanMinus
      split
      · next heq => cases heq; exact absurd rfl hminus
      · rfl
    have hdigits : scanDigits (c :: t) = none := by
      rw [scanDigits, List.span_eq_takeWhile_dropWhile, List.takeWhile_cons_of_neg hdigit]
    rw [scanNumber, hscan] at h
    simp [hdigits] at h

/-- A character that begins a number begins no other value. -/
structure BeginsNumber (c : Char) : Prop where
  quote : c ≠ '"'
  brace : c ≠ '\x7b'
  bracket : c ≠ '['
  word : c ≠ 'n' ∧ c ≠ 't' ∧ c ≠ 'f'
  blank : c ≠ ' ' ∧ c ≠ '\t' ∧ c ≠ '\n' ∧ c ≠ '\r'
  closing : c ≠ ']' ∧ c ≠ '\x7d'

theorem beginsNumber {c : Char} (h : c = '-' ∨ c.isDigit = true) : BeginsNumber c := by
  have hother : ∀ d : Char, d ≠ '-' ∧ d.isDigit = false → c ≠ d := by
    rintro d ⟨hminus, hdigit⟩ rfl
    rcases h with rfl | h
    · exact hminus rfl
    · rw [h] at hdigit
      cases hdigit
  exact {
    quote := hother _ (by decide)
    brace := hother _ (by decide)
    bracket := hother _ (by decide)
    word := ⟨hother _ (by decide), hother _ (by decide), hother _ (by decide)⟩
    blank := ⟨hother _ (by decide), hother _ (by decide), hother _ (by decide),
      hother _ (by decide)⟩
    closing := ⟨hother _ (by decide), hother _ (by decide)⟩ }

theorem BeginsNumber.starts {c : Char} (h : BeginsNumber c) (t : Text) : StartsValue (c :: t) :=
  ⟨c, t, rfl, h.blank.1, h.blank.2.1, h.blank.2.2.1, h.blank.2.2.2, h.closing.1, h.closing.2⟩

theorem BeginsNumber.value {c : Char} (h : BeginsNumber c) (fuel : Nat) (t : Text) :
    value floats (fuel + 1) (c :: t) = number floats (c :: t) := by
  rw [Json.value, if_neg h.quote, if_neg h.brace, if_neg h.bracket, if_neg h.word.1,
    if_neg h.word.2.1, if_neg h.word.2.2]

theorem intText_begins (n : Int) : ∃ c t, intText n = c :: t ∧ BeginsNumber c := by
  obtain ⟨c, t, h, hc⟩ :=
    head_of_scanNumber (scanNumber_intText n (show EndsNumber [] from fun _ h => by cases h))
  rw [List.append_nil] at h
  exact ⟨c, t, h, beginsNumber hc⟩

theorem repr_begins (floats : Floats) (q : Rat) :
    ∃ c t, floats.repr q = c :: t ∧ BeginsNumber c := by
  obtain ⟨digits, tail, -, -, hscan⟩ := floats.scan_repr q [] fun _ h => by cases h
  obtain ⟨c, t, h, hc⟩ := head_of_scanNumber hscan
  rw [List.append_nil] at h
  exact ⟨c, t, h, beginsNumber hc⟩

theorem dumps_starts (v : Json) : StartsValue (dumps floats v) := by
  have hstart : ∀ c t, c ≠ ' ' ∧ c ≠ '\t' ∧ c ≠ '\n' ∧ c ≠ '\r' ∧ c ≠ ']' ∧
      c ≠ '\x7d' → StartsValue (c :: t) :=
    fun c t h => ⟨c, t, rfl, h⟩
  cases v with
  | null => exact hstart _ _ (by decide)
  | bool b => cases b <;> exact hstart _ _ (by decide)
  | int n =>
    obtain ⟨c, t, h, hc⟩ := intText_begins n
    rw [dumps, h]
    exact hc.starts t
  | float q =>
    obtain ⟨c, t, h, hc⟩ := repr_begins floats q
    rw [dumps, h]
    exact hc.starts t
  | str s => exact hstart _ _ (by decide)
  | arr l => cases l <;> exact hstart _ _ (by decide)
  | obj f =>
    cases f with
    | nil => exact hstart _ _ (by decide)
    | cons p f => exact hstart _ _ (by decide)

theorem dumps_length_pos (v : Json) : 0 < (dumps floats v).length := by
  obtain ⟨c, t, h, -⟩ := @dumps_starts floats v
  rw [h]
  exact Nat.succ_pos _

/-- The elements, from the first one on. -/
def bodyText (floats : Floats) : List Json → Text
  | [] => [']']
  | a :: l => dumps floats a ++ dumpsElems floats l

def memberText (floats : Floats) : Fields → Text
  | [] => ['\x7d']
  | (k, v) :: l => stringText k.toList ++ ':' :: dumps floats v ++ dumpsMembers floats l

theorem endsNumber_cons {c : Char} (h : c = ',' ∨ c = ']' ∨ c = '\x7d') (t : Text) :
    EndsNumber (c :: t) := by
  intro d hd
  cases hd
  exact h

theorem literal_append (word : Text) (v : Json) (rest : Text) :
    literal word v (word ++ rest) = some (v, rest) := by
  rw [literal, List.take_left, if_pos rfl, List.drop_left]

theorem bodyText_starts {l : List Json} (h : l ≠ []) : StartsValue (bodyText floats l) := by
  cases l with
  | nil => exact absurd rfl h
  | cons a l =>
    obtain ⟨c, t, heq, hc⟩ := @dumps_starts floats a
    exact ⟨c, t ++ dumpsElems floats l, by rw [bodyText, heq, List.cons_append], hc⟩

theorem memberText_starts {f : Fields} (h : f ≠ []) : StartsValue (memberText floats f) := by
  cases f with
  | nil => exact absurd rfl h
  | cons p f => exact ⟨'"', _, rfl, by decide⟩

/-- After a value in an array or an object, something follows that ends a number. -/
theorem dumpsElems_ends (l : List Json) (rest : Text) :
    0 < (dumpsElems floats l).length ∧ EndsNumber (dumpsElems floats l ++ rest) := by
  cases l with
  | nil => exact ⟨Nat.succ_pos _, endsNumber_cons (by decide) _⟩
  | cons a l => exact ⟨Nat.succ_pos _, endsNumber_cons (by decide) _⟩

theorem dumpsMembers_ends (f : Fields) (rest : Text) :
    0 < (dumpsMembers floats f).length ∧ EndsNumber (dumpsMembers floats f ++ rest) := by
  cases f with
  | nil => exact ⟨Nat.succ_pos _, endsNumber_cons (by decide) _⟩
  | cons p f => exact ⟨Nat.succ_pos _, endsNumber_cons (by decide) _⟩

mutual

/-- **A value is read back from its text**, whatever ends a number may follow. -/
theorem value_dumps : ∀ (v : Json) (fuel : Nat) (rest : Text), DistinctKeys v →
    (dumps floats v).length ≤ fuel →
    EndsNumber rest → value floats fuel (dumps floats v ++ rest) = some (v, rest)
  | v, 0, _, _, hfuel, _ => absurd hfuel (Nat.not_le_of_lt (dumps_length_pos v))
  | null, fuel + 1, rest, _, _, _ => literal_append "ull".toList null rest
  | bool true, fuel + 1, rest, _, _, _ => literal_append "rue".toList (bool true) rest
  | bool false, fuel + 1, rest, _, _, _ => literal_append "alse".toList (bool false) rest
  | int n, fuel + 1, rest, _, _, hrest => by
    obtain ⟨c, t, h, hc⟩ := intText_begins n
    have hnumber := number_intText floats n hrest
    rw [h, List.cons_append] at hnumber
    rw [dumps, h, List.cons_append, hc.value, hnumber]
  | float q, fuel + 1, rest, _, _, hrest => by
    obtain ⟨c, t, h, hc⟩ := repr_begins floats q
    have hnumber := number_float floats q hrest
    rw [h, List.cons_append] at hnumber
    rw [dumps, h, List.cons_append, hc.value, hnumber]
  | str s, fuel + 1, rest, _, _, _ => by
    have htext : dumps floats (str s) ++ rest = '"' ::
        (s.toList.flatMap escapeChar ++ '"' :: rest) := by
      simp [dumps, stringText]
    rw [htext, value, if_pos rfl, scanString_stringText]
    simp
  | arr [], fuel + 1, rest, _, _, _ => rfl
  | arr (a :: l), fuel + 1, rest, hkeys, hfuel, _ => by
    have hbody : dumps floats (arr (a :: l)) ++ rest = '[' ::
        (bodyText floats (a :: l) ++ rest) := by
      simp [dumps, bodyText]
    have hstarts : StartsValue (bodyText floats (a :: l)) := bodyText_starts (List.cons_ne_nil _ _)
    rw [hbody, value, if_neg (by decide), if_neg (by decide), if_pos rfl,
      hstarts.skip, if_neg (hstarts.head rest).1,
      elemsFrom_body (a :: l) fuel rest hkeys (by simpa [dumps, bodyText] using hfuel)
      (List.cons_ne_nil _ _)]
    rfl
  | obj [], fuel + 1, rest, _, _, _ => rfl
  | obj ((k, v) :: f), fuel + 1, rest, hkeys, hfuel, _ => by
    have hbody : dumps floats (obj ((k, v) :: f)) ++ rest = '\x7b' ::
        (memberText floats ((k, v) :: f) ++ rest) := by
      simp [dumps, memberText]
    have hstarts : StartsValue (memberText floats ((k, v) :: f)) :=
      memberText_starts (List.cons_ne_nil _ _)
    rw [hbody, value, if_neg (by decide), if_pos rfl, hstarts.skip, if_neg (hstarts.head rest).2,
      membersFrom_body ((k, v) :: f) fuel rest hkeys.2 (by simpa [dumps, memberText] using hfuel)
      (List.cons_ne_nil _ _)]
    show some (obj (dictOf _), rest) = _
    rw [dictOf_eq hkeys.1]

theorem elemsFrom_body : ∀ (l : List Json) (fuel : Nat) (rest : Text), DistinctElems l →
    (bodyText floats l).length ≤ fuel →
    l ≠ [] → elemsFrom floats fuel (bodyText floats l ++ rest) = some (l, rest)
  | [], _, _, _, _, hne => absurd rfl hne
  | a :: l, 0, _, _, hfuel, _ => by
    have hpos := @dumps_length_pos floats a
    rw [bodyText, List.length_append] at hfuel
    omega
  | a :: l, fuel + 1, rest, hkeys, hfuel, _ => by
    obtain ⟨hlater, hends⟩ := @dumpsElems_ends floats l rest
    rw [bodyText, List.length_append] at hfuel
    rw [bodyText, List.append_assoc, elemsFrom, value_dumps a fuel _ hkeys.1 (by omega) hends]
    cases l with
    | nil => rfl
    | cons b l =>
      have hbody : dumpsElems floats (b :: l) = ',' :: bodyText floats (b :: l) := rfl
      have hstarts : StartsValue (bodyText floats (b :: l)) :=
        bodyText_starts (List.cons_ne_nil _ _)
      have hpos := @dumps_length_pos floats a
      rw [hbody, List.length_cons] at hfuel
      rw [hbody, List.cons_append]
      simp only [Option.bind_eq_bind, Option.bind_some,
        skipBlanks_cons (show ',' ≠ ' ' ∧ ',' ≠ '\t' ∧ ',' ≠ '\n' ∧ ',' ≠ '\r'
        by decide), hstarts.skip, elemsFrom_body (b :: l) fuel rest hkeys.2 (by omega)
        (List.cons_ne_nil _ _)]
      rfl

theorem membersFrom_body : ∀ (f : Fields) (fuel : Nat) (rest : Text), DistinctMembers f →
    (memberText floats f).length ≤ fuel →
    f ≠ [] → membersFrom floats fuel (memberText floats f ++ rest) = some (f, rest)
  | [], _, _, _, _, hne => absurd rfl hne
  | (k, v) :: f, 0, _, _, hfuel, _ => by
    simp [memberText, stringText] at hfuel
  | (k, v) :: f, fuel + 1, rest, hkeys, hfuel, _ => by
    obtain ⟨hlater, hends⟩ := @dumpsMembers_ends floats f rest
    have htext : memberText floats ((k, v) :: f) ++ rest =
        '"' :: (k.toList.flatMap escapeChar ++ '"' ::
          (':' :: (dumps floats v ++ (dumpsMembers floats f ++ rest)))) := by
      simp [memberText, stringText]
    have hstarts : StartsValue (dumps floats v) := dumps_starts v
    simp only [memberText, stringText, List.length_append, List.length_cons] at hfuel
    rw [htext, membersFrom, scanString_stringText]
    simp only [Option.bind_eq_bind, Option.bind_some,
      skipBlanks_cons (show ':' ≠ ' ' ∧ ':' ≠ '\t' ∧ ':' ≠ '\n' ∧ ':' ≠ '\r'
      by decide), hstarts.skip, value_dumps v fuel _ hkeys.1 (by omega) hends]
    cases f with
    | nil => simp [dumpsMembers, skipBlanks]
    | cons p f =>
      have hbody : dumpsMembers floats (p :: f) = ',' :: memberText floats (p :: f) := rfl
      have hstarts' : StartsValue (memberText floats (p :: f)) :=
        memberText_starts (List.cons_ne_nil _ _)
      rw [hbody, List.length_cons] at hfuel
      rw [hbody, List.cons_append]
      simp only [skipBlanks_cons (show ',' ≠ ' ' ∧ ',' ≠ '\t' ∧ ',' ≠ '\n' ∧ ',' ≠ '\r' by decide),
        hstarts'.skip,
        membersFrom_body (p :: f) fuel rest hkeys.2 (by omega) (List.cons_ne_nil _ _)]
      simp

end

/-- **A document is read back.** -/
theorem loads_dumps (v : Json) (h : DistinctKeys v) : loads floats (dumps floats v) = some v := by
  have hvalue := @value_dumps floats v ((dumps floats v).length + 1)
    [] h (Nat.le_succ _) fun _ hc => by cases hc
  rw [List.append_nil] at hvalue
  have hskip := (@dumps_starts floats v).skip []
  rw [List.append_nil] at hskip
  rw [loads, hskip, hvalue]
  rfl

end Values

end Json

end Lib
