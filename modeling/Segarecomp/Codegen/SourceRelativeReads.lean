import Segarecomp.Codegen.SourceRelative

/-! What a source-relative text says at a program counter: the tokens of a lowering, with an offset from the
symbol where a constant is. -/

namespace Segarecomp.SourceRelative

open CTokens (Text Token isWordChar isHex isSuffix digit isDigitIn digitsValue constant constantIn numeral readable Place)

/-! ## Literals as constants -/

theorem readDigits_eq {base value n : ℕ} {word suffix : Text} (is : readDigits base value word = some (n, suffix)) :
    (word.takeWhile (isDigitIn base)).foldl (fun value c => value * base + (digit base c).getD 0) value = n ∧
      word.dropWhile (isDigitIn base) = suffix := by
  induction word generalizing value with
  | nil =>
      cases is
      exact ⟨rfl, rfl⟩
  | cons c rest ih =>
      rw [readDigits] at is
      cases d : digit base c with
      | none =>
          have stop : ¬ isDigitIn base c = true := by simp [isDigitIn, d]
          rw [d] at is
          cases is
          rw [List.takeWhile_cons_of_neg stop, List.dropWhile_cons_of_neg stop]
          exact ⟨rfl, rfl⟩
      | some d' =>
          have go : isDigitIn base c = true := by simp [isDigitIn, d]
          rw [d, Option.elim_some] at is
          split_ifs at is
          rw [List.takeWhile_cons_of_pos go, List.dropWhile_cons_of_pos go, List.foldl_cons, d]
          exact ih is

theorem readDigits_le {base value n : ℕ} {word suffix : Text} (le : value ≤ 0xFFFFFFFF)
    (is : readDigits base value word = some (n, suffix)) : n ≤ 0xFFFFFFFF := by
  induction word generalizing value with
  | nil =>
      cases is
      exact le
  | cons c rest ih =>
      rw [readDigits] at is
      cases d : digit base c with
      | none =>
          rw [d] at is
          cases is
          exact le
      | some d' =>
          rw [d, Option.elim_some] at is
          split_ifs at is with wide
          exact ih (Nat.le_of_not_lt wide) is

theorem constantIn_of_readDigits {base n : ℕ} {body suffix : Text} (is : readDigits base 0 body = some (n, suffix))
    (some_digit : suffix.length ≠ body.length) (letters : suffix.all isSuffix = true) : constantIn base body = some n := by
  obtain ⟨value, dropped⟩ := readDigits_eq is
  have digits : body.takeWhile (isDigitIn base) ≠ [] := by
    intro empty
    apply some_digit
    calc suffix.length = (body.takeWhile (isDigitIn base) ++ suffix).length := by rw [empty, List.nil_append]
      _ = body.length := by rw [← dropped, List.takeWhile_append_dropWhile]
  rw [constantIn, dropped, if_pos ⟨digits, letters⟩, digitsValue, value]

/-- A literal is a numeral of at most 32 bits. -/
theorem numeral_of_parseLiteral {word : Text} {literal : Literal} (is : parseLiteral word = some literal) :
    numeral word = some literal.value ∧ literal.value < 2 ^ 32 := by
  have body : ∀ base body, ((readDigits base 0 body).bind fun read =>
      if read.2.length = body.length then none
      else if read.2.all isSuffix then some (Literal.mk read.1 read.2) else none) = some literal →
      constantIn base body = some literal.value ∧ literal.value < 2 ^ 32 := by
    intro base body bound
    obtain ⟨⟨n, suffix⟩, read, rest⟩ := Option.bind_eq_some_iff.mp bound
    dsimp only at rest
    split_ifs at rest with none_read letters
    cases rest
    exact ⟨constantIn_of_readDigits read none_read letters,
      Nat.lt_of_le_of_lt (readDigits_le (Nat.zero_le _) read) (by decide)⟩
  rw [parseLiteral] at is
  rw [numeral]
  split_ifs at is ⊢
  · exact body _ _ is
  · exact body _ _ is

/-- The literal of a word that means `x` modulo 2^32 is a constant that does, unless its leading zero makes
it octal. -/
theorem constant_literal_iff {word suffix : Text} {value : ℕ} {x : BitVec 32}
    (is : parseLiteral word = some ⟨value, suffix⟩) (means : BitVec.ofNat 32 value = x) :
    (∃ n, constant word = some n ∧ BitVec.ofNat 32 n = x) ↔ readable word = true := by
  obtain ⟨numeral, bound⟩ := numeral_of_parseLiteral is
  obtain ⟨forward, backward⟩ := CTokens.constant_of_numeral numeral
  constructor
  · rintro ⟨n, read, same⟩
    obtain ⟨le, equal⟩ := backward n read
    have modulo : n % 2 ^ 32 = value % 2 ^ 32 := by
      rw [← BitVec.toNat_ofNat, ← BitVec.toNat_ofNat, same, means]
    rw [Nat.mod_eq_of_lt bound, Nat.mod_eq_of_lt (Nat.lt_of_le_of_lt le bound)] at modulo
    exact equal modulo
  · intro plain
    exact ⟨value, forward plain, means⟩

/-! ## The reading -/

def macroToken : Token := ⟨macroName, true⟩

def opening : Token := ⟨['('], false⟩

def closing : Token := ⟨[')'], false⟩

/-- `(uint32_t)(<symbol> + UINT32_C(<offset>))` -/
def relative (symbol offset : Text) : Text :=
  ['(', 'u', 'i', 'n', 't', '3', '2', '_', 't', ')', '('] ++ symbol ++ [' ', '+', ' '] ++ macroCall ++ offset ++ [')', ')']

/-- A constant has the value of the counter and an offset, modulo 2^32. -/
def Means (pc : BitVec 32) (word offset : Text) : Prop :=
  ∃ n d, constant word = some n ∧ constant offset = some d ∧ BitVec.ofNat 32 n = pc + BitVec.ofNat 32 d

/-- The next token is a point. -/
def point (rest : List Token) : Bool := rest.head?.any (·.text == ['.'])

/-- `Reads symbol pc place tokens out`: when `pc` stands for `symbol`, `out` is the text of the tokens, each
the same but constants of the program that have the same value. -/
inductive Reads (symbol : Text) (pc : BitVec 32) : Place → List Token → Text → Prop
  | done (place : Place) : Reads symbol pc place [] []
  | kept {place : Place} {t : Token} {rest : List Token} {out : Text} (other : t.text ≠ symbol)
      (reads : Reads symbol pc (place.read t) rest out) : Reads symbol pc place (t :: rest) (t.text ++ out)
  | literal {place : Place} {t : Token} {rest : List Token} {offset out : Text} (free : place.free = true)
      (whole : point rest = false) (means : Means pc t.text offset) (reads : Reads symbol pc (place.read t) rest out) :
      Reads symbol pc place (t :: rest) (relative symbol offset ++ out)
  | call {place : Place} {t : Token} {rest : List Token} {offset out : Text}
      (other : macroToken.text ≠ symbol ∧ opening.text ≠ symbol ∧ closing.text ≠ symbol)
      (free : ((place.read macroToken).read opening).free = true) (means : Means pc t.text offset)
      (reads : Reads symbol pc ((((place.read macroToken).read opening).read t).read closing) rest out) :
      Reads symbol pc place (macroToken :: opening :: t :: closing :: rest) (relative symbol offset ++ out)

/-! ## The offset that is put out -/

theorem digit_hexDigit {n : ℕ} (lt : n < 16) : digit 16 (IntegerText.hexDigit n) = some n := by
  revert n
  decide

theorem digit_hexText {digits value : ℕ} {c : Char} (is : c ∈ IntegerText.hexText digits value) :
    digit 16 c = some (IntegerText.digitValue c) := by
  obtain ⟨i, -, rfl⟩ := List.mem_map.mp is
  have lt : value / 16 ^ i % 16 < 16 := Nat.mod_lt _ (by decide)
  rw [digit_hexDigit lt, IntegerText.digitValue_hexDigit lt]

/-- The hexadecimal digits that are put out are a constant of the same value. -/
theorem constant_hex8 (v : BitVec 32) : constant (['0', 'x'] ++ hex8 v) = some v.toNat := by
  have all : ∀ c ∈ hex8 v, isDigitIn 16 c = true := by
    intro c is
    rw [isDigitIn, digit_hexText is]
    rfl
  have taken : (hex8 v).takeWhile (isDigitIn 16) = hex8 v := List.takeWhile_eq_self_iff.mpr all
  have dropped : (hex8 v).dropWhile (isDigitIn 16) = [] := List.dropWhile_eq_nil_iff.mpr all
  have eight : (hex8 v).length = 8 := IntegerText.length_hexText 8 v.toNat
  have some_digit : hex8 v ≠ [] := by
    intro empty
    rw [empty] at eight
    cases eight
  have hex : isHex (['0', 'x'] ++ hex8 v) = true := by
    rw [isHex, List.length_append, eight]
    rfl
  have value : digitsValue 16 (hex8 v) = v.toNat := by
    calc digitsValue 16 (hex8 v) = IntegerText.readHex (hex8 v) := by
          apply List.foldl_ext
          intro n c is
          rw [digit_hexText is, Option.getD_some]
      _ = v.toNat % 16 ^ 8 := IntegerText.readHex_hexText 8 v.toNat
      _ = v.toNat := Nat.mod_eq_of_lt v.isLt
  have body : (['0', 'x'] ++ hex8 v).drop 2 = hex8 v := rfl
  rw [constant, if_pos hex, body, constantIn, taken, dropped, if_pos ⟨some_digit, rfl⟩, value]

theorem expression_eq (symbol : Text) (delta : BitVec 32) :
    expression symbol delta = relative symbol (['0', 'x'] ++ hex8 delta) := by
  simp [expression, relative]

theorem means_hex8_iff {pc delta : BitVec 32} {word : Text} :
    Means pc word (['0', 'x'] ++ hex8 delta) ↔ ∃ n, constant word = some n ∧ BitVec.ofNat 32 n = pc + delta := by
  constructor
  · rintro ⟨n, d, read, offset, equal⟩
    rw [constant_hex8] at offset
    cases offset
    exact ⟨n, read, by rw [equal, BitVec.ofNat_toNat, BitVec.setWidth_eq]⟩
  · rintro ⟨n, read, equal⟩
    exact ⟨n, delta.toNat, read, constant_hex8 delta, by rw [equal, BitVec.ofNat_toNat, BitVec.setWidth_eq]⟩

/-! ## What a reading is made of -/

variable {symbol : Text} {pc : BitVec 32} {place : Place} {t : Token} {rest : List Token} {offset out : Text}

theorem relative_append (symbol offset out : Text) :
    relative symbol offset ++ out = '(' :: (['u', 'i', 'n', 't', '3', '2', '_', 't', ')', '('] ++ symbol ++ [' ', '+', ' '] ++
      macroCall ++ (offset ++ ')' :: ')' :: out)) := by
  simp [relative]

theorem relative_inj {offset' out' : Text} (word : ∀ c ∈ offset, isWordChar c = true)
    (word' : ∀ c ∈ offset', isWordChar c = true) (same : relative symbol offset ++ out = relative symbol offset' ++ out') :
    offset = offset' ∧ out = out' := by
  rw [relative_append, relative_append, List.cons_inj_right, List.append_cancel_left_eq] at same
  have stops : ∀ (o x : Text), (∀ c ∈ o, isWordChar c = true) →
      (o ++ ')' :: ')' :: x).takeWhile isWordChar = o ∧ (o ++ ')' :: ')' :: x).dropWhile isWordChar = ')' :: ')' :: x := by
    intro o x all
    constructor
    · rw [List.takeWhile_append_of_pos all, List.takeWhile_cons_of_neg (by decide), List.append_nil]
    · rw [List.dropWhile_append_of_pos all, List.dropWhile_cons_of_neg (by decide)]
  have offsets : offset = offset' := by
    rw [← (stops offset out word).1, same, (stops offset' out' word').1]
  have outs : ')' :: ')' :: out = ')' :: ')' :: out' := by
    rw [← (stops offset out word).2, same, (stops offset' out' word').2]
  exact ⟨offsets, by simpa using outs⟩

theorem Means.head (means : Means pc t.text offset) : ∃ c word, t.text = c :: word ∧ c.isDigit = true := by
  obtain ⟨n, d, read, -, -⟩ := means
  exact CTokens.constant_head read

theorem Means.word (means : Means pc t.text offset) : ∀ c ∈ offset, isWordChar c = true := by
  obtain ⟨n, d, -, read, -⟩ := means
  exact fun c is => CTokens.isWordChar_of_constant (CTokens.constant_chars read c is)

theorem reads_kept_iff (nonempty : t.text ≠ []) :
    Reads symbol pc place (t :: rest) (t.text ++ out) ↔ t.text ≠ symbol ∧ Reads symbol pc (place.read t) rest out := by
  constructor
  · intro reads
    generalize same : t.text ++ out = whole at reads
    cases reads with
    | kept other reads =>
        rw [List.append_cancel_left same]
        exact ⟨other, reads⟩
    | literal free whole means reads =>
        obtain ⟨c, word, is, digit⟩ := means.head
        rw [is, relative_append] at same
        rw [(List.cons.inj same).1] at digit
        exact absurd digit (by decide)
    | call other free means reads =>
        rw [relative_append] at same
        exact absurd (List.cons.inj same).1 (by decide)
  · rintro ⟨other, reads⟩
    exact .kept other reads

theorem reads_literal_iff {c : Char} {word : Text} (digit : c.isDigit = true) (is : t.text = c :: word)
    (letters : ∀ c ∈ offset, isWordChar c = true) :
    Reads symbol pc place (t :: rest) (relative symbol offset ++ out) ↔
      place.free = true ∧ point rest = false ∧ Means pc t.text offset ∧ Reads symbol pc (place.read t) rest out := by
  constructor
  · intro reads
    generalize same : relative symbol offset ++ out = whole at reads
    cases reads with
    | kept other reads =>
        rw [is, relative_append] at same
        rw [← (List.cons.inj same).1] at digit
        exact absurd digit (by decide)
    | literal free whole means reads =>
        obtain ⟨rfl, rfl⟩ := relative_inj letters means.word same
        exact ⟨free, whole, means, reads⟩
    | call other free means reads =>
        rw [← (List.cons.inj is).1] at digit
        exact absurd digit (by decide)
  · rintro ⟨free, whole, means, reads⟩
    exact .literal free whole means reads

theorem reads_call_iff (letters : ∀ c ∈ offset, isWordChar c = true) :
    Reads symbol pc place (macroToken :: opening :: t :: closing :: rest) (relative symbol offset ++ out) ↔
      (macroToken.text ≠ symbol ∧ opening.text ≠ symbol ∧ closing.text ≠ symbol) ∧
        ((place.read macroToken).read opening).free = true ∧ Means pc t.text offset ∧
        Reads symbol pc ((((place.read macroToken).read opening).read t).read closing) rest out := by
  constructor
  · intro reads
    generalize same : relative symbol offset ++ out = whole at reads
    cases reads with
    | kept other reads =>
        rw [relative_append] at same
        exact absurd (List.cons.inj same).1 (by decide)
    | literal free whole means reads =>
        obtain ⟨c, word, is, digit⟩ := means.head
        rw [← (List.cons.inj is).1] at digit
        exact absurd digit (by decide)
    | call other free means reads =>
        obtain ⟨rfl, rfl⟩ := relative_inj letters means.word same
        exact ⟨other, free, means, reads⟩
  · rintro ⟨other, free, means, reads⟩
    exact .call other free means reads

/-- An offset does not stand for the end of a longer name. -/
theorem not_reads_part {front : Text} (some_letter : front ≠ []) (is : t.text = front ++ macroName) :
    ¬ Reads symbol pc place (t :: rest) (front ++ (relative symbol offset ++ out)) := by
  intro reads
  generalize same : front ++ (relative symbol offset ++ out) = whole at reads
  cases reads with
  | kept other reads =>
      rw [is, List.append_assoc, List.append_cancel_left_eq, relative_append] at same
      exact absurd (List.cons.inj same).1 (by decide)
  | literal free whole means reads =>
      obtain ⟨c, word, head, digit⟩ := means.head
      obtain ⟨d, front', rfl⟩ := List.exists_cons_of_ne_nil some_letter
      have first : d = c := by
        rw [is, List.cons_append] at head
        exact (List.cons.inj head).1
      rw [← first] at digit
      rw [relative_append, relative_append, List.cons_append] at same
      rw [(List.cons.inj same).1] at digit
      exact absurd digit (by decide)
  | call other free means reads =>
      exact some_letter (List.self_eq_append_left.mp is)

theorem reads_append_iff {pend : List Token} (nonempty : ∀ t ∈ pend, t.text ≠ []) :
    Reads symbol pc place (pend ++ rest) (Words.text pend ++ out) ↔
      (∀ t ∈ pend, t.text ≠ symbol) ∧ Reads symbol pc (pend.foldl Place.read place) rest out := by
  induction pend generalizing place with
  | nil => simp
  | cons t pend ih =>
      have first := nonempty t List.mem_cons_self
      have later := fun u is => nonempty u (List.mem_cons_of_mem t is)
      rw [Words.text_cons, List.append_assoc, List.cons_append, reads_kept_iff first, ih later, List.forall_mem_cons,
        List.foldl_cons, and_assoc]

theorem reads_done_iff : Reads symbol pc place [] out ↔ out = [] := by
  constructor
  · intro reads
    cases reads
    rfl
  · rintro rfl
    exact .done place

end Segarecomp.SourceRelative
