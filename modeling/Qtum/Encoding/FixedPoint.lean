import Mathlib.Data.Nat.Digits.Lemmas
import Mathlib.Data.Rat.Cast.Lemmas
import Mathlib.Algebra.Order.Ring.Abs
import Qtum.Primitives.Blob

/-! `ParseFixedPoint` of `utilstrencodings.cpp`: a number in JSON syntax read
as a fixed-point amount with `decimals` places. The mantissa keeps its
trailing zeros apart (`ProcessMantissaDigit`) until the exponent is known, so
a digit string overflows only if its digits without those zeros do. The
characters are those before `end`, the string's size held in an `int`. -/
namespace Qtum.FixedPoint

def UPPER_BOUND : Int := 1000000000000000000 - 1

/-- The loop of `ProcessMantissaDigit`, run `count` times. -/
def timesTen : Nat → Int → Option Int
  | 0, mantissa => some mantissa
  | count + 1, mantissa =>
    if mantissa > UPPER_BOUND / 10 then none else timesTen count (mantissa * 10)

def ProcessMantissaDigit (ch : Char) (mantissa : Int) (mantissa_tzeros : Nat) : Option (Int × Nat) :=
  if ch = '0' then some (mantissa,mantissa_tzeros + 1)
  else (timesTen (mantissa_tzeros + 1) mantissa).map
    fun mantissa => (mantissa + ((ch.toNat : Int) - ('0'.toNat : Int)),0)

/-- `val[ptr] >= '0' && val[ptr] <= '9'`. -/
def isDigit (ch : Char) : Bool := '0' ≤ ch && ch ≤ '9'

/-- The digit loops of the integer part and of the fraction, which also count
the digits they read (`point_ofs` in the fraction); the characters left. -/
def mantissaDigits : List Char → Int → Nat → Nat → Option (Int × Nat × Nat × List Char)
  | [], mantissa, mantissa_tzeros, count => some (mantissa,mantissa_tzeros,count,[])
  | ch :: val, mantissa, mantissa_tzeros, count =>
    if isDigit ch then
      match ProcessMantissaDigit ch mantissa mantissa_tzeros with
      | none => none
      | some (mantissa,mantissa_tzeros) => mantissaDigits val mantissa mantissa_tzeros (count + 1)
    else some (mantissa,mantissa_tzeros,count,ch :: val)

/-- The digit loop of the exponent. -/
def exponentDigits : List Char → Int → Option (Int × List Char)
  | [], exponent => some (exponent,[])
  | ch :: val, exponent =>
    if isDigit ch then
      if exponent > UPPER_BOUND / 10 then none
      else exponentDigits val (exponent * 10 + (ch.toNat : Int) - ('0'.toNat : Int))
    else some (exponent,ch :: val)

/-- The loop that scales the signed mantissa, run `count` times; unlike
`timesTen` it checks both signs. -/
def scaleMantissa : Nat → Int → Option Int
  | 0, mantissa => some mantissa
  | count + 1, mantissa =>
    if mantissa > UPPER_BOUND / 10 ∨ mantissa < -(UPPER_BOUND / 10) then none
    else scaleMantissa count (mantissa * 10)

def readSign : List Char → Bool × List Char
  | '-' :: val => (true,val)
  | val => (false,val)

/-- The integer part: a single `0`, or a digit from `1` to `9` and the digits
after it. -/
def readWhole : List Char → Option (Int × Nat × List Char)
  | [] => none
  | ch :: val =>
    if ch = '0' then some (0,0,val)
    else if '1' ≤ ch ∧ ch ≤ '9' then
      (mantissaDigits (ch :: val) 0 0 0).map fun (mantissa,mantissa_tzeros,_,val) => (mantissa,mantissa_tzeros,val)
    else none

/-- The fraction: after `.`, at least one digit. -/
def readFraction (val : List Char) (mantissa : Int) (mantissa_tzeros : Nat) :
    Option (Int × Nat × Nat × List Char) :=
  match val with
  | '.' :: ch :: val => if isDigit ch then mantissaDigits (ch :: val) mantissa mantissa_tzeros 0 else none
  | ['.'] => none
  | val => some (mantissa,mantissa_tzeros,0,val)

/-- The sign after `e` or `E`: `+`, `-` or none; true for `-`. -/
def readExponentSign : List Char → Bool × List Char
  | '+' :: val => (false,val)
  | '-' :: val => (true,val)
  | val => (false,val)

/-- At least one digit, then the digit loop of the exponent. -/
def readExponentDigits : List Char → Option (Int × List Char)
  | ch :: val => if isDigit ch then exponentDigits (ch :: val) 0 else none
  | [] => none

/-- The exponent: after `e` or `E`, a sign or none, and its digits. -/
def readExponent : List Char → Option (Bool × Int × List Char)
  | [] => some (false,0,[])
  | e :: val =>
    if e = 'e' ∨ e = 'E' then
      let (exponent_sign,val) := readExponentSign val
      (readExponentDigits val).map fun (exponent,val) => (exponent_sign,exponent,val)
    else some (false,0,e :: val)

/-- The exponent and the mantissa put together and scaled to `decimals`. -/
def finish (mantissa_sign exponent_sign : Bool) (mantissa exponent : Int) (mantissa_tzeros point_ofs : Nat)
    (decimals : Int) : Option Int :=
  let exponent := (if exponent_sign then -exponent else exponent) - point_ofs + mantissa_tzeros
  let mantissa := if mantissa_sign then -mantissa else mantissa
  let exponent := exponent + decimals
  if exponent < 0 then none
  else if exponent ≥ 18 then none
  else (scaleMantissa exponent.toNat mantissa).bind fun mantissa =>
    if mantissa > UPPER_BOUND ∨ mantissa < -UPPER_BOUND then none else some mantissa

/-- The body of `ParseFixedPoint` on the characters before `end`; the amount
it writes when it returns true. -/
def parseChars (val : List Char) (decimals : Int) : Option Int := do
  let (mantissa_sign,val) := readSign val
  let (mantissa,mantissa_tzeros,val) ← readWhole val
  let (mantissa,mantissa_tzeros,point_ofs,val) ← readFraction val mantissa mantissa_tzeros
  let (exponent_sign,exponent,val) ← readExponent val
  -- trailing garbage
  if val ≠ [] then none
  else finish mantissa_sign exponent_sign mantissa exponent mantissa_tzeros point_ofs decimals

def ParseFixedPoint (val : List Char) (decimals : Int) : Option Int :=
  -- `int end = val.size()`: the size taken mod 2^32 as a signed 32-bit number
  let endPos := toSigned 32 (val.length % 2 ^ 32)
  parseChars (if endPos < 0 then [] else val.take endPos.toNat) decimals

/-! ### Digits -/

/-- The characters after a run of digits: none, or one that is not a digit. -/
def NoDigitHead (val : List Char) : Prop := ∀ ch ∈ val.head?, isDigit ch = false

theorem isDigit_iff {ch : Char} : isDigit ch = true ↔ 48 ≤ ch.toNat ∧ ch.toNat ≤ 57 := by
  simp only [isDigit,Bool.and_eq_true,decide_eq_true_eq,Char.le_def,UInt32.le_iff_toNat_le]
  rfl

theorem isDigit_digitChar : ∀ d, d < 10 → isDigit (Nat.digitChar d) = true := by decide

theorem digitChar_toNat_sub {ch : Char} (digit : isDigit ch = true) : Nat.digitChar (ch.toNat - 48) = ch := by
  have range := isDigit_iff.mp digit
  apply Char.toNat_inj.mp
  rw [Nat.toNat_digitChar_of_lt_ten (by omega)]
  omega

/-- Every string is a run of digits and the characters after it. -/
theorem digits_prefix (val : List Char) :
    ∃ (ds : List Nat) (rest : List Char), val = ds.map Nat.digitChar ++ rest ∧ (∀ d ∈ ds, d < 10) ∧ NoDigitHead rest := by
  induction val with
  | nil => exact ⟨[],[],rfl,by simp,by simp [NoDigitHead]⟩
  | cons ch val ih =>
    by_cases digit : isDigit ch = true
    · obtain ⟨ds,rest,split,small,stop⟩ := ih
      have range := isDigit_iff.mp digit
      refine ⟨(ch.toNat - 48) :: ds,rest,?_,?_,stop⟩
      · rw [List.map_cons,digitChar_toNat_sub digit,split,List.cons_append]
      · intro d member
        rcases List.mem_cons.mp member with rfl | rest
        · omega
        · exact small d rest
    · exact ⟨[],ch :: val,rfl,by simp,by simpa [NoDigitHead] using digit⟩

/-! ### Deferred zeros -/

/-- Digits read most significant first. -/
def decimalValue (digits : List Nat) : Nat := Nat.ofDigits 10 digits.reverse

theorem decimalValue_append (xs ys : List Nat) :
    decimalValue (xs ++ ys) = decimalValue xs * 10 ^ ys.length + decimalValue ys := by
  simp only [decimalValue,List.reverse_append,Nat.ofDigits_append,List.length_reverse]
  ring

theorem decimalValue_append_singleton (digits : List Nat) (d : Nat) :
    decimalValue (digits ++ [d]) = decimalValue digits * 10 + d := by
  rw [decimalValue_append]
  simp [decimalValue]

theorem decimalValue_zero_cons (digits : List Nat) : decimalValue (0 :: digits) = decimalValue digits := by
  simp [decimalValue]

/-- `ProcessMantissaDigit` with no overflow check: the digits read so far
without their trailing zeros, and the number of those zeros. -/
def deferZeros : Nat × Nat → Nat → Nat × Nat
  | (mantissa,mantissa_tzeros), 0 => (mantissa,mantissa_tzeros + 1)
  | (mantissa,mantissa_tzeros), digit + 1 => (mantissa * 10 ^ (mantissa_tzeros + 1) + (digit + 1),0)

def deferred (digits : List Nat) : Nat × Nat := digits.foldl deferZeros (0,0)

@[simp] theorem deferred_nil : deferred [] = (0,0) := rfl

theorem deferred_append_singleton (digits : List Nat) (d : Nat) :
    deferred (digits ++ [d]) = deferZeros (deferred digits) d := by
  simp [deferred]

/-- The zeros held back are only postponed: the pair stands for the digits' value. -/
theorem deferred_value (digits : List Nat) :
    (deferred digits).1 * 10 ^ (deferred digits).2 = decimalValue digits := by
  induction digits using List.reverseRecOn with
  | nil => rfl
  | append_singleton digits d ih =>
    rw [deferred_append_singleton,decimalValue_append_singleton,← ih]
    obtain ⟨mantissa,mantissa_tzeros⟩ := deferred digits
    cases d with
    | zero => simp only [deferZeros,pow_succ]; ring
    | succ d => simp only [deferZeros,pow_succ]; ring

theorem deferred_le_append (xs ys : List Nat) : (deferred xs).1 ≤ (deferred (xs ++ ys)).1 := by
  induction ys generalizing xs with
  | nil => simp
  | cons d ys ih =>
    have step : (deferred xs).1 ≤ (deferred (xs ++ [d])).1 := by
      rw [deferred_append_singleton]
      obtain ⟨mantissa,mantissa_tzeros⟩ := deferred xs
      cases d with
      | zero => simp [deferZeros]
      | succ d =>
        simp only [deferZeros]
        nlinarith [Nat.one_le_pow (mantissa_tzeros + 1) 10 (by norm_num)]
    have later := ih (xs ++ [d])
    rw [List.append_assoc,List.singleton_append] at later
    exact le_trans step later

/-- A mantissa with its zeros held back ends in a non-zero digit. -/
theorem deferred_not_dvd (digits : List Nat) (small : ∀ d ∈ digits, d < 10) :
    (deferred digits).1 = 0 ∨ ¬ 10 ∣ (deferred digits).1 := by
  induction digits using List.reverseRecOn with
  | nil => simp
  | append_singleton digits d ih =>
    have before := ih fun x member => small x (List.mem_append_left _ member)
    have last : d < 10 := small d (by simp)
    rw [deferred_append_singleton]
    generalize deferred digits = state at before ⊢
    obtain ⟨mantissa,mantissa_tzeros⟩ := state
    cases d with
    | zero => simpa only [deferZeros] using before
    | succ d =>
      right
      have tens : 10 ∣ mantissa * 10 ^ (mantissa_tzeros + 1) := Dvd.dvd.mul_left (dvd_pow_self 10 (by omega)) _
      simp only [deferZeros]
      rw [Nat.dvd_add_right tens]
      omega

/-! ### The loops -/

theorem UPPER_BOUND_eq : UPPER_BOUND = 999999999999999999 := rfl

theorem UPPER_BOUND_div_ten : UPPER_BOUND / 10 = 99999999999999999 := by decide

/-- On a mantissa that is not negative, the one-sided check of
`ProcessMantissaDigit` is the two-sided one of the final scaling. -/
theorem timesTen_eq_scaleMantissa (count : Nat) {mantissa : Int} (nonneg : 0 ≤ mantissa) :
    timesTen count mantissa = scaleMantissa count mantissa := by
  induction count generalizing mantissa with
  | zero => rfl
  | succ count ih =>
    have positive : ¬ mantissa < -(UPPER_BOUND / 10) := by rw [UPPER_BOUND_div_ten]; omega
    simp only [timesTen,scaleMantissa,positive,or_false]
    split
    · rfl
    · exact ih (by omega)

/-- Every multiplication passes its check exactly when the last one does. -/
theorem scaleMantissa_succ (count : Nat) (mantissa : Int) :
    scaleMantissa (count + 1) mantissa =
      if |mantissa| * 10 ^ count ≤ UPPER_BOUND / 10 then some (mantissa * 10 ^ (count + 1)) else none := by
  induction count generalizing mantissa with
  | zero =>
    have inside : ¬ (mantissa > UPPER_BOUND / 10 ∨ mantissa < -(UPPER_BOUND / 10)) ↔ |mantissa| ≤ UPPER_BOUND / 10 := by
      rw [abs_le]; omega
    simp only [scaleMantissa,pow_zero,mul_one,zero_add,pow_one]
    by_cases fits : |mantissa| ≤ UPPER_BOUND / 10
    · rw [if_neg (inside.mpr fits),if_pos fits]
    · rw [if_pos (not_not.mp (mt inside.mp fits)),if_neg fits]
  | succ count ih =>
    have grown : |mantissa| ≤ |mantissa| * 10 ^ (count + 1) :=
      le_mul_of_one_le_right (abs_nonneg _) (one_le_pow₀ (by norm_num))
    rw [scaleMantissa]
    by_cases inside : mantissa > UPPER_BOUND / 10 ∨ mantissa < -(UPPER_BOUND / 10)
    · have outside : ¬ |mantissa| * 10 ^ (count + 1) ≤ UPPER_BOUND / 10 := by
        have : UPPER_BOUND / 10 < |mantissa| := by rw [lt_abs]; omega
        omega
      rw [if_pos inside,if_neg outside]
    · rw [if_neg inside,ih,abs_mul,abs_of_pos (show (0 : Int) < 10 by norm_num)]
      simp only [pow_succ]
      ring_nf

/-- The final scaling and its range check together: the scaled mantissa, if
it fits `UPPER_BOUND`. -/
theorem scaleMantissa_checked (count : Nat) (mantissa : Int) :
    ((scaleMantissa count mantissa).bind fun mantissa =>
        if mantissa > UPPER_BOUND ∨ mantissa < -UPPER_BOUND then none else some mantissa) =
      if |mantissa| * 10 ^ count ≤ UPPER_BOUND then some (mantissa * 10 ^ count) else none := by
  have inside (x : Int) : ¬ (x > UPPER_BOUND ∨ x < -UPPER_BOUND) ↔ |x| ≤ UPPER_BOUND := by
    rw [abs_le]; omega
  have check (x : Int) : (if x > UPPER_BOUND ∨ x < -UPPER_BOUND then none else some x) =
      if |x| ≤ UPPER_BOUND then some x else none := by
    by_cases fits : |x| ≤ UPPER_BOUND
    · rw [if_neg ((inside x).mpr fits),if_pos fits]
    · rw [if_pos (not_not.mp (mt (inside x).mp fits)),if_neg fits]
  cases count with
  | zero => simp [scaleMantissa,check]
  | succ count =>
    -- the check on the last multiplication is implied by the final range check
    have last : |mantissa| * 10 ^ (count + 1) ≤ UPPER_BOUND ↔ |mantissa| * 10 ^ count ≤ UPPER_BOUND / 10 := by
      rw [pow_succ,← mul_assoc,UPPER_BOUND_eq]
      omega
    rw [scaleMantissa_succ]
    by_cases fits : |mantissa| * 10 ^ count ≤ UPPER_BOUND / 10
    · have scaled : |mantissa * 10 ^ (count + 1)| ≤ UPPER_BOUND := by
        rw [abs_mul,abs_pow,abs_of_pos (show (0 : Int) < 10 by norm_num)]
        exact last.mpr fits
      rw [if_pos fits,if_pos (last.mpr fits),Option.bind_some,check,if_pos scaled]
    · rw [if_neg fits,if_neg (mt last.mp fits),Option.bind_none]

/-- One digit through `ProcessMantissaDigit`, from the pair the digits before
it stand for: the pair of the longer string, if its mantissa fits. -/
theorem ProcessMantissaDigit_eq (digits : List Nat) {d : Nat} (small : d < 10)
    (fits : ((deferred digits).1 : Int) ≤ UPPER_BOUND) :
    ProcessMantissaDigit (Nat.digitChar d) (deferred digits).1 (deferred digits).2 =
      if ((deferred (digits ++ [d])).1 : Int) ≤ UPPER_BOUND then
        some (((deferred (digits ++ [d])).1 : Int),(deferred (digits ++ [d])).2)
      else none := by
  rw [deferred_append_singleton]
  generalize deferred digits = state at fits ⊢
  obtain ⟨mantissa,mantissa_tzeros⟩ := state
  cases d with
  | zero => simp [ProcessMantissaDigit,deferZeros,fits]
  | succ d =>
    have code : (Nat.digitChar (d + 1)).toNat = 48 + (d + 1) := Nat.toNat_digitChar_of_lt_ten small
    have notZero : Nat.digitChar (d + 1) ≠ '0' := by
      intro same
      rw [same] at code
      simp at code
    -- the last of the `mantissa_tzeros + 1` multiplications decides
    have last : |(mantissa : Int)| * 10 ^ mantissa_tzeros ≤ UPPER_BOUND / 10 ↔
        ((mantissa * 10 ^ (mantissa_tzeros + 1) + (d + 1) : Nat) : Int) ≤ UPPER_BOUND := by
      rw [abs_of_nonneg (Int.natCast_nonneg _),UPPER_BOUND_div_ten,UPPER_BOUND_eq]
      push_cast
      rw [pow_succ,← mul_assoc]
      omega
    rw [show deferZeros (mantissa,mantissa_tzeros) (d + 1) = (mantissa * 10 ^ (mantissa_tzeros + 1) + (d + 1),0)
      from rfl]
    simp only [ProcessMantissaDigit,notZero,if_false,code]
    rw [timesTen_eq_scaleMantissa _ (Int.natCast_nonneg _),scaleMantissa_succ]
    by_cases fits : |(mantissa : Int)| * 10 ^ mantissa_tzeros ≤ UPPER_BOUND / 10
    · have zero : ('0'.toNat : Int) = 48 := rfl
      rw [if_pos fits,if_pos (last.mp fits),Option.map_some,zero]
      push_cast
      ring_nf
    · rw [if_neg fits,if_neg (mt last.mpr fits),Option.map_none]

/-- The digit loop of the mantissa on a run of digits, from the pair the
digits before it stand for: the pair of all of them, their count and the
characters after the run, if the mantissa fits; `none` if it overflows. -/
theorem mantissaDigits_eq (digits ds : List Nat) (rest : List Char) (count : Nat)
    (small : ∀ d ∈ ds, d < 10) (stop : NoDigitHead rest) (fits : ((deferred digits).1 : Int) ≤ UPPER_BOUND) :
    mantissaDigits (ds.map Nat.digitChar ++ rest) (deferred digits).1 (deferred digits).2 count =
      if ((deferred (digits ++ ds)).1 : Int) ≤ UPPER_BOUND then
        some (((deferred (digits ++ ds)).1 : Int),(deferred (digits ++ ds)).2,count + ds.length,rest)
      else none := by
  induction ds generalizing digits count with
  | nil =>
    rw [List.append_nil,if_pos fits]
    cases rest with
    | nil => rfl
    | cons ch rest => simp [mantissaDigits,stop ch rfl]
  | cons d ds ih =>
    have first : d < 10 := small d List.mem_cons_self
    have later : ∀ x ∈ ds, x < 10 := fun x member => small x (List.mem_cons_of_mem d member)
    by_cases step : ((deferred (digits ++ [d])).1 : Int) ≤ UPPER_BOUND
    · simp only [List.map_cons,List.cons_append,mantissaDigits,isDigit_digitChar d first,if_true,
        ProcessMantissaDigit_eq digits first fits,if_pos step]
      rw [ih (digits ++ [d]) (count + 1) later step,List.append_assoc,List.singleton_append,
        List.length_cons,Nat.add_right_comm,Nat.add_assoc]
    · -- a mantissa that overflows here stays too large for every longer run
      have grown := deferred_le_append (digits ++ [d]) ds
      rw [List.append_assoc,List.singleton_append] at grown
      have overflow : ¬ ((deferred (digits ++ d :: ds)).1 : Int) ≤ UPPER_BOUND := by omega
      simp only [List.map_cons,List.cons_append,mantissaDigits,isDigit_digitChar d first,if_true,
        ProcessMantissaDigit_eq digits first fits,if_neg step,if_neg overflow]

/-- The digit loop of the exponent on a run of digits: their value, if it fits. -/
theorem exponentDigits_eq (digits ds : List Nat) (rest : List Char)
    (small : ∀ d ∈ ds, d < 10) (stop : NoDigitHead rest) (fits : (decimalValue digits : Int) ≤ UPPER_BOUND) :
    exponentDigits (ds.map Nat.digitChar ++ rest) (decimalValue digits) =
      if (decimalValue (digits ++ ds) : Int) ≤ UPPER_BOUND then some ((decimalValue (digits ++ ds) : Int),rest)
      else none := by
  induction ds generalizing digits with
  | nil =>
    rw [List.append_nil,if_pos fits]
    cases rest with
    | nil => rfl
    | cons ch rest => simp [exponentDigits,stop ch rfl]
  | cons d ds ih =>
    have first : d < 10 := small d List.mem_cons_self
    have later : ∀ x ∈ ds, x < 10 := fun x member => small x (List.mem_cons_of_mem d member)
    have code : (Nat.digitChar d).toNat = 48 + d := Nat.toNat_digitChar_of_lt_ten first
    have next := decimalValue_append_singleton digits d
    have grown := decimalValue_append (digits ++ [d]) ds
    rw [List.append_assoc,List.singleton_append] at grown
    have tail : decimalValue (digits ++ [d]) ≤ decimalValue (digits ++ d :: ds) := by
      rw [grown]
      exact le_add_right (Nat.le_mul_of_pos_right _ (pow_pos (by norm_num) _))
    simp only [List.map_cons,List.cons_append,exponentDigits,isDigit_digitChar d first,if_true,code]
    by_cases step : (decimalValue digits : Int) > UPPER_BOUND / 10
    · -- the value before this digit is already too large for one more
      have overflow : ¬ (decimalValue (digits ++ d :: ds) : Int) ≤ UPPER_BOUND := by
        rw [UPPER_BOUND_div_ten] at step
        rw [UPPER_BOUND_eq]
        omega
      rw [if_pos step,if_neg overflow]
    · have value : (decimalValue digits : Int) * 10 + ((48 + d : Nat) : Int) - ('0'.toNat : Int) =
          (decimalValue (digits ++ [d]) : Int) := by
        have zero : ('0'.toNat : Int) = 48 := rfl
        rw [next,zero]
        push_cast
        ring
      have fits' : (decimalValue (digits ++ [d]) : Int) ≤ UPPER_BOUND := by
        rw [UPPER_BOUND_div_ten] at step
        rw [UPPER_BOUND_eq,next]
        push_cast
        omega
      rw [if_neg step,value,ih (digits ++ [d]) later fits',List.append_assoc,List.singleton_append]

/-! ### The grammar -/

/-- An exponent `[eE][+-]?[0-9]+`: the case of its letter, the sign written
(`some true` for `-`) and its digits. -/
structure ExponentPart where
  capital : Bool
  sign : Option Bool
  digits : List Nat
  nonempty : digits ≠ []
  small : ∀ d ∈ digits, d < 10

/-- The integer part `0|[1-9][0-9]*`. -/
def LeadingDigit (whole : List Nat) : Prop := whole = [0] ∨ ∃ d ∈ whole.head?, 0 < d

/-- A string of `-?(0|[1-9][0-9]*)(\.[0-9]+)?([eE][+-]?[0-9]+)?` by its
parts; an empty `fraction` is one written without the point. -/
structure Numeral where
  negative : Bool
  whole : List Nat
  fraction : List Nat
  exponent : Option ExponentPart
  leading : LeadingDigit whole
  small : ∀ d ∈ whole ++ fraction, d < 10

def signChars (negative : Bool) : List Char := if negative then ['-'] else []

def fractionChars (fraction : List Nat) : List Char :=
  if fraction = [] then [] else '.' :: fraction.map Nat.digitChar

def exponentSignChars : Option Bool → List Char
  | none => []
  | some false => ['+']
  | some true => ['-']

def exponentChars : Option ExponentPart → List Char
  | none => []
  | some e => (if e.capital then 'E' else 'e') :: (exponentSignChars e.sign ++ e.digits.map Nat.digitChar)

def Numeral.render (n : Numeral) : List Char :=
  signChars n.negative ++ n.whole.map Nat.digitChar ++ fractionChars n.fraction ++ exponentChars n.exponent

/-- The power of ten an exponent part stands for. -/
def exponentValue : Option ExponentPart → Int
  | none => 0
  | some e => if e.sign = some true then -(decimalValue e.digits : Int) else decimalValue e.digits

/-- The exact value of the string. -/
def Numeral.value (n : Numeral) : ℚ :=
  (if n.negative then -1 else 1) * decimalValue (n.whole ++ n.fraction) *
    10 ^ (exponentValue n.exponent - n.fraction.length)

/-! ### The stages -/

theorem digitChar_positive : ∀ d, d < 10 → 0 < d →
    Nat.digitChar d ≠ '0' ∧ '1' ≤ Nat.digitChar d ∧ Nat.digitChar d ≤ '9' := by decide

theorem readSign_sound {val rest : List Char} {negative : Bool} (read : readSign val = (negative,rest)) :
    val = signChars negative ++ rest := by
  unfold readSign at read
  split at read <;> obtain ⟨rfl,rfl⟩ := Prod.mk.inj read <;> rfl

theorem readSign_render (negative : Bool) {rest : List Char} (digit : ∀ ch ∈ rest.head?, isDigit ch = true) :
    readSign (signChars negative ++ rest) = (negative,rest) := by
  cases negative with
  | true => rfl
  | false =>
    cases rest with
    | nil => rfl
    | cons ch rest =>
      have notSign : ch ≠ '-' := by
        rintro rfl
        exact absurd (digit '-' rfl) (by decide)
      simp [signChars,readSign,notSign]

/-- The digits the integer part passes to `ProcessMantissaDigit`: a lone `0`
is skipped. -/
def mantissaStart (whole : List Nat) : List Nat := if whole = [0] then [] else whole

theorem decimalValue_mantissaStart (whole fraction : List Nat) :
    decimalValue (mantissaStart whole ++ fraction) = decimalValue (whole ++ fraction) := by
  unfold mantissaStart
  split
  · subst_vars
    rw [List.nil_append,List.singleton_append,decimalValue_zero_cons]
  · rfl

theorem readWhole_render (whole : List Nat) (rest : List Char) (leading : LeadingDigit whole)
    (small : ∀ d ∈ whole, d < 10) (stop : NoDigitHead rest) :
    readWhole (whole.map Nat.digitChar ++ rest) =
      if ((deferred (mantissaStart whole)).1 : Int) ≤ UPPER_BOUND then
        some (((deferred (mantissaStart whole)).1 : Int),(deferred (mantissaStart whole)).2,rest)
      else none := by
  rcases leading with rfl | ⟨d,first,positive⟩
  · simp [mantissaStart,readWhole,UPPER_BOUND_eq]
  · obtain ⟨ds,rfl⟩ : ∃ ds, whole = d :: ds := by
      cases whole with
      | nil => simp at first
      | cons x ds => exact ⟨ds,by simp_all⟩
    have bound : d < 10 := small d List.mem_cons_self
    obtain ⟨notZero,low,high⟩ := digitChar_positive d bound positive
    have start : mantissaStart (d :: ds) = d :: ds := if_neg (by simp; omega)
    have loop := mantissaDigits_eq [] (d :: ds) rest 0 small stop (by simp [UPPER_BOUND_eq])
    simp only [deferred_nil,Nat.cast_zero,List.nil_append] at loop
    rw [start]
    simp only [List.map_cons,List.cons_append,readWhole,notZero,if_false,low,high,and_self,if_true]
    rw [← List.cons_append,← List.map_cons,loop]
    split <;> rfl

theorem readWhole_sound {val rest : List Char} {mantissa : Int} {mantissa_tzeros : Nat}
    (read : readWhole val = some (mantissa,mantissa_tzeros,rest)) :
    ∃ whole, LeadingDigit whole ∧ (∀ d ∈ whole, d < 10) ∧ val = whole.map Nat.digitChar ++ rest ∧
      mantissa = (deferred (mantissaStart whole)).1 ∧ mantissa_tzeros = (deferred (mantissaStart whole)).2 ∧
      ((deferred (mantissaStart whole)).1 : Int) ≤ UPPER_BOUND := by
  cases val with
  | nil => simp [readWhole] at read
  | cons ch val =>
    by_cases zero : ch = '0'
    · subst zero
      simp only [readWhole,if_true,Option.some.injEq,Prod.mk.injEq] at read
      obtain ⟨rfl,rfl,rfl⟩ := read
      exact ⟨[0],Or.inl rfl,by simp,rfl,rfl,rfl,by simp [mantissaStart,UPPER_BOUND_eq]⟩
    by_cases range : '1' ≤ ch ∧ ch ≤ '9'
    · -- the integer part is the run of digits from `ch` on
      have code : 49 ≤ ch.toNat ∧ ch.toNat ≤ 57 := by
        simp only [Char.le_def,UInt32.le_iff_toNat_le] at range
        exact range
      have digit : isDigit ch = true := isDigit_iff.mpr ⟨by omega,code.2⟩
      obtain ⟨ds,rest',split,small,stop⟩ := digits_prefix val
      have leading : LeadingDigit ((ch.toNat - 48) :: ds) := Or.inr ⟨_,rfl,by omega⟩
      have digits : ∀ d ∈ (ch.toNat - 48) :: ds, d < 10 := by
        intro d member
        rcases List.mem_cons.mp member with rfl | later
        · omega
        · exact small d later
      have layout : ch :: val = ((ch.toNat - 48) :: ds).map Nat.digitChar ++ rest' := by
        rw [List.map_cons,digitChar_toNat_sub digit,split,List.cons_append]
      rw [layout,readWhole_render _ rest' leading digits stop] at read
      split at read
      · simp only [Option.some.injEq,Prod.mk.injEq] at read
        obtain ⟨rfl,rfl,rfl⟩ := read
        exact ⟨_,leading,digits,layout,rfl,rfl,‹_›⟩
      · contradiction
    · simp [readWhole,zero,range] at read

theorem readFraction_render (digits fraction : List Nat) (rest : List Char) (small : ∀ d ∈ fraction, d < 10)
    (stop : NoDigitHead rest) (noPoint : fraction = [] → ∀ ch ∈ rest.head?, ch ≠ '.')
    (fits : ((deferred digits).1 : Int) ≤ UPPER_BOUND) :
    readFraction (fractionChars fraction ++ rest) (deferred digits).1 (deferred digits).2 =
      if ((deferred (digits ++ fraction)).1 : Int) ≤ UPPER_BOUND then
        some (((deferred (digits ++ fraction)).1 : Int),(deferred (digits ++ fraction)).2,fraction.length,rest)
      else none := by
  cases fraction with
  | nil =>
    rw [List.append_nil,if_pos fits]
    cases rest with
    | nil => rfl
    | cons ch rest =>
      have notPoint : ch ≠ '.' := noPoint rfl ch rfl
      simp [fractionChars,readFraction,notPoint]
  | cons d ds =>
    have first : d < 10 := small d List.mem_cons_self
    have loop := mantissaDigits_eq digits (d :: ds) rest 0 small stop fits
    rw [Nat.zero_add] at loop
    simp only [fractionChars,reduceCtorEq,if_false,List.map_cons,List.cons_append,readFraction,
      isDigit_digitChar d first,if_true]
    rw [← List.cons_append,← List.map_cons,loop]

theorem readFraction_sound (digits : List Nat) {val rest : List Char} {mantissa : Int}
    {mantissa_tzeros point_ofs : Nat} (fits : ((deferred digits).1 : Int) ≤ UPPER_BOUND)
    (read : readFraction val (deferred digits).1 (deferred digits).2 = some (mantissa,mantissa_tzeros,point_ofs,rest)) :
    ∃ fraction, (∀ d ∈ fraction, d < 10) ∧ val = fractionChars fraction ++ rest ∧ point_ofs = fraction.length ∧
      mantissa = (deferred (digits ++ fraction)).1 ∧ mantissa_tzeros = (deferred (digits ++ fraction)).2 ∧
      ((deferred (digits ++ fraction)).1 : Int) ≤ UPPER_BOUND := by
  by_cases point : ∃ tail, val = '.' :: tail
  · obtain ⟨tail,rfl⟩ := point
    obtain ⟨ds,rest',rfl,small,stop⟩ := digits_prefix tail
    cases ds with
    | nil =>
      -- a point with no digit after it
      cases rest' with
      | nil => simp [readFraction] at read
      | cons ch rest' => simp [readFraction,stop ch rfl] at read
    | cons d ds =>
      have layout : '.' :: ((d :: ds).map Nat.digitChar ++ rest') = fractionChars (d :: ds) ++ rest' := by
        simp [fractionChars]
      rw [layout,readFraction_render digits (d :: ds) rest' small stop (by simp) fits] at read
      split at read
      · simp only [Option.some.injEq,Prod.mk.injEq] at read
        obtain ⟨rfl,rfl,rfl,rfl⟩ := read
        exact ⟨d :: ds,small,layout.symm,rfl,rfl,rfl,‹_›⟩
      · contradiction
  · -- no point: the fraction is empty and nothing is read
    have skip : readFraction val (deferred digits).1 (deferred digits).2 =
        some (((deferred digits).1 : Int),(deferred digits).2,0,val) := by
      cases val with
      | nil => rfl
      | cons ch tail =>
        have notPoint : ch ≠ '.' := by
          rintro rfl
          exact point ⟨tail,rfl⟩
        simp [readFraction,notPoint]
    rw [skip] at read
    simp only [Option.some.injEq,Prod.mk.injEq] at read
    obtain ⟨rfl,rfl,rfl,rfl⟩ := read
    exact ⟨[],by simp,by simp [fractionChars],rfl,by simp,by simp,by simpa using fits⟩

theorem readExponentSign_sound {val rest : List Char} {exponent_sign : Bool}
    (read : readExponentSign val = (exponent_sign,rest)) :
    ∃ sign, val = exponentSignChars sign ++ rest ∧ (exponent_sign = true ↔ sign = some true) := by
  unfold readExponentSign at read
  split at read <;> obtain ⟨rfl,rfl⟩ := Prod.mk.inj read
  · exact ⟨some false,rfl,by simp⟩
  · exact ⟨some true,rfl,by simp⟩
  · exact ⟨none,rfl,by simp⟩

theorem readExponentSign_render (sign : Option Bool) {rest : List Char}
    (digit : ∀ ch ∈ rest.head?, isDigit ch = true) :
    readExponentSign (exponentSignChars sign ++ rest) = (decide (sign = some true),rest) := by
  cases sign with
  | none =>
    cases rest with
    | nil => rfl
    | cons ch rest =>
      have notPlus : ch ≠ '+' := by
        rintro rfl
        exact absurd (digit '+' rfl) (by decide)
      have notMinus : ch ≠ '-' := by
        rintro rfl
        exact absurd (digit '-' rfl) (by decide)
      simp [exponentSignChars,readExponentSign,notPlus,notMinus]
  | some negative => cases negative <;> rfl

theorem readExponentDigits_render (ds : List Nat) (rest : List Char) (nonempty : ds ≠ [])
    (small : ∀ d ∈ ds, d < 10) (stop : NoDigitHead rest) :
    readExponentDigits (ds.map Nat.digitChar ++ rest) =
      if (decimalValue ds : Int) ≤ UPPER_BOUND then some ((decimalValue ds : Int),rest) else none := by
  cases ds with
  | nil => contradiction
  | cons d ds =>
    have first : d < 10 := small d List.mem_cons_self
    have loop := exponentDigits_eq [] (d :: ds) rest small stop (by simp [decimalValue,UPPER_BOUND_eq])
    simp only [List.nil_append,decimalValue,List.reverse_nil,Nat.ofDigits_nil,Nat.cast_zero] at loop
    simp only [List.map_cons,List.cons_append,readExponentDigits,isDigit_digitChar d first,if_true,decimalValue]
    rw [← List.cons_append,← List.map_cons,loop]

theorem readExponentDigits_sound {val rest : List Char} {exponent : Int}
    (read : readExponentDigits val = some (exponent,rest)) :
    ∃ ds, ds ≠ [] ∧ (∀ d ∈ ds, d < 10) ∧ val = ds.map Nat.digitChar ++ rest ∧ exponent = decimalValue ds ∧
      (decimalValue ds : Int) ≤ UPPER_BOUND := by
  obtain ⟨ds,rest',rfl,small,stop⟩ := digits_prefix val
  cases ds with
  | nil =>
    cases rest' with
    | nil => simp [readExponentDigits] at read
    | cons ch rest' => simp [readExponentDigits,stop ch rfl] at read
  | cons d ds =>
    rw [readExponentDigits_render _ rest' (by simp) small stop] at read
    split at read
    · simp only [Option.some.injEq,Prod.mk.injEq] at read
      obtain ⟨rfl,rfl⟩ := read
      exact ⟨d :: ds,by simp,small,rfl,rfl,‹_›⟩
    · contradiction

theorem readExponent_render (part : Option ExponentPart)
    (fits : ∀ e ∈ part, (decimalValue e.digits : Int) ≤ UPPER_BOUND) :
    ∃ exponent_sign exponent, readExponent (exponentChars part) = some (exponent_sign,exponent,[]) ∧
      (if exponent_sign then -exponent else exponent) = exponentValue part := by
  cases part with
  | none => exact ⟨false,0,rfl,rfl⟩
  | some e =>
    have letter : (if e.capital then 'E' else 'e') = 'e' ∨ (if e.capital then 'E' else 'e') = 'E' := by
      cases e.capital <;> simp
    have digit : ∀ ch ∈ (e.digits.map Nat.digitChar).head?, isDigit ch = true := by
      intro ch member
      obtain ⟨d,first,rfl⟩ : ∃ d ∈ e.digits.head?, Nat.digitChar d = ch := by
        cases digits : e.digits with
        | nil => exact absurd digits e.nonempty
        | cons d ds => simp_all
      exact isDigit_digitChar d (e.small d (List.mem_of_mem_head? first))
    have digits := readExponentDigits_render e.digits [] e.nonempty e.small (by simp [NoDigitHead])
    rw [List.append_nil,if_pos (fits e rfl)] at digits
    refine ⟨decide (e.sign = some true),decimalValue e.digits,?_,?_⟩
    · simp only [exponentChars,readExponent,letter,if_true,readExponentSign_render e.sign digit,digits,
        Option.map_some]
    · by_cases negative : e.sign = some true <;> simp [exponentValue,negative]

theorem readExponent_sound {val rest : List Char} {exponent_sign : Bool} {exponent : Int}
    (read : readExponent val = some (exponent_sign,exponent,rest)) :
    ∃ part, (∀ e ∈ part, (decimalValue e.digits : Int) ≤ UPPER_BOUND) ∧ val = exponentChars part ++ rest ∧
      (if exponent_sign then -exponent else exponent) = exponentValue part := by
  cases val with
  | nil =>
    simp only [readExponent,Option.some.injEq,Prod.mk.injEq] at read
    obtain ⟨rfl,rfl,rfl⟩ := read
    exact ⟨none,by simp,rfl,rfl⟩
  | cons e val =>
    by_cases letter : e = 'e' ∨ e = 'E'
    · rcases signed : readExponentSign val with ⟨sign_bit,tail⟩
      obtain ⟨sign,layout,bit⟩ := readExponentSign_sound signed
      simp only [readExponent,letter,if_true,signed] at read
      cases digits : readExponentDigits tail with
      | none => simp [digits] at read
      | some result =>
        obtain ⟨value,rest'⟩ := result
        simp only [digits,Option.map_some,Option.some.injEq,Prod.mk.injEq] at read
        obtain ⟨rfl,rfl,rfl⟩ := read
        obtain ⟨ds,nonempty,small,split,rfl,fits⟩ := readExponentDigits_sound digits
        refine ⟨some ⟨decide (e = 'E'),sign,ds,nonempty,small⟩,by simpa using fits,?_,?_⟩
        · have same : (if decide (e = 'E') = true then 'E' else 'e') = e := by
            rcases letter with rfl | rfl <;> decide
          simp only [exponentChars,same,layout,split,List.cons_append,List.append_assoc]
        · by_cases negative : sign = some true
          · simp [exponentValue,negative,bit.mpr negative]
          · have positive : sign_bit = false := by simpa using mt bit.mp negative
            simp [exponentValue,negative,positive]
    · simp only [readExponent,letter,if_false,Option.some.injEq,Prod.mk.injEq] at read
      obtain ⟨rfl,rfl,rfl⟩ := read
      exact ⟨none,by simp,rfl,rfl⟩

/-- The final step on a mantissa that is not negative: the amount, if the
shift is one of `0` to `17` and the scaled mantissa fits. -/
theorem finish_eq (mantissa_sign exponent_sign : Bool) (mantissa : Nat) (exponent : Int)
    (mantissa_tzeros point_ofs : Nat) (decimals : Int) :
    finish mantissa_sign exponent_sign mantissa exponent mantissa_tzeros point_ofs decimals =
      let shift := (if exponent_sign then -exponent else exponent) - point_ofs + mantissa_tzeros + decimals
      if 0 ≤ shift ∧ shift < 18 ∧ (mantissa : Int) * 10 ^ shift.toNat ≤ UPPER_BOUND then
        some ((if mantissa_sign then -(mantissa : Int) else mantissa) * 10 ^ shift.toNat)
      else none := by
  unfold finish
  dsimp only
  generalize (if exponent_sign then -exponent else exponent) - point_ofs + mantissa_tzeros + decimals = shift
  by_cases low : shift < 0
  · rw [if_pos low,if_neg (by omega)]
  by_cases high : shift ≥ 18
  · rw [if_neg low,if_pos high,if_neg (by omega)]
  have size : |(if mantissa_sign then -(mantissa : Int) else mantissa)| = mantissa := by
    split <;> simp
  rw [if_neg low,if_neg high,scaleMantissa_checked,size]
  by_cases fits : (mantissa : Int) * 10 ^ shift.toNat ≤ UPPER_BOUND
  · have inside : 0 ≤ shift ∧ shift < 18 ∧ (mantissa : Int) * 10 ^ shift.toNat ≤ UPPER_BOUND :=
      ⟨by omega,by omega,fits⟩
    rw [if_pos fits,if_pos inside]
  · have outside : ¬ (0 ≤ shift ∧ shift < 18 ∧ (mantissa : Int) * 10 ^ shift.toNat ≤ UPPER_BOUND) :=
      fun inside => fits inside.2.2
    rw [if_neg fits,if_neg outside]

/-- The value scaled to `decimals`, through the pair the mantissa's digits
stand for. -/
theorem Numeral.value_scaled (n : Numeral) (decimals : Int) :
    n.value * 10 ^ decimals =
      (if n.negative then -1 else 1) * ((deferred (mantissaStart n.whole ++ n.fraction)).1 : ℚ) *
        10 ^ (exponentValue n.exponent - n.fraction.length +
          (deferred (mantissaStart n.whole ++ n.fraction)).2 + decimals) := by
  have ten : (10 : ℚ) ≠ 0 := by norm_num
  rw [Numeral.value,← decimalValue_mantissaStart,← deferred_value]
  push_cast
  rw [zpow_add₀ ten,zpow_add₀ ten,zpow_natCast]
  ring

/-- A whole number that is a mantissa not divisible by ten times a power of
ten: the power is not negative. -/
theorem shift_nonneg {mantissa : Nat} {shift amount : Int} (notTen : ¬ 10 ∣ mantissa)
    (exact : (amount : ℚ) = mantissa * 10 ^ shift) : 0 ≤ shift ∧ amount = mantissa * 10 ^ shift.toNat := by
  have ten : (10 : ℚ) ≠ 0 := by norm_num
  by_cases nonneg : 0 ≤ shift
  · refine ⟨nonneg,?_⟩
    rw [← Int.toNat_of_nonneg nonneg,zpow_natCast] at exact
    exact_mod_cast exact
  · -- a negative power would leave `amount * 10 ^ j = mantissa` with `j ≥ 1`
    exfalso
    have back : (amount : ℚ) * 10 ^ (-shift).toNat = mantissa := by
      rw [exact,mul_assoc,← zpow_natCast,← zpow_add₀ ten,Int.toNat_of_nonneg (by omega),add_neg_cancel,
        zpow_zero,mul_one]
    have cast : amount * 10 ^ (-shift).toNat = mantissa := by exact_mod_cast back
    have divides : (10 : Int) ∣ mantissa := by
      rw [← cast]
      exact Dvd.dvd.mul_left (dvd_pow_self 10 (by omega)) _
    exact notTen (by exact_mod_cast divides)

theorem parseChars_sound (val : List Char) (decimals amount : Int) (parsed : parseChars val decimals = some amount) :
    ∃ n : Numeral, n.render = val ∧ (amount : ℚ) = n.value * 10 ^ decimals ∧ |amount| ≤ UPPER_BOUND := by
  unfold parseChars at parsed
  rcases signed : readSign val with ⟨negative,val⟩
  simp only [signed,bind,Option.bind_eq_some_iff] at parsed
  obtain ⟨⟨_,_,afterWhole⟩,wholeRead,⟨_,_,_,afterFraction⟩,fractionRead,⟨exponent_sign,exponent,rest⟩,
    exponentRead,finished⟩ := parsed
  dsimp only at fractionRead exponentRead finished
  have consumed : rest = [] := by
    by_contra left
    simp [left] at finished
  subst consumed
  -- each stage read its part of the grammar
  obtain ⟨whole,leading,wholeSmall,wholeLayout,rfl,rfl,wholeFits⟩ := readWhole_sound wholeRead
  obtain ⟨fraction,fractionSmall,fractionLayout,rfl,rfl,rfl,-⟩ := readFraction_sound _ wholeFits fractionRead
  obtain ⟨part,-,exponentLayout,signedExponent⟩ := readExponent_sound exponentRead
  rw [if_neg (by simp),finish_eq] at finished
  dsimp only at finished
  rw [signedExponent] at finished
  generalize scale : exponentValue part - fraction.length + (deferred (mantissaStart whole ++ fraction)).2 +
    decimals = shift at finished
  split at finished
  · rename_i inside
    obtain ⟨low,-,bound⟩ := inside
    obtain ⟨k,rfl⟩ := Int.eq_ofNat_of_zero_le low
    simp only [Int.toNat_natCast,Option.some.injEq] at finished bound
    have small : ∀ d ∈ whole ++ fraction, d < 10 := by
      intro d member
      rcases List.mem_append.mp member with inWhole | inFraction
      · exact wholeSmall d inWhole
      · exact fractionSmall d inFraction
    refine ⟨⟨negative,whole,fraction,part,leading,small⟩,?_,?_,?_⟩
    · rw [readSign_sound signed,wholeLayout,fractionLayout,exponentLayout]
      simp [Numeral.render]
    · rw [Numeral.value_scaled]
      dsimp only
      rw [scale,zpow_natCast,← finished]
      push_cast
      split <;> ring
    · have size : |(if negative then -((deferred (mantissaStart whole ++ fraction)).1 : Int)
          else (deferred (mantissaStart whole ++ fraction)).1)| = (deferred (mantissaStart whole ++ fraction)).1 := by
        split <;> simp
      rw [← finished,abs_mul,abs_pow,size]
      simpa using bound
  · contradiction

/-- An amount that is the exact value of a mantissa ending in a non-zero
digit times a power of ten, and that fits `UPPER_BOUND`: the power is one of
`0` to `17` and the scaled mantissa fits too. -/
theorem exact_amount {negative : Bool} {mantissa : Nat} {shift amount : Int} (positive : 0 < mantissa)
    (notTen : ¬ 10 ∣ mantissa) (exact : (amount : ℚ) = (if negative then -1 else 1) * mantissa * 10 ^ shift)
    (bounded : |amount| ≤ UPPER_BOUND) :
    0 ≤ shift ∧ shift < 18 ∧ (mantissa : Int) * 10 ^ shift.toNat ≤ UPPER_BOUND ∧
      amount = (if negative then -(mantissa : Int) else mantissa) * 10 ^ shift.toNat := by
  have signedExact : (((if negative then -amount else amount) : Int) : ℚ) = mantissa * 10 ^ shift := by
    cases negative <;> simp [exact]
  obtain ⟨low,signedValue⟩ := shift_nonneg notTen signedExact
  have size : |amount| = mantissa * 10 ^ shift.toNat := by
    have same : |amount| = |(if negative then -amount else amount)| := by
      cases negative <;> simp
    rw [same,signedValue,abs_of_nonneg (by positivity)]
  have bound : (mantissa : Int) * 10 ^ shift.toNat ≤ UPPER_BOUND := size ▸ bounded
  have high : shift.toNat < 18 := by
    have grown : (10 : Int) ^ shift.toNat ≤ mantissa * 10 ^ shift.toNat :=
      le_mul_of_one_le_left (by positivity) (by exact_mod_cast positive)
    by_contra overflow
    have power : (10 : Int) ^ 18 ≤ 10 ^ shift.toNat := pow_le_pow_right₀ (by norm_num) (by omega)
    rw [UPPER_BOUND_eq] at bound
    norm_num at power
    omega
  refine ⟨low,by omega,bound,?_⟩
  cases negative with
  | false => simpa using signedValue
  | true =>
    simp only [if_true] at signedValue ⊢
    rw [neg_mul,← signedValue,neg_neg]

theorem noDigitHead_exponentChars (part : Option ExponentPart) : NoDigitHead (exponentChars part) := by
  intro ch first
  cases part with
  | none => simp [exponentChars] at first
  | some e =>
    simp only [exponentChars,List.head?_cons,Option.mem_def,Option.some.injEq] at first
    subst first
    cases e.capital <;> decide

theorem noDigitHead_fractionChars (fraction : List Nat) (part : Option ExponentPart) :
    NoDigitHead (fractionChars fraction ++ exponentChars part) := by
  unfold fractionChars
  split
  · simpa using noDigitHead_exponentChars part
  · intro ch first
    simp only [List.cons_append,List.head?_cons,Option.mem_def,Option.some.injEq] at first
    subst first
    decide

theorem exponentChars_noPoint (part : Option ExponentPart) : ∀ ch ∈ (exponentChars part).head?, ch ≠ '.' := by
  intro ch first
  cases part with
  | none => simp [exponentChars] at first
  | some e =>
    simp only [exponentChars,List.head?_cons,Option.mem_def,Option.some.injEq] at first
    subst first
    cases e.capital <;> decide

theorem parseChars_render (n : Numeral) (decimals amount : Int) (nonzero : n.value ≠ 0)
    (exact : (amount : ℚ) = n.value * 10 ^ decimals) (bounded : |amount| ≤ UPPER_BOUND)
    (fits : ∀ e ∈ n.exponent, (decimalValue e.digits : Int) ≤ UPPER_BOUND) :
    parseChars n.render decimals = some amount := by
  have scaled := Numeral.value_scaled n decimals
  obtain ⟨negative,whole,fraction,part,leading,small⟩ := n
  dsimp only at scaled fits nonzero exact ⊢
  generalize shiftDef : exponentValue part - fraction.length + (deferred (mantissaStart whole ++ fraction)).2 +
    decimals = shift at scaled
  generalize mantissaDef : (deferred (mantissaStart whole ++ fraction)).1 = mantissa at scaled
  have wholeSmall : ∀ d ∈ whole, d < 10 := fun d member => small d (List.mem_append_left _ member)
  have fractionSmall : ∀ d ∈ fraction, d < 10 := fun d member => small d (List.mem_append_right _ member)
  have digitsSmall : ∀ d ∈ mantissaStart whole ++ fraction, d < 10 := by
    unfold mantissaStart
    split
    · simpa using fractionSmall
    · exact small
  -- a value that is not zero has a mantissa that is not zero
  have positive : 0 < mantissa := by
    rcases Nat.eq_zero_or_pos mantissa with zero | positive
    · rw [zero,Nat.cast_zero,mul_zero,zero_mul] at scaled
      exact absurd ((mul_eq_zero.mp scaled).resolve_right (zpow_ne_zero _ (by norm_num))) nonzero
    · exact positive
  have notTen : ¬ 10 ∣ mantissa := by
    rw [← mantissaDef]
    exact (deferred_not_dvd _ digitsSmall).resolve_left (by omega)
  obtain ⟨low,high,bound,value⟩ := exact_amount positive notTen (exact.trans scaled) bounded
  have mantissaFits : (mantissa : Int) ≤ UPPER_BOUND :=
    le_trans (le_mul_of_one_le_right (by positivity) (one_le_pow₀ (by norm_num))) bound
  have wholeFits : ((deferred (mantissaStart whole)).1 : Int) ≤ UPPER_BOUND := by
    have grown := deferred_le_append (mantissaStart whole) fraction
    rw [mantissaDef] at grown
    omega
  -- each stage reads its part
  have digitHead : ∀ ch ∈ (whole.map Nat.digitChar ++ (fractionChars fraction ++ exponentChars part)).head?,
      isDigit ch = true := by
    intro ch first
    cases whole with
    | nil => simp [LeadingDigit] at leading
    | cons d ds =>
      simp only [List.map_cons,List.cons_append,List.head?_cons,Option.mem_def,Option.some.injEq] at first
      subst first
      exact isDigit_digitChar d (wholeSmall d List.mem_cons_self)
  have signRead := readSign_render negative digitHead
  have wholeRead := readWhole_render whole _ leading wholeSmall (noDigitHead_fractionChars fraction part)
  rw [if_pos wholeFits] at wholeRead
  have fractionRead := readFraction_render _ fraction _ fractionSmall (noDigitHead_exponentChars part)
    (fun _ => exponentChars_noPoint part) wholeFits
  rw [mantissaDef,if_pos mantissaFits] at fractionRead
  obtain ⟨exponent_sign,exponent,exponentRead,signedExponent⟩ := readExponent_render part fits
  unfold parseChars Numeral.render
  simp only [List.append_assoc,signRead,bind,wholeRead,Option.bind_some,fractionRead,exponentRead]
  have inside : 0 ≤ shift ∧ shift < 18 ∧ (mantissa : Int) * 10 ^ shift.toNat ≤ UPPER_BOUND := ⟨low,high,bound⟩
  rw [if_neg (by simp),finish_eq]
  dsimp only
  rw [signedExponent,shiftDef,if_pos inside,value]

theorem Numeral.mem_render (n : Numeral) {ch : Char} (member : ch ∈ n.render) :
    isDigit ch = true ∨ ch ∈ ['-','.','e','E','+'] := by
  have digit : ∀ ds : List Nat, (∀ d ∈ ds, d < 10) → ch ∈ ds.map Nat.digitChar → isDigit ch = true := by
    intro ds small inside
    obtain ⟨d,present,rfl⟩ := List.mem_map.mp inside
    exact isDigit_digitChar d (small d present)
  have wholeSmall : ∀ d ∈ n.whole, d < 10 := fun d member => n.small d (List.mem_append_left _ member)
  have fractionSmall : ∀ d ∈ n.fraction, d < 10 := fun d member => n.small d (List.mem_append_right _ member)
  simp only [Numeral.render,List.mem_append] at member
  rcases member with ((sign | whole) | fraction) | exponent
  · unfold signChars at sign
    split at sign <;> simp_all
  · exact Or.inl (digit _ wholeSmall whole)
  · unfold fractionChars at fraction
    split at fraction
    · simp at fraction
    · rcases List.mem_cons.mp fraction with rfl | inside
      · simp
      · exact Or.inl (digit _ fractionSmall inside)
  · cases part : n.exponent with
    | none => simp [part,exponentChars] at exponent
    | some e =>
      simp only [part,exponentChars,List.mem_cons,List.mem_append] at exponent
      rcases exponent with letter | signed | inside
      · right
        rw [letter]
        cases e.capital <;> simp
      · right
        unfold exponentSignChars at signed
        split at signed <;> simp_all
      · exact Or.inl (digit _ e.small inside)

/-! ### One reading

The grammar is unambiguous: a string is the render of at most one numeral, so
whatever the parser makes of a render is that numeral's value. -/

theorem digitChar_inj {d e : Nat} (hd : d < 10) (he : e < 10) (same : Nat.digitChar d = Nat.digitChar e) :
    d = e := by
  have codes := congrArg Char.toNat same
  rw [Nat.toNat_digitChar_of_lt_ten hd,Nat.toNat_digitChar_of_lt_ten he] at codes
  omega

/-- A run of digits ends where the next character is not one. -/
theorem digits_append_inj : ∀ {xs ys : List Nat} {rest rest' : List Char}, (∀ d ∈ xs, d < 10) →
    (∀ d ∈ ys, d < 10) → NoDigitHead rest → NoDigitHead rest' →
    xs.map Nat.digitChar ++ rest = ys.map Nat.digitChar ++ rest' → xs = ys ∧ rest = rest'
  | [], [], _, _, _, _, _, _, same => ⟨rfl,same⟩
  | [], y :: ys, _, _, _, small', stop, _, same => by
    subst same
    exact absurd (stop _ rfl) (by simp [isDigit_digitChar y (small' y List.mem_cons_self)])
  | x :: xs, [], _, _, small, _, _, stop', same => by
    subst same
    exact absurd (stop' _ rfl) (by simp [isDigit_digitChar x (small x List.mem_cons_self)])
  | x :: xs, y :: ys, _, _, small, small', stop, stop', same => by
    simp only [List.map_cons,List.cons_append,List.cons.injEq] at same
    obtain ⟨first,rest⟩ := same
    have head := digitChar_inj (small x List.mem_cons_self) (small' y List.mem_cons_self) first
    obtain ⟨tail,after⟩ := digits_append_inj (fun d member => small d (List.mem_cons_of_mem _ member))
      (fun d member => small' d (List.mem_cons_of_mem _ member)) stop stop' rest
    exact ⟨by rw [head,tail],after⟩

theorem exponentChars_inj {part part' : Option ExponentPart} (same : exponentChars part = exponentChars part') :
    part = part' := by
  cases part with
  | none => cases part' with
    | none => rfl
    | some e => simp [exponentChars] at same
  | some e => cases part' with
    | none => simp [exponentChars] at same
    | some e' =>
      obtain ⟨capital,sign,ds,nonempty,small⟩ := e
      obtain ⟨capital',sign',ds',nonempty',small'⟩ := e'
      simp only [exponentChars,List.cons.injEq] at same
      obtain ⟨letter,rest⟩ := same
      have capitals : capital = capital' := by
        cases capital <;> cases capital' <;> simp_all
      -- the digits are not empty, so the sign is the character before them
      have digitHead : ∀ (ds : List Nat), ds ≠ [] → (∀ d ∈ ds, d < 10) →
          ∃ d ∈ ds.head?, ∃ tail, ds.map Nat.digitChar = Nat.digitChar d :: tail ∧ isDigit (Nat.digitChar d) = true := by
        intro ds nonempty small
        cases ds with
        | nil => contradiction
        | cons d ds => exact ⟨d,rfl,_,rfl,isDigit_digitChar d (small d List.mem_cons_self)⟩
      obtain ⟨d,-,tail,layout,digit⟩ := digitHead ds nonempty small
      obtain ⟨d',-,tail',layout',digit'⟩ := digitHead ds' nonempty' small'
      have signs : sign = sign' := by
        rw [layout,layout'] at rest
        rcases sign with _ | ⟨_ | _⟩ <;> rcases sign' with _ | ⟨_ | _⟩ <;> simp_all [exponentSignChars]
      subst capitals signs
      have bare : ds.map Nat.digitChar ++ [] = ds'.map Nat.digitChar ++ [] := by
        simpa using List.append_cancel_left rest
      have digits := (digits_append_inj small small' (by simp [NoDigitHead]) (by simp [NoDigitHead]) bare).1
      subst digits
      rfl

theorem fractionChars_append_inj {fraction fraction' : List Nat} {part part' : Option ExponentPart}
    (small : ∀ d ∈ fraction, d < 10) (small' : ∀ d ∈ fraction', d < 10)
    (same : fractionChars fraction ++ exponentChars part = fractionChars fraction' ++ exponentChars part') :
    fraction = fraction' ∧ part = part' := by
  have noPoint := exponentChars_noPoint part
  have otherNoPoint := exponentChars_noPoint part'
  unfold fractionChars at same
  split at same <;> split at same
  · subst_vars
    exact ⟨rfl,exponentChars_inj (by simpa using same)⟩
  · rw [List.nil_append] at same
    exact absurd (noPoint '.' (by rw [same]; rfl)) (by simp)
  · rw [List.nil_append] at same
    exact absurd (otherNoPoint '.' (by rw [← same]; rfl)) (by simp)
  · simp only [List.cons_append,List.cons.injEq,true_and] at same
    obtain ⟨digits,rest⟩ := digits_append_inj small small' (noDigitHead_exponentChars part)
      (noDigitHead_exponentChars part') same
    exact ⟨digits,exponentChars_inj rest⟩

theorem Numeral.render_injective {n m : Numeral} (same : n.render = m.render) : n = m := by
  obtain ⟨negative,whole,fraction,part,leading,small⟩ := n
  obtain ⟨negative',whole',fraction',part',leading',small'⟩ := m
  have wholeSmall : ∀ d ∈ whole, d < 10 := fun d member => small d (List.mem_append_left _ member)
  have wholeSmall' : ∀ d ∈ whole', d < 10 := fun d member => small' d (List.mem_append_left _ member)
  -- the integer part is not empty, so the sign is the character before it
  have firstDigit : ∀ (whole : List Nat) (rest : List Char), LeadingDigit whole → (∀ d ∈ whole, d < 10) →
      ∃ ch tail, whole.map Nat.digitChar ++ rest = ch :: tail ∧ isDigit ch = true := by
    intro whole rest leading small
    cases whole with
    | nil => simp [LeadingDigit] at leading
    | cons d ds => exact ⟨_,_,rfl,isDigit_digitChar d (small d List.mem_cons_self)⟩
  simp only [Numeral.render,List.append_assoc] at same
  have signs : negative = negative' := by
    obtain ⟨ch,tail,layout,digit⟩ := firstDigit whole _ leading wholeSmall
    obtain ⟨ch',tail',layout',digit'⟩ := firstDigit whole' _ leading' wholeSmall'
    rw [layout,layout'] at same
    have dash : isDigit '-' = false := by decide
    cases negative <;> cases negative' <;> simp only [signChars,Bool.false_eq_true,if_true,if_false,
      List.nil_append,List.singleton_append,List.cons.injEq] at same
    · rfl
    · rw [same.1,dash] at digit
      contradiction
    · rw [← same.1,dash] at digit'
      contradiction
    · rfl
  subst signs
  obtain ⟨wholes,rest⟩ := digits_append_inj wholeSmall wholeSmall' (noDigitHead_fractionChars fraction part)
    (noDigitHead_fractionChars fraction' part') (List.append_cancel_left same)
  obtain ⟨fractions,parts⟩ := fractionChars_append_inj (fun d member => small d (List.mem_append_right _ member))
    (fun d member => small' d (List.mem_append_right _ member)) rest
  subst wholes fractions parts
  rfl

/-- What the parser makes of a rendered numeral: its exact value, which fits. -/
theorem parseChars_render_eq {n : Numeral} {decimals amount : Int}
    (parsed : parseChars n.render decimals = some amount) :
    (amount : ℚ) = n.value * 10 ^ decimals ∧ |amount| ≤ UPPER_BOUND := by
  obtain ⟨m,rendered,exact,bounded⟩ := parseChars_sound _ decimals amount parsed
  rw [Numeral.render_injective rendered] at exact
  exact ⟨exact,bounded⟩

/-! ### `int end = val.size()` -/

theorem ParseFixedPoint_short (val : List Char) (decimals : Int) (short : val.length < 2 ^ 31) :
    ParseFixedPoint val decimals = parseChars val decimals := by
  have size : toSigned 32 (val.length % 2 ^ 32) = val.length := by
    rw [Nat.mod_eq_of_lt (by omega),toSigned,if_pos short]
  simp only [ParseFixedPoint,size,Int.toNat_natCast,List.take_length]
  rw [if_neg (by omega)]

/-- The characters read are those before the size taken mod `2^32`, and none
when that is `2^31` or more. -/
theorem ParseFixedPoint_wrap (val : List Char) (decimals : Int) :
    ParseFixedPoint val decimals =
      if val.length % 2 ^ 32 < 2 ^ 31 then ParseFixedPoint (val.take (val.length % 2 ^ 32)) decimals
      else none := by
  have reduced : val.length % 2 ^ 32 < 2 ^ 32 := Nat.mod_lt _ (by norm_num)
  split
  · rename_i low
    have prefixShort : (val.take (val.length % 2 ^ 32)).length < 2 ^ 31 := by
      rw [List.length_take]
      omega
    have size : toSigned 32 (val.length % 2 ^ 32) = (val.length % 2 ^ 32 : Nat) := by
      rw [toSigned,if_pos low]
    rw [ParseFixedPoint_short _ _ prefixShort]
    simp only [ParseFixedPoint,size,Int.toNat_natCast]
    rw [if_neg (by omega)]
  · rename_i high
    have size : toSigned 32 (val.length % 2 ^ 32) < 0 := by
      rw [toSigned,if_neg high]
      omega
    simp only [ParseFixedPoint,size,if_true]
    rfl

theorem ParseFixedPoint_sound_complete :
    (∀ (val : List Char) (decimals : Int), ParseFixedPoint val decimals =
        if val.length % 2 ^ 32 < 2 ^ 31 then ParseFixedPoint (val.take (val.length % 2 ^ 32)) decimals
        else none) ∧
    (∀ (val : List Char) (decimals amount : Int), val.length < 2 ^ 31 →
        ParseFixedPoint val decimals = some amount →
        ∃ n : Numeral, n.render = val ∧ (amount : ℚ) = n.value * 10 ^ decimals ∧ |amount| ≤ UPPER_BOUND) ∧
    (∀ (n : Numeral) (decimals amount : Int), n.render.length < 2 ^ 31 → n.value ≠ 0 →
        (amount : ℚ) = n.value * 10 ^ decimals → |amount| ≤ UPPER_BOUND →
        (∀ e ∈ n.exponent, (decimalValue e.digits : Int) ≤ UPPER_BOUND) →
        ParseFixedPoint n.render decimals = some amount) := by
  refine ⟨ParseFixedPoint_wrap,?_,?_⟩
  · intro val decimals amount short parsed
    rw [ParseFixedPoint_short val decimals short] at parsed
    exact parseChars_sound val decimals amount parsed
  · intro n decimals amount short nonzero exact bounded fits
    rw [ParseFixedPoint_short _ decimals short]
    exact parseChars_render n decimals amount nonzero exact bounded fits

/-- `1` and then `2^32` letters. -/
def wrappedInput : List Char := '1' :: List.replicate (2 ^ 32) 'x'

theorem ParseFixedPoint_wrapped_input :
    ParseFixedPoint wrappedInput 0 = some 1 ∧ (∀ n : Numeral, n.render ≠ wrappedInput) ∧
      ∃ n : Numeral, n.render = "-0.1".toList ∧ ((-10000000 : Int) : ℚ) = n.value * 10 ^ (8 : Int) := by
  refine ⟨?_,?_,?_⟩
  · have size : wrappedInput.length % 2 ^ 32 = 1 := by
      rw [wrappedInput,List.length_cons,List.length_replicate,Nat.add_mod_left]
      norm_num
    have first : wrappedInput.take 1 = ['1'] := by
      rw [wrappedInput,List.take_succ_cons,List.take_zero]
    rw [ParseFixedPoint_sound_complete.1,size,if_pos (by norm_num),first]
    decide
  · intro n same
    have letter : 'x' ∈ n.render := by
      rw [same]
      exact List.mem_cons_of_mem _ (List.mem_replicate.mpr ⟨by norm_num,rfl⟩)
    rcases n.mem_render letter with digit | other
    · exact absurd digit (by decide)
    · exact absurd other (by decide)
  · obtain ⟨n,render,value,-⟩ := ParseFixedPoint_sound_complete.2.1 "-0.1".toList 8 (-10000000) (by decide) (by decide)
    exact ⟨n,render,value⟩

example : ParseFixedPoint "9999999999.99999999".toList 8 = some 999999999999999999 := by decide
example : ParseFixedPoint "0.0000000100000000".toList 8 = some 1 := by decide
example : ParseFixedPoint "0.00000001000000001".toList 8 = none := by decide

end Qtum.FixedPoint
