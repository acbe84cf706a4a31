import Qtum.Encoding.FixedPoint

/-! `FormatMoney` and `ParseMoney` of `utilmoneystr.cpp`, with the pieces of
`printf` and of the C library they use. A C string is the list of its
characters before the terminating `NUL`. -/
namespace Qtum.Money
open FixedPoint

def NUL : Char := Char.ofNat 0

def CENT : CAmount := 1000000

/-- `isspace` in the C locale. -/
def isspace (ch : Char) : Bool :=
  ch = ' ' || ch = '\t' || ch = '\n' || ch = Char.ofNat 11 || ch = Char.ofNat 12 || ch = '\r'

/-- `%d`, and `%0<width>d`: tinyformat's `0` flag pads with zeros between the
sign and the digits. -/
def formatDecimal (width : Nat) (n : Int) : List Char :=
  let sign := if n < 0 then ['-'] else []
  let digits := Nat.toDigits 10 n.natAbs
  sign ++ List.replicate (width - (sign.length + digits.length)) '0' ++ digits

/-- `-n` on an `int64_t`, which wraps at `INT64_MIN`. -/
def negate64 (n : Int) : Int := toSigned 64 (toUnsigned 64 (-n))

/-- The loop `for (int i = str.size()-1; (str[i] == '0' && isdigit(str[i-2])); --i) ++nTrim;`
run on the reversed string: a character and the one two places nearer the front. -/
def trailingZeros : List Char → Nat
  | ch :: rest => if ch = '0' ∧ isDigit (rest.getD 1 NUL) then trailingZeros rest + 1 else 0
  | [] => 0

def FormatMoney (n : CAmount) : List Char :=
  let n_abs := if n > 0 then n else negate64 n
  let quotient := n_abs.tdiv COIN
  let remainder := n_abs.tmod COIN
  let str := formatDecimal 0 quotient ++ '.' :: formatDecimal 8 remainder
  -- right-trim excess zeros after the point, keeping two
  let nTrim := trailingZeros str.reverse
  let str := if nTrim ≠ 0 then str.take (str.length - nTrim) else str
  if n < 0 then '-' :: str else str

/-- `strtoll(psz, NULL, 10)`: white space, a sign, the digits, saturated at
the bounds of `long long`. -/
def atoi64 (psz : List Char) : Int :=
  let (negative,p) := match psz.dropWhile isspace with
    | '-' :: p => (true,p)
    | '+' :: p => (false,p)
    | p => (false,p)
  let value : Int := decimalValue ((p.takeWhile isDigit).map fun ch => ch.toNat - '0'.toNat)
  if negative then max (-value) INT64_MIN else min value INT64_MAX

/-- The digits after `.`, each worth `nMult`, which starts at `CENT*10` and is
divided by ten after each. -/
def fractionUnits : List Char → Int → Int → Int × List Char
  | ch :: p, nMult, nUnits =>
    if isDigit ch ∧ nMult > 0 then
      fractionUnits p (nMult.tdiv 10) (nUnits + nMult * ((ch.toNat : Int) - ('0'.toNat : Int)))
    else (nUnits,ch :: p)
  | [], _, nUnits => (nUnits,[])

/-- The loop over the integer part: its digits go to `strWhole`; it stops at
the end, at a space or after the fraction that follows a `.`, and fails on any
other character. -/
def wholeDigits : List Char → List Char → Option (List Char × Int × List Char)
  | [], strWhole => some (strWhole,0,[])
  | ch :: p, strWhole =>
    if ch = '.' then
      let (nUnits,p) := fractionUnits p (CENT * 10) 0
      some (strWhole,nUnits,p)
    else if isspace ch then some (strWhole,0,ch :: p)
    else if !isDigit ch then none
    else wholeDigits p (strWhole ++ [ch])

def ParseMoney (pszIn : List Char) : Option CAmount := do
  let (strWhole,nUnits,p) ← wholeDigits (pszIn.dropWhile isspace) []
  if p.any (fun ch => !isspace ch) then none
  -- guard against 63 bit overflow
  else if strWhole.length > 10 then none
  else if nUnits < 0 ∨ nUnits > COIN then none
  else
    let nWhole := atoi64 strWhole
    some (nWhole * COIN + nUnits)

/-! ### Decimal digits -/

theorem decimalValue_replicate_zero (count : Nat) : decimalValue (List.replicate count 0) = 0 := by
  induction count with
  | zero => rfl
  | succ count ih => rw [List.replicate_succ,decimalValue_zero_cons,ih]

theorem decimalValue_lt {ds : List Nat} (small : ∀ d ∈ ds, d < 10) : decimalValue ds < 10 ^ ds.length := by
  unfold decimalValue
  rw [← List.length_reverse]
  exact Nat.ofDigits_lt_base_pow_length (by decide) (by simpa using small)

/-- `%d` of a number that is not negative: its decimal digits, the first not
zero unless it is the only one. -/
theorem toDigits_eq (q : Nat) : ∃ ds, Nat.toDigits 10 q = ds.map Nat.digitChar ∧ (∀ d ∈ ds, d < 10) ∧
    LeadingDigit ds ∧ decimalValue ds = q := by
  induction q using Nat.strong_induction_on with
  | _ q ih =>
    by_cases single : q < 10
    · refine ⟨[q],Nat.toDigits_of_lt_base single,by simpa using single,?_,by simp [decimalValue]⟩
      rcases Nat.eq_zero_or_pos q with rfl | positive
      exacts [Or.inl rfl,Or.inr ⟨q,rfl,positive⟩]
    · have last : q % 10 < 10 := Nat.mod_lt q (by decide)
      have split := Nat.toDigits_append_toDigits (by decide : 1 < 10) (by omega : 0 < q / 10) last
      rw [Nat.div_add_mod,Nat.toDigits_of_lt_base last] at split
      obtain ⟨ds,layout,small,leading,value⟩ := ih (q / 10) (by omega)
      -- the digits of `q / 10` do not start with a zero, since it is not zero
      have first : ∃ d ∈ ds.head?, 0 < d := by
        rcases leading with rfl | first
        · simp [decimalValue] at value
          omega
        · exact first
      refine ⟨ds ++ [q % 10],?_,?_,?_,?_⟩
      · rw [← split,layout,List.map_append,List.map_singleton]
      · intro d member
        rcases List.mem_append.mp member with early | late
        · exact small d early
        · rw [List.mem_singleton.mp late]
          exact last
      · obtain ⟨d,head,positive⟩ := first
        exact Or.inr ⟨d,by rw [List.head?_append,head]; rfl,positive⟩
      · rw [decimalValue_append_singleton,value]
        omega

theorem toDigits_length_le (q : Nat) {k : Nat} (positive : 0 < k) :
    (Nat.toDigits 10 q).length ≤ k ↔ q < 10 ^ k := by
  obtain ⟨ds,layout,small,-,value⟩ := toDigits_eq q
  constructor
  · intro short
    rw [layout,List.length_map] at short
    calc q = decimalValue ds := value.symm
      _ < 10 ^ ds.length := decimalValue_lt small
      _ ≤ 10 ^ k := Nat.pow_le_pow_right (by decide) short
  · exact Nat.toDigits_length 10 q k positive

theorem formatDecimal_natural (width q : Nat) :
    formatDecimal width q = List.replicate (width - (Nat.toDigits 10 q).length) '0' ++ Nat.toDigits 10 q := by
  have nonneg : ¬ (q : Int) < 0 := by omega
  simp [formatDecimal,nonneg]

/-- `%08d` of a number below `10^8`: eight digits. -/
theorem formatDecimal_eight {r : Nat} (below : r < 10 ^ 8) :
    ∃ rs, formatDecimal 8 r = rs.map Nat.digitChar ∧ rs.length = 8 ∧ (∀ d ∈ rs, d < 10) ∧ decimalValue rs = r := by
  obtain ⟨ds,layout,small,-,value⟩ := toDigits_eq r
  have short : ds.length ≤ 8 := by
    have fits := (toDigits_length_le r (by decide : 0 < 8)).mpr below
    rwa [layout,List.length_map] at fits
  refine ⟨List.replicate (8 - ds.length) 0 ++ ds,?_,by simp; omega,?_,?_⟩
  · rw [formatDecimal_natural,layout,List.length_map,List.map_append,List.map_replicate]
    rfl
  · intro d member
    rcases List.mem_append.mp member with zero | digit
    · rw [(List.mem_replicate.mp zero).2]
      decide
    · exact small d digit
  · rw [decimalValue_append,decimalValue_replicate_zero,Nat.zero_mul,Nat.zero_add,value]

/-! ### `FormatMoney` -/

/-- The digits of a fraction printed with eight places and trimmed: the
zeros past the second place are gone. -/
structure Trimmed (r : Nat) (kept : List Nat) : Prop where
  small : ∀ d ∈ kept, d < 10
  two_le : 2 ≤ kept.length
  le_eight : kept.length ≤ 8
  value : decimalValue kept * 10 ^ (8 - kept.length) = r
  last : kept.length = 2 ∨ kept.getLast? ≠ some 0

theorem isDigit_point : isDigit '.' = false := by decide

/-- The trim loop over the fraction's digits `rs`, walked from the end: it
drops the zeros there but keeps two digits. -/
theorem trailingZeros_digits (rest : List Char) : ∀ (rs : List Nat), (∀ d ∈ rs, d < 10) → 2 ≤ rs.length →
    ∃ z kept, rs = List.replicate z 0 ++ kept ∧ 2 ≤ kept.length ∧ (kept.length = 2 ∨ kept.head? ≠ some 0) ∧
      trailingZeros (rs.map Nat.digitChar ++ '.' :: rest) = z
  | [], _, short => absurd short (by simp)
  | [_], _, short => absurd short (by simp)
  | [a,b], _, _ => ⟨0,[a,b],rfl,le_refl _,Or.inl rfl,by simp [trailingZeros,List.getD,isDigit_point]⟩
  | r :: s :: t :: rs, small, _ => by
    have digit : isDigit ((Nat.digitChar s :: Nat.digitChar t :: (rs.map Nat.digitChar ++ '.' :: rest)).getD 1 NUL) = true :=
      isDigit_digitChar t (small t (by simp))
    by_cases zero : r = 0
    · subst zero
      obtain ⟨z,kept,layout,two,last,count⟩ :=
        trailingZeros_digits rest (s :: t :: rs) (fun d member => small d (List.mem_cons_of_mem _ member)) (by simp)
      refine ⟨z + 1,kept,by rw [layout]; rfl,two,last,?_⟩
      simp only [List.map_cons,List.cons_append] at count ⊢
      rw [trailingZeros,if_pos ⟨rfl,digit⟩,count]
    · have notZero : Nat.digitChar r ≠ '0' := by
        intro same
        exact zero (digitChar_inj (small r List.mem_cons_self) (by decide) same)
      refine ⟨0,r :: s :: t :: rs,rfl,by simp,Or.inr (by simpa using zero),?_⟩
      simp only [List.map_cons,List.cons_append]
      rw [trailingZeros,if_neg (fun both => notZero both.1)]

/-- `FormatMoney` of an amount that is not negative: the whole coins, a point,
and the eight places of the rest without their zeros past the second. -/
theorem FormatMoney_natural (n : Nat) :
    ∃ kept, FormatMoney n = Nat.toDigits 10 (n / 10 ^ 8) ++ '.' :: kept.map Nat.digitChar ∧
      Trimmed (n % 10 ^ 8) kept := by
  have n_abs : (if (n : Int) > 0 then (n : Int) else negate64 n) = n := by
    split
    · rfl
    · obtain rfl : n = 0 := by omega
      rfl
  obtain ⟨rs,eight,length,small,value⟩ := formatDecimal_eight (Nat.mod_lt n (by decide : 0 < 10 ^ 8))
  obtain ⟨z,kept,layout,two,last,count⟩ := trailingZeros_digits ((Nat.toDigits 10 (n / 10 ^ 8)).reverse) rs.reverse
    (by simpa using small) (by simp [length])
  have digits : rs = kept.reverse ++ List.replicate z 0 := by
    rw [← List.reverse_reverse rs,layout,List.reverse_append,List.reverse_replicate]
  have lengths : kept.length + z = 8 := by
    have := congrArg List.length digits
    simp [length] at this
    omega
  have whole : formatDecimal 0 (Int.tdiv n COIN) = Nat.toDigits 10 (n / 10 ^ 8) := by
    rw [show Int.tdiv n COIN = ((n / 10 ^ 8 : Nat) : Int) from rfl,formatDecimal_natural]
    simp
  have fraction : formatDecimal 8 (Int.tmod n COIN) = rs.map Nat.digitChar := by
    rw [show Int.tmod n COIN = ((n % 10 ^ 8 : Nat) : Int) from rfl,eight]
  have str : formatDecimal 0 (Int.tdiv n COIN) ++ '.' :: formatDecimal 8 (Int.tmod n COIN) =
      (Nat.toDigits 10 (n / 10 ^ 8) ++ '.' :: kept.reverse.map Nat.digitChar) ++ List.replicate z '0' := by
    rw [whole,fraction,digits,List.map_append,List.map_replicate]
    simp
  have trim : trailingZeros ((Nat.toDigits 10 (n / 10 ^ 8) ++ '.' :: kept.reverse.map Nat.digitChar) ++
      List.replicate z '0').reverse = z := by
    rw [← str,whole,fraction,List.reverse_append,List.reverse_cons,List.append_assoc,List.singleton_append,
      ← List.map_reverse,count]
  refine ⟨kept.reverse,?_,⟨by simpa using fun d member => small d (by rw [digits]; simp [member]),
    by simpa using two,by simp; omega,?_,?_⟩⟩
  · have nonneg : ¬ ((n : Int) < 0) := by omega
    simp only [FormatMoney,n_abs,str,trim,nonneg,if_false]
    split
    · exact List.take_left' (by simp; omega)
    · simp_all
  · rw [← value,digits,decimalValue_append,decimalValue_replicate_zero,List.length_reverse]
    simp only [List.length_replicate,Nat.add_zero]
    congr 2
    omega
  · rcases last with two | first
    · exact Or.inl (by simpa using two)
    · exact Or.inr (by rwa [List.getLast?_reverse])

/-! ### `ParseMoney` -/

theorem isspace_digitChar : ∀ d, d < 10 → isspace (Nat.digitChar d) = false := by decide

theorem digitChar_ne_point : ∀ d, d < 10 → Nat.digitChar d ≠ '.' := by decide

theorem digitChar_sub_zero : ∀ d, d < 10 → (Nat.digitChar d).toNat - '0'.toNat = d := by decide

/-- The integer part's loop copies its digits to `strWhole`. -/
theorem wholeDigits_digits (ds : List Nat) (p strWhole : List Char) (small : ∀ d ∈ ds, d < 10) :
    wholeDigits (ds.map Nat.digitChar ++ p) strWhole = wholeDigits p (strWhole ++ ds.map Nat.digitChar) := by
  induction ds generalizing strWhole with
  | nil => simp
  | cons d ds ih =>
    have digit : d < 10 := small d List.mem_cons_self
    simp only [List.map_cons,List.cons_append,wholeDigits,digitChar_ne_point d digit,isspace_digitChar d digit,
      isDigit_digitChar d digit,if_false,Bool.not_true,Bool.false_eq_true]
    rw [ih _ (fun d member => small d (List.mem_cons_of_mem _ member)),List.append_assoc,List.singleton_append]

/-- The fraction's loop on digits that fill the places from `nMult = 10^j`
down, `gap` places short of the units. -/
theorem fractionUnits_digits (ks : List Nat) (j gap : Nat) (nUnits : Int) (small : ∀ d ∈ ks, d < 10)
    (places : ks.length + gap = j + 1) :
    fractionUnits (ks.map Nat.digitChar) (10 ^ j) nUnits = (nUnits + decimalValue ks * 10 ^ gap,[]) := by
  induction ks generalizing j nUnits with
  | nil => simp [fractionUnits,decimalValue]
  | cons k ks ih =>
    have digit : k < 10 := small k List.mem_cons_self
    have positive : (10 : Int) ^ j > 0 := by positivity
    have value : ((Nat.digitChar k).toNat : Int) - ('0'.toNat : Int) = k := by
      rw [Nat.toNat_digitChar_of_lt_ten digit,show '0'.toNat = 48 from rfl]
      push_cast
      ring
    simp only [List.map_cons,fractionUnits,isDigit_digitChar k digit,positive,and_self,if_true,value]
    cases ks with
    | nil =>
      obtain rfl : gap = j := by simpa [Nat.add_comm] using places
      simp [fractionUnits,decimalValue,mul_comm]
    | cons k' ks =>
      -- another digit: `nMult` was at least ten
      obtain ⟨i,rfl⟩ : ∃ i, j = i + 1 := ⟨j - 1,by simp at places; omega⟩
      have divided : ((10 : Int) ^ (i + 1)).tdiv 10 = 10 ^ i := by
        rw [pow_succ,Int.mul_tdiv_cancel _ (by decide)]
      have rest : (k' :: ks).length + gap = i + 1 := by simp at places ⊢; omega
      rw [divided,ih i _ (fun d member => small d (List.mem_cons_of_mem _ member)) rest]
      have place : decimalValue (k :: k' :: ks) = k * 10 ^ (k' :: ks).length + decimalValue (k' :: ks) := by
        rw [← List.singleton_append,decimalValue_append]
        simp [decimalValue]
      rw [place,Prod.mk.injEq]
      refine ⟨?_,rfl⟩
      push_cast
      rw [add_mul,mul_assoc,← pow_add,rest]
      ring

theorem atoi64_digits (ds : List Nat) (small : ∀ d ∈ ds, d < 10) (fits : (decimalValue ds : Int) ≤ INT64_MAX) :
    atoi64 (ds.map Nat.digitChar) = decimalValue ds := by
  have noSpace : (ds.map Nat.digitChar).dropWhile isspace = ds.map Nat.digitChar := by
    cases ds with
    | nil => rfl
    | cons d ds => simp [isspace_digitChar d (small d List.mem_cons_self)]
  have unsigned : ∀ p : List Char, (match ds.map Nat.digitChar with
      | '-' :: p => (true,p)
      | '+' :: p => (false,p)
      | p => (false,p)) = (false,ds.map Nat.digitChar) := by
    intro _
    cases ds with
    | nil => rfl
    | cons d ds =>
      have noSign : Nat.digitChar d ≠ '-' ∧ Nat.digitChar d ≠ '+' := by
        have all : ∀ d, d < 10 → Nat.digitChar d ≠ '-' ∧ Nat.digitChar d ≠ '+' := by decide
        exact all d (small d List.mem_cons_self)
      simp [noSign.1,noSign.2]
  have digits : (ds.map Nat.digitChar).takeWhile isDigit = ds.map Nat.digitChar := by
    have whole := @List.takeWhile_append_of_pos _ isDigit (ds.map Nat.digitChar) []
      (by simpa using fun d member => isDigit_digitChar d (small d member))
    simpa using whole
  have values : (ds.map Nat.digitChar).map (fun ch => ch.toNat - '0'.toNat) = ds := by
    rw [List.map_map]
    exact (List.map_congr_left (fun d member => digitChar_sub_zero d (small d member))).trans (List.map_id ds)
  simp only [atoi64,noSpace,unsigned [],digits,values,Bool.false_eq_true,if_false]
  exact min_eq_left fits

/-- `ParseMoney` of what `FormatMoney` prints for an amount that is not
negative: the amount, if the whole coins have at most ten digits. -/
theorem ParseMoney_printed (q : Nat) {r : Nat} {kept : List Nat} (trimmed : Trimmed r kept) (below : r < 10 ^ 8) :
    ParseMoney (Nat.toDigits 10 q ++ '.' :: kept.map Nat.digitChar) =
      if q < 10 ^ 10 then some (q * COIN + r) else none := by
  obtain ⟨qs,layout,small,leading,value⟩ := toDigits_eq q
  have noSpace : (qs.map Nat.digitChar ++ '.' :: kept.map Nat.digitChar).dropWhile isspace =
      qs.map Nat.digitChar ++ '.' :: kept.map Nat.digitChar := by
    cases qs with
    | nil => simp [LeadingDigit] at leading
    | cons d ds => simp [isspace_digitChar d (small d List.mem_cons_self)]
  have units : fractionUnits (kept.map Nat.digitChar) (CENT * 10) 0 = ((r : Int),[]) := by
    have places : kept.length + (8 - kept.length) = 7 + 1 := by have := trimmed.le_eight; omega
    rw [show CENT * 10 = 10 ^ 7 from rfl,fractionUnits_digits kept 7 _ 0 trimmed.small places,← trimmed.value]
    simp
  have read : wholeDigits (qs.map Nat.digitChar ++ '.' :: kept.map Nat.digitChar) [] =
      some (qs.map Nat.digitChar,(r : Int),[]) := by
    rw [wholeDigits_digits qs _ [] small,List.nil_append]
    simp only [wholeDigits,if_true,units]
  have digits : (qs.map Nat.digitChar).length = (Nat.toDigits 10 q).length := by rw [layout]
  rw [layout]
  simp only [ParseMoney,noSpace,read,bind,Option.bind_some,List.any_nil,Bool.false_eq_true,if_false]
  by_cases fits : q < 10 ^ 10
  · have short : (Nat.toDigits 10 q).length ≤ 10 := (toDigits_length_le q (by decide)).mpr fits
    have wholeFits : (decimalValue qs : Int) ≤ INT64_MAX := by
      rw [value,INT64_MAX]
      omega
    rw [if_neg (by omega),if_neg (by rw [COIN]; omega),atoi64_digits qs small wholeFits,value,if_pos fits]
  · have long : ¬ (Nat.toDigits 10 q).length ≤ 10 := fun short => fits ((toDigits_length_le q (by decide)).mp short)
    rw [if_pos (by omega),if_neg fits]

theorem wholeDigits_minus (p strWhole : List Char) : wholeDigits ('-' :: p) strWhole = none := by
  simp [wholeDigits,isspace,isDigit]

/-- `ParseMoney` reads back what `FormatMoney` prints exactly for the amounts
from `0` to `10^18 - 1` and rejects it for every other amount: a negative one
for its sign, a larger one for its eleven or more whole digits. -/
theorem ParseMoney_FormatMoney (n : Int) :
    ParseMoney (FormatMoney n) = if 0 ≤ n ∧ n < 10 ^ 18 then some n else none := by
  by_cases negative : n < 0
  · rw [if_neg (show ¬ (0 ≤ n ∧ n < 10 ^ 18) by omega)]
    have printed : ∃ str, FormatMoney n = '-' :: str := by
      simp only [FormatMoney,negative,if_true]
      exact ⟨_,rfl⟩
    obtain ⟨str,printed⟩ := printed
    rw [printed]
    simp [ParseMoney,isspace,wholeDigits_minus]
  · obtain ⟨m,rfl⟩ := Int.eq_ofNat_of_zero_le (not_lt.mp negative)
    obtain ⟨kept,printed,trimmed⟩ := FormatMoney_natural m
    rw [printed,ParseMoney_printed _ trimmed (Nat.mod_lt m (by decide))]
    have coins : m / 10 ^ 8 < 10 ^ 10 ↔ (m : Int) < 10 ^ 18 := by
      constructor <;> intro h <;> omega
    by_cases small : (m : Int) < 10 ^ 18
    · have split : ((m / 10 ^ 8 : Nat) : Int) * 100000000 + ((m % 10 ^ 8 : Nat) : Int) = m := by omega
      rw [if_pos (coins.mpr small),if_pos (show 0 ≤ (m : Int) ∧ (m : Int) < 10 ^ 18 from ⟨by omega,small⟩),
        COIN,split]
    · rw [if_neg (fun h => small (coins.mp h)),if_neg (fun h => small h.2)]

example : FormatMoney 123450000 = ['1','.','2','3','4','5'] := by decide
example : FormatMoney (-100000000) = ['-','1','.','0','0'] := by decide
example : ParseMoney [' ','1','.','2','3','4','5',' '] = some 123450000 := by decide
example : ParseMoney ['1','.','1','2','3','4','5','6','7','8','9'] = none := by decide

end Qtum.Money
