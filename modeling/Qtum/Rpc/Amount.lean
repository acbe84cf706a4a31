import Qtum.Encoding.Money

/-! `AmountFromValue` and `ValueFromAmount` of `rpc/server.cpp`: how the RPC
interface reads an amount from a JSON value and writes one. -/
namespace Qtum.Rpc
open FixedPoint Money

inductive VType where
  | VNULL | VOBJ | VARR | VSTR | VNUM | VBOOL
deriving DecidableEq, Repr

/-- A `UniValue` by its type and `val`, the text of a number or a string;
the members of objects and arrays are not read here. -/
structure UniValue where
  typ : VType
  val : List Char
deriving DecidableEq

def UniValue.isStr (value : UniValue) : Bool := value.typ == .VSTR

def UniValue.isNum (value : UniValue) : Bool := value.typ == .VNUM

def UniValue.getValStr (value : UniValue) : List Char := value.val

def RPC_TYPE_ERROR : Int := -3

/-- The object `JSONRPCError(code, message)` that a call throws. -/
structure JSONRPCError where
  code : Int
  message : String
deriving DecidableEq

def AmountFromValue (value : UniValue) : Except JSONRPCError CAmount :=
  if !value.isNum && !value.isStr then .error ⟨RPC_TYPE_ERROR,"Amount is not a number or string"⟩
  else match ParseFixedPoint value.getValStr 8 with
    | none => .error ⟨RPC_TYPE_ERROR,"Invalid amount"⟩
    | some amount => if !MoneyRange amount then .error ⟨RPC_TYPE_ERROR,"Amount out of range"⟩ else .ok amount

def ValueFromAmount (amount : CAmount) : UniValue :=
  let sign := decide (amount < 0)
  let n_abs := if sign then negate64 amount else amount
  let quotient := n_abs.tdiv COIN
  let remainder := n_abs.tmod COIN
  ⟨.VNUM,(if sign then ['-'] else []) ++ formatDecimal 0 quotient ++ '.' :: formatDecimal 8 remainder⟩

/-! ### Reading back what is written -/

theorem negate64_eq {amount : Int} (low : INT64_MIN < amount) (negative : amount < 0) :
    negate64 amount = -amount := by
  unfold negate64
  rw [toSigned_toUnsigned (by decide)] <;> simp only [INT64_MIN] at low <;> omega

/-- What `ValueFromAmount` writes for an amount above `INT64_MIN`: the number
in JSON syntax with eight decimals, whose value is the amount in coins. -/
theorem ValueFromAmount_render {amount : Int} (low : INT64_MIN < amount) (high : amount ≤ INT64_MAX) :
    ∃ n : Numeral, (ValueFromAmount amount).val = n.render ∧ n.value * 10 ^ (8 : Int) = amount ∧
      n.exponent = none ∧ n.render.length < 2 ^ 31 := by
  have n_abs : (if decide (amount < 0) then negate64 amount else amount) = (amount.natAbs : Int) := by
    by_cases negative : amount < 0
    · rw [decide_eq_true negative,if_pos rfl,negate64_eq low negative]
      omega
    · rw [decide_eq_false negative,if_neg (by simp)]
      omega
  obtain ⟨qs,whole,wholeSmall,leading,wholeValue⟩ := toDigits_eq (amount.natAbs / 10 ^ 8)
  obtain ⟨rs,eight,length,fractionSmall,fractionValue⟩ :=
    formatDecimal_eight (Nat.mod_lt amount.natAbs (by decide : 0 < 10 ^ 8))
  have small : ∀ d ∈ qs ++ rs, d < 10 := by
    intro d member
    rcases List.mem_append.mp member with early | late
    exacts [wholeSmall d early,fractionSmall d late]
  have wholeShort : qs.length ≤ 20 := by
    have fits := (toDigits_length_le (amount.natAbs / 10 ^ 8) (by decide : 0 < 20)).mpr
      (by simp only [INT64_MIN,INT64_MAX] at low high; omega)
    rwa [whole,List.length_map] at fits
  have point : fractionChars rs = '.' :: rs.map Nat.digitChar := by
    cases rs with
    | nil => simp at length
    | cons d ds => rfl
  refine ⟨⟨decide (amount < 0),qs,rs,none,leading,small⟩,?_,?_,rfl,?_⟩
  · have quotient : formatDecimal 0 (Int.tdiv amount.natAbs COIN) = qs.map Nat.digitChar := by
      rw [show Int.tdiv amount.natAbs COIN = ((amount.natAbs / 10 ^ 8 : Nat) : Int) from rfl,
        formatDecimal_natural,whole]
      simp
    have remainder : formatDecimal 8 (Int.tmod amount.natAbs COIN) = rs.map Nat.digitChar := by
      rw [show Int.tmod amount.natAbs COIN = ((amount.natAbs % 10 ^ 8 : Nat) : Int) from rfl,eight]
    simp only [ValueFromAmount,n_abs,quotient,remainder,Numeral.render,point,signChars,exponentChars,
      List.append_nil]
  · have digits : decimalValue (qs ++ rs) = amount.natAbs := by
      rw [decimalValue_append,wholeValue,length,fractionValue]
      exact Nat.div_add_mod' amount.natAbs (10 ^ 8)
    have shift : (10 : ℚ) ^ (exponentValue none - (rs.length : Int)) * 10 ^ (8 : Int) = 1 := by
      rw [length,exponentValue]
      norm_num
    simp only [Numeral.value,digits]
    rw [mul_assoc,shift,mul_one]
    by_cases negative : amount < 0
    · simp only [negative,decide_true,if_true]
      rw [Nat.cast_natAbs,abs_of_neg negative]
      push_cast
      ring
    · simp only [negative,decide_false,Bool.false_eq_true,if_false]
      rw [Nat.cast_natAbs,abs_of_nonneg (not_lt.mp negative)]
      ring
  · simp only [Numeral.render,point,signChars,exponentChars,List.length_append,List.length_map,
      List.length_cons,length,List.length_nil]
    split <;> simp <;> omega

/-- The RPC interface reads back an amount it writes only below `10^18` base
units in size, though `MoneyRange` admits every `int64_t` up to `INT64_MAX`:
the larger ones have more digits than `ParseFixedPoint` takes. A negative
amount reads back and is then out of range. -/
theorem AmountFromValue_ValueFromAmount (amount : Int) (fits : FitsInt64 amount) :
    AmountFromValue (ValueFromAmount amount) =
      if 10 ^ 18 ≤ |amount| then .error ⟨RPC_TYPE_ERROR,"Invalid amount"⟩
      else if amount < 0 then .error ⟨RPC_TYPE_ERROR,"Amount out of range"⟩
      else .ok amount := by
  obtain ⟨low,high⟩ := fits
  -- at `INT64_MIN` the negation wraps, and the text is not a number
  rcases eq_or_lt_of_le low with rfl | low
  · decide
  obtain ⟨n,text,value,plain,short⟩ := ValueFromAmount_render low high
  have parsed : ParseFixedPoint (ValueFromAmount amount).getValStr 8 = parseChars n.render 8 := by
    rw [UniValue.getValStr,text,ParseFixedPoint_short _ _ short]
  have number : (ValueFromAmount amount).isNum = true := rfl
  simp only [AmountFromValue,number,Bool.not_true,Bool.false_and,Bool.false_eq_true,if_false,parsed]
  by_cases large : 10 ^ 18 ≤ |amount|
  · have unread : parseChars n.render 8 = none := by
      cases result : parseChars n.render 8 with
      | none => rfl
      | some x =>
        obtain ⟨exact,bounded⟩ := parseChars_render_eq result
        have same : x = amount := by exact_mod_cast exact.trans value
        rw [same,UPPER_BOUND_eq] at bounded
        exact absurd (lt_of_le_of_lt bounded (by norm_num)) (not_lt.mpr large)
    rw [unread,if_pos large]
  · have bounded : |amount| ≤ UPPER_BOUND := by
      rw [UPPER_BOUND_eq]
      exact Int.le_sub_one_of_lt (not_le.mp large)
    have read : parseChars n.render 8 = some amount := by
      by_cases zero : amount = 0
      · subst zero
        rw [← text]
        decide
      · have nonzero : n.value ≠ 0 := by
          intro none
          rw [none,zero_mul] at value
          exact zero (by exact_mod_cast value.symm)
        exact parseChars_render n 8 amount nonzero value.symm bounded (by simp [plain])
    rw [read,if_neg large]
    by_cases negative : amount < 0
    · have outside : MoneyRange amount = false := by simp [MoneyRange,not_le.mpr negative]
      simp only [outside,Bool.not_false,if_true,if_pos negative]
    · have inside : MoneyRange amount = true := by simp [MoneyRange,MAX_MONEY,not_lt.mp negative,high]
      simp only [inside,Bool.not_true,Bool.false_eq_true,if_false,if_neg negative]

theorem AmountFromValue_ValueFromAmount_large :
    FitsInt64 (10 ^ 18) ∧ MoneyRange (10 ^ 18) = true ∧
      AmountFromValue (ValueFromAmount (10 ^ 18)) = .error ⟨RPC_TYPE_ERROR,"Invalid amount"⟩ :=
  ⟨by decide,by decide,(AmountFromValue_ValueFromAmount (10 ^ 18) (by decide)).trans (by decide)⟩

example : ValueFromAmount (-150000000) = ⟨.VNUM,['-','1','.','5','0','0','0','0','0','0','0']⟩ := by decide
example : AmountFromValue ⟨.VSTR,['1','e','-','8']⟩ = .ok 1 := by decide

end Qtum.Rpc
