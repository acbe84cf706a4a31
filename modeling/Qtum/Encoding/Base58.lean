import Mathlib.Data.List.TakeWhile
import Qtum.Library.Radix
import Qtum.Library.Abort
import Qtum.Primitives.Blob

/-! `DecodeBase58` and `EncodeBase58` of `base58.cpp`. Both convert between
bases in a buffer of fixed size, most significant digit first, by a
multiply-add pass from its last digit: `b256 = b256 * 58 + ch` for each
character, `b58 = b58 * 256 + byte` for each byte, with `assert(carry == 0)`
after each pass. Leading zero bytes and leading `'1'` characters are counted
apart. The buffer sizes `len * 733 / 1000 + 1` and `len * 138 / 100 + 1` come
from `58 ^ 1000 ≤ 256 ^ 733` and `256 ^ 100 ≤ 58 ^ 138`, so no assertion
fails; each direction inverts the other on the canonical strings. -/
namespace Qtum.Base58

def pszBase58 : List Char := "123456789ABCDEFGHJKLMNPQRSTUVWXYZabcdefghijkmnopqrstuvwxyz".toList

/-- `isspace` in the "C" locale: space, tab, newline, vertical tab, form feed
and carriage return. -/
def isspace (c : Char) : Bool :=
  c == ' ' || c == '\t' || c == '\n' || c == Char.ofNat 11 || c == Char.ofNat 12 || c == '\r'

/-- The loop of `DecodeBase58` over the digits, up to the first space or the
end; none for a character outside the alphabet, else the buffer and what is
left of the string. -/
def decodeDigits : List Char → List Nat → Except Abort (Option (List Nat × List Char))
  | [], b256 => .ok (some (b256,[]))
  | c :: psz, b256 =>
    if isspace c then .ok (some (b256,c :: psz))
    else
      match pszBase58.idxOf? c with
      | none => .ok none
      | some ch =>
        let pass := Radix.mulAdd 256 58 ch b256.reverse
        if pass.2 ≠ 0 then .error .assertion else decodeDigits psz pass.1.reverse

/-- `DecodeBase58(psz, vch)` on the characters of the C string `psz`: the
bytes it leaves in `vch` when it returns true. -/
def DecodeBase58 (psz : List Char) : Except Abort (Option (List UInt8)) := do
  let psz := psz.dropWhile isspace
  -- `int zeroes` counts the leading '1's: the `2 ^ 31`-th overflows it
  let zeroes := (psz.takeWhile (· == '1')).length
  if 2 ^ 31 ≤ zeroes then throw .overflow
  let psz := psz.dropWhile (· == '1')
  match ← decodeDigits psz (List.replicate (psz.length * 733 / 1000 + 1) 0) with
  | none => .ok none
  | some (b256,psz) =>
    if (psz.dropWhile isspace).isEmpty then
      .ok (some (List.replicate zeroes 0 ++ (b256.dropWhile (· == 0)).map UInt8.ofNat))
    else .ok none

/-- The loop of `EncodeBase58` over the bytes; the buffer and `length`, the
number of its last digits in use. -/
def encodeBytes : List UInt8 → List Nat → Nat → Except Abort (List Nat × Nat)
  | [], b58, length => .ok (b58,length)
  | byte :: bytes, b58, length =>
    let pass := Radix.mulAddWhile 58 256 length byte.toNat 0 b58.reverse
    if pass.2.1 ≠ 0 then .error .assertion else encodeBytes bytes pass.1.reverse pass.2.2

/-- `EncodeBase58(pbegin, pend)` on the bytes from `pbegin` to `pend`. The
buffer size is an `int`: `(pend - pbegin) * 138 / 100 + 1`, computed in 64
bits, is converted to it modulo `2 ^ 32`, and the `std::vector` constructor
throws on a negative size. -/
def EncodeBase58 (input : List UInt8) : Except Abort (List Char) := do
  -- `int zeroes` counts the leading zero bytes: the `2 ^ 31`-th overflows it
  let zeroes := (input.takeWhile (· == 0)).length
  if 2 ^ 31 ≤ zeroes then throw .overflow
  let input := input.dropWhile (· == 0)
  let size := toSigned 32 ((input.length * 138 / 100 + 1) % 2 ^ 32)
  if size < 0 then throw .exception
  let size := size.toNat
  let (b58,length) ← encodeBytes input (List.replicate size 0) 0
  let digits := (b58.drop (size - length)).dropWhile (· == 0)
  let str ← digits.mapM fun digit =>
    match pszBase58[digit]? with
    | some c => .ok c
    | none => .error .outOfRange
  return List.replicate zeroes '1' ++ str

/-! ## The alphabet -/

theorem pszBase58_chars : pszBase58 =
    ['1','2','3','4','5','6','7','8','9','A','B','C','D','E','F','G','H','J','K','L','M','N','P','Q','R','S','T','U','V','W','X','Y','Z','a','b','c','d','e','f','g','h','i','j','k','m','n','o','p','q','r','s','t','u','v','w','x','y','z'] := rfl

/-- `pszBase58[digit]`. -/
def digitChar (digit : Nat) : Char := pszBase58.getD digit '1'

theorem digitChar_spec : ∀ d < 58, pszBase58.idxOf? (digitChar d) = some d ∧ isspace (digitChar d) = false := by
  decide

theorem alphabet_spec : ∀ c ∈ pszBase58, pszBase58.idxOf c < 58 ∧ digitChar (pszBase58.idxOf c) = c := by
  intro c member
  have inside : pszBase58.idxOf c < pszBase58.length := List.idxOf_lt_length_of_mem member
  refine ⟨inside,?_⟩
  rw [digitChar,List.getD_eq_getElem?_getD,List.getElem?_eq_getElem inside,Option.getD_some,List.getElem_idxOf inside]

theorem getElem?_pszBase58 {d : Nat} (small : d < 58) : pszBase58[d]? = some (digitChar d) := by
  have inside : d < pszBase58.length := small
  simp [digitChar,List.getD_eq_getElem?_getD,inside]

theorem digitChar_eq_one {d : Nat} (small : d < 58) : digitChar d = '1' ↔ d = 0 := by
  constructor
  · intro one
    have found := (digitChar_spec d small).1
    rw [one] at found
    have first : pszBase58.idxOf? '1' = some 0 := rfl
    rw [first] at found
    exact (Option.some.inj found).symm
  · rintro rfl
    rfl

/-! ## Lists read from the front -/

private theorem dropWhile_of_head {α : Type} (p : α → Bool) {l : List α} (stops : ∀ x, l.head? = some x → p x = false) :
    l.dropWhile p = l := by
  cases l with
  | nil => rfl
  | cons x rest => exact List.dropWhile_cons_of_neg (by simp [stops x rfl])

private theorem takeWhile_replicate_append {α : Type} (p : α → Bool) {a : α} (taken : p a = true) (k : Nat)
    {rest : List α} (stops : ∀ x, rest.head? = some x → p x = false) :
    (List.replicate k a ++ rest).takeWhile p = List.replicate k a := by
  induction k with
  | zero =>
    cases rest with
    | nil => rfl
    | cons x rest => exact List.takeWhile_cons_of_neg (by simp [stops x rfl])
  | succ k ih => simp [List.replicate_succ,taken,ih]

/-- A list is its run of `a` at the front followed by the rest. -/
private theorem replicate_takeWhile_append {α : Type} [DecidableEq α] (a : α) (l : List α) :
    List.replicate (l.takeWhile (· == a)).length a ++ l.dropWhile (· == a) = l := by
  have run : l.takeWhile (· == a) = List.replicate (l.takeWhile (· == a)).length a := by
    rw [List.eq_replicate_iff]
    refine ⟨rfl,fun x member => ?_⟩
    simpa using List.mem_takeWhile_imp member
  rw [← run]
  exact List.takeWhile_append_dropWhile

private theorem head_dropWhile {α : Type} (p : α → Bool) (l : List α) :
    ∀ x, (l.dropWhile p).head? = some x → p x = false := by
  intro x first
  have stops := List.head?_dropWhile_not p l
  rw [first] at stops
  exact stops

/-! ## Decoding -/

/-- One character of the digit loop on a buffer with room for it and `n`
more: no carry is left, and the new buffer has room for the `n`. -/
private theorem decodePass {b256 : List Nat} {ch n : Nat} (small : ch < 58)
    (room : (Nat.ofDigits 256 b256.reverse + 1) * 58 ^ (n + 1) ≤ 256 ^ b256.length) :
    (Radix.mulAdd 256 58 ch b256.reverse).2 = 0 ∧
      (Radix.mulAdd 256 58 ch b256.reverse).1.reverse.length = b256.length ∧
      (∀ x ∈ (Radix.mulAdd 256 58 ch b256.reverse).1.reverse, x < 256) ∧
      Nat.ofDigits 256 (Radix.mulAdd 256 58 ch b256.reverse).1.reverse.reverse =
        Nat.ofDigits 256 b256.reverse * 58 + ch ∧
      (Nat.ofDigits 256 (Radix.mulAdd 256 58 ch b256.reverse).1.reverse.reverse + 1) * 58 ^ n ≤
        256 ^ (Radix.mulAdd 256 58 ch b256.reverse).1.reverse.length := by
  obtain ⟨spent,value,rest⟩ := @Radix.mulAdd_room 256 58 ch n b256.reverse small (by rw [List.length_reverse]; exact room)
  have length : (Radix.mulAdd 256 58 ch b256.reverse).1.reverse.length = b256.length := by simp
  refine ⟨spent,length,?_,?_,?_⟩
  · intro x member
    exact Radix.mulAdd_lt (by norm_num) _ _ x (List.mem_reverse.mp member)
  · rw [List.reverse_reverse,value]
  · rw [List.reverse_reverse,length]
    simpa using rest

private theorem decodeDigits_digit {c : Char} {psz : List Char} {b256 : List Nat} {ch : Nat}
    (notSpace : isspace c = false) (index : pszBase58.idxOf? c = some ch)
    (spent : (Radix.mulAdd 256 58 ch b256.reverse).2 = 0) :
    decodeDigits (c :: psz) b256 = decodeDigits psz (Radix.mulAdd 256 58 ch b256.reverse).1.reverse := by
  simp [decodeDigits,notSpace,index,spent]

/-- The digit loop on the characters of digits, with room in the buffer,
reads all of them: the buffer ends as `b256 * 58 ^ n` plus their value. -/
theorem decodeDigits_digits (digits : List Nat) (small : ∀ d ∈ digits, d < 58) :
    ∀ b256 : List Nat, (∀ x ∈ b256, x < 256) →
      (Nat.ofDigits 256 b256.reverse + 1) * 58 ^ digits.length ≤ 256 ^ b256.length →
      ∃ b256', decodeDigits (digits.map digitChar) b256 = .ok (some (b256',[])) ∧ b256'.length = b256.length ∧
        (∀ x ∈ b256', x < 256) ∧
        Nat.ofDigits 256 b256'.reverse =
          Nat.ofDigits 256 b256.reverse * 58 ^ digits.length + Nat.ofDigits 58 digits.reverse := by
  induction digits with
  | nil =>
    intro b256 bytes _
    exact ⟨b256,rfl,rfl,bytes,by simp⟩
  | cons digit digits ih =>
    intro b256 _ room
    have lower : digit < 58 := small digit List.mem_cons_self
    obtain ⟨found,notSpace⟩ := digitChar_spec digit lower
    obtain ⟨spent,length,bytes,value,rest⟩ := decodePass (n := digits.length) lower room
    obtain ⟨b256',run,length',bytes',value'⟩ :=
      ih (fun d member => small d (List.mem_cons_of_mem _ member)) _ bytes rest
    refine ⟨b256',by rw [List.map_cons,decodeDigits_digit notSpace found spent]; exact run,
      by rw [length',length],bytes',?_⟩
    rw [value',value,List.reverse_cons,Nat.ofDigits_append,Nat.ofDigits_singleton,List.length_reverse,
      List.length_cons,Nat.pow_succ]
    ring

/-- The digit loop never fails its assertion on a buffer with room for every
character left. -/
theorem decodeDigits_ok (psz : List Char) :
    ∀ b256 : List Nat, (∀ x ∈ b256, x < 256) →
      (Nat.ofDigits 256 b256.reverse + 1) * 58 ^ psz.length ≤ 256 ^ b256.length →
      ∃ result, decodeDigits psz b256 = .ok result := by
  induction psz with
  | nil => intro b256 _ _; exact ⟨_,rfl⟩
  | cons c psz ih =>
    intro b256 _ room
    cases space : isspace c with
    | true => exact ⟨_,by rw [decodeDigits,if_pos space]⟩
    | false =>
      cases index : pszBase58.idxOf? c with
      | none => exact ⟨none,by simp [decodeDigits,space,index]⟩
      | some ch =>
        -- the index of a character of the alphabet is below its length
        have lower : ch < 58 := (List.idxOf?_eq_some_iff.mp index).1
        obtain ⟨spent,-,bytes,-,rest⟩ := decodePass (n := psz.length) lower room
        obtain ⟨result,run⟩ := ih _ bytes rest
        exact ⟨result,by rw [decodeDigits_digit space index spent]; exact run⟩

theorem decode_room (k : Nat) : 58 ^ k ≤ 256 ^ (k * 733 / 1000 + 1) := by
  -- 58 ^ 1000 ≤ 256 ^ 733, in factors small enough to evaluate
  have ratio : (58 : Nat) ^ (191 * 5 + 45) ≤ 256 ^ (140 * 5 + 33) := by
    rw [Nat.pow_add 58 (191 * 5) 45,Nat.pow_add 256 (140 * 5) 33,Nat.pow_mul 58 191 5,Nat.pow_mul 256 140 5]
    exact Nat.mul_le_mul (Nat.pow_le_pow_left (by norm_num) 5) (by norm_num)
  exact Radix.pow_le_pow_div_succ ratio (by norm_num) (by norm_num) k

/-- `DecodeBase58` of a run of `'1'` and then canonical digits: a zero byte
for each `'1'`, then the canonical bytes of the digits' value. -/
theorem DecodeBase58_canonical {zeroes : Nat} (fewOnes : zeroes < 2 ^ 31) (digits : List Nat)
    (small : ∀ d ∈ digits, d < 58) (top : digits.head? ≠ some 0) :
    DecodeBase58 (List.replicate zeroes '1' ++ digits.map digitChar) =
      .ok (some (List.replicate zeroes 0 ++
        (Nat.digits 256 (Nat.ofDigits 58 digits.reverse)).reverse.map UInt8.ofNat)) := by
  -- the digits start with neither a space nor a '1'
  have first : ∀ x, (digits.map digitChar).head? = some x → isspace x = false ∧ (x == '1') = false := by
    intro x head
    cases digits with
    | nil => cases head
    | cons d ds =>
      simp only [List.map_cons,List.head?_cons,Option.some.injEq] at head
      subst head
      have lower := small d List.mem_cons_self
      have nonzero : d ≠ 0 := fun zero => top (by rw [zero]; rfl)
      refine ⟨(digitChar_spec d lower).2,?_⟩
      simpa using mt (digitChar_eq_one lower).mp nonzero
  have noSpace : ∀ x, (List.replicate zeroes '1' ++ digits.map digitChar).head? = some x → isspace x = false := by
    intro x head
    cases zeroes with
    | zero => exact (first x head).1
    | succ k =>
      simp only [List.replicate_succ,List.cons_append,List.head?_cons,Option.some.injEq] at head
      rw [← head]
      rfl
  have noOne : ∀ x, (digits.map digitChar).head? = some x → (x == '1') = false := fun x head => (first x head).2
  unfold DecodeBase58
  dsimp only
  rw [dropWhile_of_head isspace noSpace,takeWhile_replicate_append _ (by rfl) zeroes noOne,List.length_replicate,
    Radix.dropWhile_replicate_append _ (by rfl) zeroes,dropWhile_of_head _ noOne]
  have room : (Nat.ofDigits 256 (List.replicate ((digits.map digitChar).length * 733 / 1000 + 1) 0).reverse + 1) *
      58 ^ digits.length ≤ 256 ^ (List.replicate ((digits.map digitChar).length * 733 / 1000 + 1) 0).length := by
    simpa using decode_room digits.length
  obtain ⟨b256,run,-,bytes,value⟩ := decodeDigits_digits digits small _ (by simp) room
  rw [run]
  simp only [List.reverse_replicate,Nat.ofDigits_replicate_zero,Nat.zero_mul,Nat.zero_add] at value
  have canonical := @Radix.dropWhile_reverse 256 (by norm_num)
    b256.reverse (fun x member => bytes x (List.mem_reverse.mp member))
  rw [List.reverse_reverse,value] at canonical
  rw [if_neg (Nat.not_le.mpr fewOnes)]
  simp only [Abort.ok_bind,List.dropWhile_nil,List.isEmpty_nil,if_true,canonical]

/-- `DecodeBase58` of fewer than `2 ^ 31` characters never fails its assertion. -/
theorem DecodeBase58_ok (psz : List Char) (short : psz.length < 2 ^ 31) : ∃ result, DecodeBase58 psz = .ok result := by
  have fewOnes : ¬2 ^ 31 ≤ ((psz.dropWhile isspace).takeWhile (· == '1')).length := by
    have taken := (List.takeWhile_sublist (· == '1') (l := psz.dropWhile isspace)).length_le
    have dropped := (List.dropWhile_sublist isspace (l := psz)).length_le
    omega
  unfold DecodeBase58
  dsimp only
  rw [if_neg fewOnes]
  generalize (psz.dropWhile isspace).dropWhile (· == '1') = rest
  have room : (Nat.ofDigits 256 (List.replicate (rest.length * 733 / 1000 + 1) 0).reverse + 1) *
      58 ^ rest.length ≤ 256 ^ (List.replicate (rest.length * 733 / 1000 + 1) 0).length := by
    simpa using decode_room rest.length
  obtain ⟨result,run⟩ := decodeDigits_ok rest _ (by simp) room
  rw [run]
  cases result with
  | none => exact ⟨none,rfl⟩
  | some read =>
    obtain ⟨b256,left⟩ := read
    simp only [Abort.ok_bind]
    split <;> exact ⟨_,rfl⟩


/-! ## Encoding -/

/-- The byte loop, with room in the buffer, reads every byte: the buffer
ends as `b58 * 256 ^ n` plus their value, with the digits past the `length`
it returns still zero. -/
theorem encodeBytes_spec (bytes : List UInt8) :
    ∀ (b58 : List Nat) (length : Nat), (∀ x ∈ b58, x < 58) → (∀ x ∈ b58.reverse.drop length, x = 0) →
      (Nat.ofDigits 58 b58.reverse + 1) * 256 ^ bytes.length ≤ 58 ^ b58.length →
      ∃ b58' length', encodeBytes bytes b58 length = .ok (b58',length') ∧ b58'.length = b58.length ∧
        (∀ x ∈ b58', x < 58) ∧ (∀ x ∈ b58'.reverse.drop length', x = 0) ∧
        Nat.ofDigits 58 b58'.reverse =
          Nat.ofDigits 58 b58.reverse * 256 ^ bytes.length + Nat.ofDigits 256 (bytes.map UInt8.toNat).reverse := by
  induction bytes with
  | nil =>
    intro b58 length small zeros _
    exact ⟨b58,length,rfl,rfl,small,zeros,by simp⟩
  | cons byte bytes ih =>
    intro b58 length _ zeros room
    have lower : byte.toNat < 256 := UInt8.toNat_lt byte
    -- the pass stops early only where a full pass would leave zeros
    obtain ⟨same,carried,-,-,past⟩ := @Radix.mulAddWhile_eq 58 256 length
      b58.reverse byte.toNat 0 (by simpa using zeros)
    obtain ⟨spent,value,rest⟩ := @Radix.mulAdd_room 58 256 byte.toNat bytes.length b58.reverse lower
      (by rw [List.length_reverse]; exact room)
    set pass := Radix.mulAddWhile 58 256 length byte.toNat 0 b58.reverse
    have length_next : pass.1.reverse.length = b58.length := by simp [same]
    obtain ⟨b58',length',run,len',small',zeros',value'⟩ := ih pass.1.reverse pass.2.2
      (fun x member => Radix.mulAdd_lt (by norm_num) _ _ x (same ▸ List.mem_reverse.mp member))
      (by simpa using past)
      (by rw [List.reverse_reverse,same]; simpa using rest)
    refine ⟨b58',length',?_,by rw [len',length_next],small',zeros',?_⟩
    · have spent' : pass.2.1 = 0 := by rw [carried,spent]
      simp only [encodeBytes]
      rw [if_neg (by simpa using spent')]
      exact run
    · rw [value',List.reverse_reverse,same,value,List.map_cons,List.reverse_cons,Nat.ofDigits_append,
        Nat.ofDigits_singleton,List.length_reverse,List.length_map,List.length_cons,Nat.pow_succ]
      ring

theorem encode_room (k : Nat) : 256 ^ k ≤ 58 ^ (k * 138 / 100 + 1) :=
  Radix.pow_le_pow_div_succ (by norm_num) (by norm_num) (by norm_num) k

/-- `str += pszBase58[digit]` never reads past the alphabet. -/
private theorem mapM_digits (digits : List Nat) (small : ∀ d ∈ digits, d < 58) :
    (digits.mapM fun digit => match pszBase58[digit]? with
      | some c => (.ok c : Except Abort Char)
      | none => .error .outOfRange) = .ok (digits.map digitChar) := by
  induction digits with
  | nil => rfl
  | cons digit digits ih =>
    rw [List.mapM_cons,getElem?_pszBase58 (small digit List.mem_cons_self),
      ih fun d member => small d (List.mem_cons_of_mem _ member)]
    rfl

/-- Below `1556147571` bytes the buffer size fits the `int`. -/
theorem encodeSize {m : Nat} (short : m < 1556147571) :
    toSigned 32 ((m * 138 / 100 + 1) % 2 ^ 32) = ((m * 138 / 100 + 1 : Nat) : Int) := by
  unfold toSigned
  rw [Nat.mod_eq_of_lt (by omega),if_pos (by norm_num; omega)]

/-- `EncodeBase58` of fewer than `1556147571` bytes: a `'1'` for each leading
zero byte, then the canonical base-58 digits of the rest. -/
theorem EncodeBase58_eq (input : List UInt8) (short : input.length < 1556147571) :
    EncodeBase58 input = .ok (List.replicate (input.takeWhile (· == 0)).length '1' ++
      (Nat.digits 58 (Nat.ofDigits 256 ((input.dropWhile (· == 0)).map UInt8.toNat).reverse)).reverse.map
        digitChar) := by
  have zeroes : ¬2 ^ 31 ≤ (input.takeWhile (· == 0)).length := by
    have taken := (List.takeWhile_sublist (· == 0) (l := input)).length_le
    omega
  have restShort : (input.dropWhile (· == 0)).length < 1556147571 := by
    have dropped := (List.dropWhile_sublist (· == 0) (l := input)).length_le
    omega
  unfold EncodeBase58
  dsimp only
  rw [if_neg zeroes]
  generalize input.dropWhile (· == 0) = rest at restShort ⊢
  rw [encodeSize restShort,if_neg (by omega),Int.toNat_natCast]
  have room : (Nat.ofDigits 58 (List.replicate (rest.length * 138 / 100 + 1) 0).reverse + 1) *
      256 ^ rest.length ≤ 58 ^ (List.replicate (rest.length * 138 / 100 + 1) 0).length := by
    simpa using encode_room rest.length
  obtain ⟨b58,length,run,len,small,zeros,value⟩ := encodeBytes_spec rest _ 0 (by simp) (by simp) room
  rw [run]
  simp only [Abort.ok_bind]
  simp only [List.reverse_replicate,Nat.ofDigits_replicate_zero,Nat.zero_mul,Nat.zero_add,
    List.length_replicate] at value len
  -- the digits skipped in front of the last `length` are zeros
  have skipped : ∀ x ∈ b58.take (rest.length * 138 / 100 + 1 - length), (x == 0) = true := by
    intro x member
    rw [List.drop_reverse,len] at zeros
    simpa using zeros x (List.mem_reverse.mpr member)
  have front : (b58.drop (rest.length * 138 / 100 + 1 - length)).dropWhile (· == 0) = b58.dropWhile (· == 0) := by
    conv => rhs; rw [← List.take_append_drop (rest.length * 138 / 100 + 1 - length) b58]
    rw [List.dropWhile_append_of_pos skipped]
  have canonical := @Radix.dropWhile_reverse 58 (by norm_num)
    b58.reverse (fun x member => small x (List.mem_reverse.mp member))
  rw [List.reverse_reverse,value] at canonical
  rw [front,canonical,mapM_digits _ (fun d member => Nat.digits_lt_base (by norm_num) (List.mem_reverse.mp member))]
  rfl

/-! ## Round trips -/

/-- Base58 round trips below the sizes the `int` counters of `base58.cpp`
hold: every byte string shorter than 1,556,147,571 bytes (beyond which
`int size` is negative) encodes to a `'1'` for each leading zero byte and
digits that do not start with `'1'`, and decodes back; every string over the
alphabet of that length decodes and encodes back; and decoding a string
shorter than `2 ^ 31` never fails its assertion. -/
theorem base58_round_trip :
    (∀ v : List UInt8, v.length < 1556147571 →
      ∃ str, EncodeBase58 v = .ok (List.replicate (v.takeWhile (· == 0)).length '1' ++ str) ∧
        str.head? ≠ some '1' ∧
        DecodeBase58 (List.replicate (v.takeWhile (· == 0)).length '1' ++ str) = .ok (some v)) ∧
      (∀ s : List Char, s.length < 1556147571 → (∀ c ∈ s, c ∈ pszBase58) →
        ∃ v, DecodeBase58 s = .ok (some v) ∧ EncodeBase58 v = .ok s) ∧
      ∀ psz : List Char, psz.length < 2 ^ 31 → ∃ result, DecodeBase58 psz = .ok result := by
  refine ⟨?_,?_,DecodeBase58_ok⟩
  · intro v short
    -- the bytes after the leading zeros, and their base-58 digits
    set rest := v.dropWhile (· == 0)
    set digits := (Nat.digits 58 (Nat.ofDigits 256 (rest.map UInt8.toNat).reverse)).reverse
    have small : ∀ d ∈ digits, d < 58 := fun d member => Nat.digits_lt_base (by norm_num) (List.mem_reverse.mp member)
    have top : digits.head? ≠ some 0 := Radix.head?_reverse_digits _ _
    have bytes : (Nat.digits 256 (Nat.ofDigits 256 (rest.map UInt8.toNat).reverse)).reverse = rest.map UInt8.toNat := by
      apply Radix.reverse_digits_ofDigits_reverse (by norm_num)
      · intro d member
        obtain ⟨byte,-,rfl⟩ := List.mem_map.mp member
        exact UInt8.toNat_lt byte
      · intro first
        obtain ⟨byte,head,zero⟩ : ∃ byte, rest.head? = some byte ∧ byte.toNat = 0 := by
          cases rest_cons : rest with
          | nil => simp [rest_cons] at first
          | cons byte more => exact ⟨byte,rfl,by simpa [rest_cons] using first⟩
        have stops := head_dropWhile (· == 0) v byte head
        simp [UInt8.toNat_inj.mp (zero.trans UInt8.toNat_zero.symm)] at stops
    have fewZeroes : (v.takeWhile (· == 0)).length < 2 ^ 31 := by
      have taken := (List.takeWhile_sublist (· == 0) (l := v)).length_le
      omega
    refine ⟨digits.map digitChar,EncodeBase58_eq v short,?_,?_⟩
    · intro first
      cases digits_cons : digits with
      | nil => simp [digits_cons] at first
      | cons d more =>
        simp only [digits_cons,List.map_cons,List.head?_cons,Option.some.injEq] at first
        have lower := small d (by simp [digits_cons])
        exact top (by rw [digits_cons,(digitChar_eq_one lower).mp first]; rfl)
    · rw [DecodeBase58_canonical fewZeroes digits small top,List.reverse_reverse,Nat.ofDigits_digits,bytes,List.map_map]
      have back : (UInt8.ofNat ∘ UInt8.toNat) = id := funext fun _ => UInt8.ofNat_toNat
      rw [back,List.map_id]
      exact congrArg (fun v => Except.ok (some v)) (replicate_takeWhile_append 0 v)
  · intro s short alphabet
    -- the '1's in front and the digits of the characters after them
    set rest := s.dropWhile (· == '1')
    set digits := rest.map pszBase58.idxOf
    have inside : ∀ c ∈ rest, c ∈ pszBase58 := fun c member => alphabet c ((List.dropWhile_sublist _).subset member)
    have small : ∀ d ∈ digits, d < 58 := by
      intro d member
      obtain ⟨c,read,rfl⟩ := List.mem_map.mp member
      exact (alphabet_spec c (inside c read)).1
    have chars : digits.map digitChar = rest := by
      rw [List.map_map]
      conv => rhs; rw [← List.map_id rest]
      apply List.map_congr_left
      intro c member
      exact (alphabet_spec c (inside c member)).2
    have top : digits.head? ≠ some 0 := by
      intro first
      cases rest_cons : rest with
      | nil => simp [digits,rest_cons] at first
      | cons c more =>
        simp only [digits,rest_cons,List.map_cons,List.head?_cons,Option.some.injEq] at first
        have stops := head_dropWhile (· == '1') s c (show rest.head? = some c by rw [rest_cons]; rfl)
        have named := (alphabet_spec c (inside c (by simp [rest_cons]))).2
        rw [first] at named
        simp [← named] at stops
        exact stops rfl
    have split : s = List.replicate (s.takeWhile (· == '1')).length '1' ++ digits.map digitChar := by
      rw [chars]
      exact (replicate_takeWhile_append '1' s).symm
    have fewOnes : (s.takeWhile (· == '1')).length < 2 ^ 31 := by
      have taken := (List.takeWhile_sublist (· == '1') (l := s)).length_le
      omega
    set value := Nat.ofDigits 58 digits.reverse
    refine ⟨_,by rw [split]; exact DecodeBase58_canonical fewOnes digits small top,?_⟩
    -- the canonical bytes of the value, after the zeros for the '1's
    have bytes : ∀ x ∈ Nat.digits 256 value, x < 256 := fun x member => Nat.digits_lt_base (by norm_num) member
    have noZero : ∀ x, ((Nat.digits 256 value).reverse.map UInt8.ofNat).head? = some x → (x == 0) = false := by
      intro x first
      have top := Radix.head?_reverse_digits 256 value
      cases canonical : (Nat.digits 256 value).reverse with
      | nil => simp [canonical] at first
      | cons d more =>
        simp only [canonical,List.map_cons,List.head?_cons,Option.some.injEq] at first top
        have lower := bytes d (List.mem_reverse.mp (by simp [canonical]))
        subst first
        simp only [beq_eq_false_iff_ne,ne_eq]
        intro zero
        apply top
        have := congrArg UInt8.toNat zero
        rw [UInt8.toNat_ofNat',Nat.mod_eq_of_lt lower] at this
        rw [this]
        rfl
    have readBack : ((Nat.digits 256 value).reverse.map UInt8.ofNat).map UInt8.toNat = (Nat.digits 256 value).reverse := by
      rw [List.map_map]
      conv => rhs; rw [← List.map_id (Nat.digits 256 value).reverse]
      apply List.map_congr_left
      intro d member
      simp only [Function.comp_apply,id,UInt8.toNat_ofNat']
      exact Nat.mod_eq_of_lt (bytes d (List.mem_reverse.mp member))
    -- a base-58 number has at least as many digits as its base-256 bytes
    have fewer : (Nat.digits 256 value).length ≤ digits.length := by
      apply (Nat.digits_length_le_iff (by norm_num) value).mpr
      calc value < 58 ^ digits.reverse.length :=
            Nat.ofDigits_lt_base_pow_length (by norm_num) (fun d member => small d (List.mem_reverse.mp member))
        _ ≤ 256 ^ digits.length := by
            rw [List.length_reverse]
            exact Nat.pow_le_pow_left (by norm_num) _
    have sized : (List.replicate (s.takeWhile (· == '1')).length (0 : UInt8) ++
        (Nat.digits 256 value).reverse.map UInt8.ofNat).length < 1556147571 := by
      have total := congrArg List.length split
      simp only [List.length_append,List.length_replicate,List.length_map] at total ⊢
      rw [List.length_reverse]
      omega
    rw [EncodeBase58_eq _ sized,takeWhile_replicate_append _ (by rfl) _ noZero,List.length_replicate,
      Radix.dropWhile_replicate_append _ (by rfl),dropWhile_of_head _ noZero,readBack,List.reverse_reverse,
      Nat.ofDigits_digits,Radix.reverse_digits_ofDigits_reverse (by norm_num) small top,← split]

theorem base58_round_trip_a3gV : "a3gV".toList.length < 1556147571 ∧ (∀ c ∈ "a3gV".toList, c ∈ pszBase58) ∧
    ∃ v, DecodeBase58 "a3gV".toList = .ok (some v) ∧ EncodeBase58 v = .ok "a3gV".toList :=
  have short : "a3gV".toList.length < 1556147571 := by decide
  have alphabet : ∀ c ∈ "a3gV".toList, c ∈ pszBase58 := by
    simp [pszBase58_chars]
  ⟨short,alphabet,base58_round_trip.2.1 _ short alphabet⟩

/-- From `1556147571` bytes on, `len * 138 / 100 + 1` is `2 ^ 31` or more,
`int size` is negative, and the vector of that size throws: such an input
has no encoding at all. -/
theorem long_input_not_encoded : EncodeBase58 (List.replicate 1556147571 1) = .error .exception := by
  have noZeroes : (List.replicate 1556147571 (1 : UInt8)).takeWhile (· == 0) = [] := by
    rw [List.takeWhile_replicate,if_neg (by decide)]
  have rest : (List.replicate 1556147571 (1 : UInt8)).dropWhile (· == 0) = List.replicate 1556147571 1 := by
    rw [List.dropWhile_replicate,if_neg (by decide)]
  unfold EncodeBase58
  dsimp only
  rw [noZeroes,rest,List.length_nil,List.length_replicate,if_neg (by decide),if_pos (by decide)]
  rfl

end Qtum.Base58
