import Qtum.Library.BitString

/-! `EncodeBase64` and `DecodeBase64` of `utilstrencodings.cpp`. Both walk
their input with a `mode` that counts the bits held over in `left`; the
decoder stops at the first character outside the alphabet and then checks
the padding. A string is read as a C string: past its end stands `NUL`. -/
namespace Qtum.Base64
open BitString

/-- The terminating `NUL` of a C string. -/
def NUL : Char := Char.ofNat 0

def pbase64 : List Char :=
    ['A','B','C','D','E','F','G','H','I','J','K','L','M','N','O','P',
    'Q','R','S','T','U','V','W','X','Y','Z','a','b','c','d','e','f',
    'g','h','i','j','k','l','m','n','o','p','q','r','s','t','u','v',
    'w','x','y','z','0','1','2','3','4','5','6','7','8','9','+','/']

def encode64Step (mode left enc : Nat) : List Char × Nat × Nat :=
  match mode with
  | 0 => ([pbase64.getD (enc >>> 2) NUL],(enc &&& 3) <<< 4,1)
  | 1 => ([pbase64.getD (left ||| (enc >>> 4)) NUL],(enc &&& 15) <<< 2,2)
  | 2 => ([pbase64.getD (left ||| (enc >>> 6)) NUL,pbase64.getD (enc &&& 63) NUL],left,0)
  | _ => ([],left,mode)

def encode64Loop : List UInt8 → List Char → Nat → Nat → List Char × Nat × Nat
  | [], strRet, mode, left => (strRet,mode,left)
  | enc :: pch, strRet, mode, left =>
    let (chars,left,mode) := encode64Step mode left enc.toNat
    encode64Loop pch (strRet ++ chars) mode left

def EncodeBase64 (input : List UInt8) : List Char :=
  let (strRet,mode,left) := encode64Loop input [] 0 0
  if mode ≠ 0 then strRet ++ [pbase64.getD left NUL,'='] ++ (if mode = 1 then ['='] else [])
  else strRet

def decode64_table : List Int :=
    [-1,-1,-1,-1,-1,-1,-1,-1,-1,-1,-1,-1,-1,-1,-1,-1,
    -1,-1,-1,-1,-1,-1,-1,-1,-1,-1,-1,-1,-1,-1,-1,-1,
    -1,-1,-1,-1,-1,-1,-1,-1,-1,-1,-1,62,-1,-1,-1,63,
    52,53,54,55,56,57,58,59,60,61,-1,-1,-1,-1,-1,-1,
    -1,0,1,2,3,4,5,6,7,8,9,10,11,12,13,14,
    15,16,17,18,19,20,21,22,23,24,25,-1,-1,-1,-1,-1,
    -1,26,27,28,29,30,31,32,33,34,35,36,37,38,39,40,
    41,42,43,44,45,46,47,48,49,50,51,-1,-1,-1,-1,-1,
    -1,-1,-1,-1,-1,-1,-1,-1,-1,-1,-1,-1,-1,-1,-1,-1,
    -1,-1,-1,-1,-1,-1,-1,-1,-1,-1,-1,-1,-1,-1,-1,-1,
    -1,-1,-1,-1,-1,-1,-1,-1,-1,-1,-1,-1,-1,-1,-1,-1,
    -1,-1,-1,-1,-1,-1,-1,-1,-1,-1,-1,-1,-1,-1,-1,-1,
    -1,-1,-1,-1,-1,-1,-1,-1,-1,-1,-1,-1,-1,-1,-1,-1,
    -1,-1,-1,-1,-1,-1,-1,-1,-1,-1,-1,-1,-1,-1,-1,-1,
    -1,-1,-1,-1,-1,-1,-1,-1,-1,-1,-1,-1,-1,-1,-1,-1,
    -1,-1,-1,-1,-1,-1,-1,-1,-1,-1,-1,-1,-1,-1,-1,-1]

/-- `decode64_table[(unsigned char)c]`; a character of a C string is a byte. -/
def decode64 (ch : Char) : Int := decode64_table.getD ch.toNat (-1)

def decode64Step (mode left dec : Nat) : List UInt8 × Nat × Nat :=
  match mode with
  | 0 => ([],dec,1)
  | 1 => ([UInt8.ofNat ((left <<< 2) ||| (dec >>> 4))],dec &&& 15,2)
  | 2 => ([UInt8.ofNat ((left <<< 4) ||| (dec >>> 2))],dec &&& 3,3)
  | 3 => ([UInt8.ofNat ((left <<< 6) ||| dec)],left,0)
  | _ => ([],left,mode)

def decode64Loop : List Char → List UInt8 → Nat → Nat → List UInt8 × Nat × Nat × List Char
  | [], vchRet, mode, left => (vchRet,mode,left,[])
  | ch :: p, vchRet, mode, left =>
    if decode64 ch = -1 then (vchRet,mode,left,ch :: p)
    else
      let (bytes,left,mode) := decode64Step mode left (decode64 ch).toNat
      decode64Loop p (vchRet ++ bytes) mode left

/-- `p[i]` of a C string. -/
def charAt (p : List Char) (i : Nat) : Char := p.getD i NUL

/-- The padding check after the loop stopped at `p`: `*pfInvalid`. -/
def fInvalid (mode left : Nat) (p : List Char) : Bool :=
  match mode with
  | 1 => true
  | 2 => left != 0 || charAt p 0 != '=' || charAt p 1 != '=' || decode64 (charAt p 2) != -1
  | 3 => left != 0 || charAt p 0 != '=' || decode64 (charAt p 1) != -1
  | _ => false

def DecodeBase64 (p : List Char) : List UInt8 × Bool :=
  let (vchRet,mode,left,p) := decode64Loop p [] 0 0
  (vchRet,fInvalid mode left p)

/-! ### The alphabet -/

theorem decode64_pbase64 : ∀ d, d < 64 → decode64 (pbase64.getD d NUL) = d := by decide

set_option maxRecDepth 2000 in
theorem decode64_table_length : decode64_table.length = 256 := rfl

set_option maxRecDepth 2000 in
theorem decode64_table_spec : ∀ i, i < 256 → decode64_table.getD i (-1) = -1 ∨
    (0 ≤ decode64_table.getD i (-1) ∧ decode64_table.getD i (-1) < 64 ∧
      pbase64.getD (decode64_table.getD i (-1)).toNat NUL = Char.ofNat i) := by decide

/-- A character the decoder reads is the character of its symbol. -/
theorem decode64_symbol {ch : Char} (symbol : decode64 ch ≠ -1) :
    (decode64 ch).toNat < 64 ∧ pbase64.getD (decode64 ch).toNat NUL = ch := by
  unfold decode64 at symbol ⊢
  have byte : ch.toNat < 256 := by
    by_contra wide
    apply symbol
    rw [List.getD_eq_getElem?_getD,List.getElem?_eq_none (by rw [decode64_table_length]; omega)]
    rfl
  rcases decode64_table_spec ch.toNat byte with none | ⟨low,high,char⟩
  · exact absurd none symbol
  · exact ⟨by omega,by rw [char,Char.ofNat_toNat]⟩

/-- The characters of symbols below 64. -/
def symbols (syms : List Nat) : List Char := syms.map (pbase64.getD · NUL)

/-- What follows the symbols: a character outside the alphabet, or the end. -/
def NoSymbolHead (p : List Char) : Prop := decode64 (charAt p 0) = -1

/-- Every string is a run of symbols and what follows them. -/
theorem symbols_prefix (p : List Char) :
    ∃ syms rest, p = symbols syms ++ rest ∧ (∀ s ∈ syms, s < 64) ∧ NoSymbolHead rest := by
  induction p with
  | nil => exact ⟨[],[],rfl,by simp,rfl⟩
  | cons ch p ih =>
    by_cases symbol : decode64 ch = -1
    · exact ⟨[],ch :: p,rfl,by simp,symbol⟩
    · obtain ⟨syms,rest,rfl,small,stop⟩ := ih
      obtain ⟨below,char⟩ := decode64_symbol symbol
      refine ⟨(decode64 ch).toNat :: syms,rest,?_,?_,stop⟩
      · simp only [symbols,List.map_cons,List.cons_append,char]
      · intro s member
        rcases List.mem_cons.mp member with rfl | later
        · exact below
        · exact small s later

theorem decode64_NUL : decode64 NUL = -1 := rfl

theorem decode64_equals : decode64 '=' = -1 := rfl

/-! ### Decoding

After the symbols `syms` the decoder has written the whole bytes of their
bits and holds the remaining `held64 mode` bits in `left`. -/

/-- The bits of a byte. -/
def byteBits (b : UInt8) : List Bool := toBits 8 b.toNat

theorem byteBits_ofNat (n : Nat) : byteBits (UInt8.ofNat n) = toBits 8 n := by
  rw [byteBits,UInt8.toNat_ofNat',toBits_mod]

def held64 : Nat → Nat
  | 1 => 6
  | 2 => 4
  | 3 => 2
  | _ => 0

structure Decoded (syms : List Nat) (vchRet : List UInt8) (mode left : Nat) : Prop where
  mode_eq : mode = syms.length % 4
  left_lt : mode ≠ 0 → left < 2 ^ held64 mode
  bits : vchRet.flatMap byteBits ++ toBits (held64 mode) left = syms.flatMap (toBits 6)

theorem decoded_nil : Decoded [] [] 0 0 := ⟨rfl,by simp,rfl⟩

theorem decode64Step_decoded {syms : List Nat} {vchRet : List UInt8} {mode left dec : Nat}
    (inv : Decoded syms vchRet mode left) (small : dec < 64) :
    ∃ bytes left' mode', decode64Step mode left dec = (bytes,left',mode') ∧
      Decoded (syms ++ [dec]) (vchRet ++ bytes) mode' left' := by
  obtain ⟨mode_eq,left_lt,bits⟩ := inv
  have length : (syms ++ [dec]).length = syms.length + 1 := List.length_append
  -- each mode takes the symbol's six bits apart where the code cuts them
  rcases (by omega : mode = 0 ∨ mode = 1 ∨ mode = 2 ∨ mode = 3) with rfl | rfl | rfl | rfl
  · refine ⟨_,_,_,rfl,by omega,fun _ => small,?_⟩
    simp only [held64,toBits_width_zero,List.append_nil] at bits
    rw [List.append_nil,List.flatMap_append,← bits,List.flatMap_singleton]
    rfl
  · have top : dec >>> 4 < 2 ^ 2 := by rw [Nat.shiftRight_eq_div_pow]; omega
    have byte := toBits_shiftLeft_or 6 2 left (dec >>> 4) top
    have parts := toBits_split 2 4 dec
    refine ⟨_,_,_,rfl,by omega,fun _ => and_two_pow_sub_one_lt dec 4,?_⟩
    simp only [held64] at bits ⊢
    rw [List.flatMap_append,List.flatMap_append,← bits,List.flatMap_singleton,List.flatMap_singleton,
      byteBits_ofNat,byte,parts]
    simp
  · have top : dec >>> 2 < 2 ^ 4 := by rw [Nat.shiftRight_eq_div_pow]; omega
    have byte := toBits_shiftLeft_or 4 4 left (dec >>> 2) top
    have parts := toBits_split 4 2 dec
    refine ⟨_,_,_,rfl,by omega,fun _ => and_two_pow_sub_one_lt dec 2,?_⟩
    simp only [held64] at bits ⊢
    rw [List.flatMap_append,List.flatMap_append,← bits,List.flatMap_singleton,List.flatMap_singleton,
      byteBits_ofNat,byte,parts]
    simp
  · have byte := toBits_shiftLeft_or 2 6 left dec small
    refine ⟨_,_,_,rfl,by omega,by simp,?_⟩
    simp only [held64] at bits ⊢
    rw [List.flatMap_append,List.flatMap_append,← bits,List.flatMap_singleton,List.flatMap_singleton,
      byteBits_ofNat,byte]
    simp

theorem decode64Loop_stop {rest : List Char} (stop : NoSymbolHead rest) (vchRet : List UInt8) (mode left : Nat) :
    decode64Loop rest vchRet mode left = (vchRet,mode,left,rest) := by
  cases rest with
  | nil => rfl
  | cons ch rest => exact if_pos stop

/-- The loop reads every symbol and stops at the first other character. -/
theorem decode64Loop_symbols (syms : List Nat) (rest : List Char) (small : ∀ s ∈ syms, s < 64)
    (stop : NoSymbolHead rest) {done : List Nat} {vchRet : List UInt8} {mode left : Nat}
    (inv : Decoded done vchRet mode left) :
    ∃ vchRet' mode' left', decode64Loop (symbols syms ++ rest) vchRet mode left = (vchRet',mode',left',rest) ∧
      Decoded (done ++ syms) vchRet' mode' left' := by
  induction syms generalizing done vchRet mode left with
  | nil => exact ⟨vchRet,mode,left,decode64Loop_stop stop vchRet mode left,by simpa using inv⟩
  | cons dec syms ih =>
    have below := small dec List.mem_cons_self
    obtain ⟨bytes,left',mode',step,next⟩ := decode64Step_decoded inv below
    obtain ⟨vchRet',mode'',left'',loop,last⟩ :=
      ih (fun s member => small s (List.mem_cons_of_mem _ member)) next
    refine ⟨vchRet',mode'',left'',?_,by simpa using last⟩
    have symbol : decode64 (pbase64.getD dec NUL) = dec := decode64_pbase64 dec below
    simp only [symbols,List.map_cons,List.cons_append,decode64Loop,symbol] at loop ⊢
    simp only [Int.toNat_natCast,step]
    rw [if_neg (by omega)]
    exact loop

theorem DecodeBase64_symbols (syms : List Nat) (rest : List Char) (small : ∀ s ∈ syms, s < 64)
    (stop : NoSymbolHead rest) :
    ∃ vchRet mode left, Decoded syms vchRet mode left ∧
      DecodeBase64 (symbols syms ++ rest) = (vchRet,fInvalid mode left rest) := by
  obtain ⟨vchRet,mode,left,loop,inv⟩ := decode64Loop_symbols syms rest small stop decoded_nil
  refine ⟨vchRet,mode,left,by simpa using inv,?_⟩
  simp only [DecodeBase64,loop]

theorem eq_cons_of_charAt {p : List Char} {c : Char} (at0 : charAt p 0 = c) (real : c ≠ NUL) :
    p = c :: p.tail := by
  cases p with
  | nil => exact absurd at0.symm real
  | cons x p => rw [← at0]; rfl

/-- A passed padding check: `held64 mode` zero bits, and one `=` for each two
of them before the next character outside the alphabet. -/
theorem fInvalid_false {mode left : Nat} {rest : List Char} (modes : mode < 4)
    (left_lt : mode ≠ 0 → left < 2 ^ held64 mode) (stop : NoSymbolHead rest)
    (valid : fInvalid mode left rest = false) :
    mode ≠ 1 ∧ toBits (held64 mode) left = List.replicate (held64 mode) false ∧
      ∃ r, NoSymbolHead r ∧ rest = List.replicate (held64 mode / 2) '=' ++ r := by
  have equals : '=' ≠ NUL := by decide
  rcases (by omega : mode = 0 ∨ mode = 1 ∨ mode = 2 ∨ mode = 3) with rfl | rfl | rfl | rfl
  · exact ⟨by decide,rfl,rest,stop,rfl⟩
  · simp [fInvalid] at valid
  · simp only [fInvalid,Bool.or_eq_false_iff,bne_eq_false_iff_eq] at valid
    obtain ⟨⟨⟨rfl,first⟩,second⟩,third⟩ := valid
    have one := eq_cons_of_charAt first equals
    have two := eq_cons_of_charAt (show charAt rest.tail 0 = '=' by rw [one] at second; exact second) equals
    refine ⟨by decide,toBits_zero _,rest.tail.tail,?_,?_⟩
    · rw [one,two] at third
      exact third
    · rw [one,two]
      rfl
  · simp only [fInvalid,Bool.or_eq_false_iff,bne_eq_false_iff_eq] at valid
    obtain ⟨⟨rfl,first⟩,second⟩ := valid
    have one := eq_cons_of_charAt first equals
    refine ⟨by decide,toBits_zero _,rest.tail,?_,?_⟩
    · rw [one] at second
      exact second
    · rw [one]
      rfl

/-! ### Encoding

After the bytes `bytes` the encoder has written the symbols of their whole
six-bit groups and holds the remaining `2 * mode` bits, moved to the top of
the next symbol, in `left`. -/

structure Encoded (bytes : List UInt8) (syms : List Nat) (mode left : Nat) : Prop where
  mode_eq : mode = bytes.length % 3
  small : ∀ s ∈ syms, s < 64
  held : ∃ held, held < 2 ^ (2 * mode) ∧ (mode ≠ 0 → left = held <<< (6 - 2 * mode)) ∧
    syms.flatMap (toBits 6) ++ toBits (2 * mode) held = bytes.flatMap byteBits

theorem encoded_nil : Encoded [] [] 0 0 := ⟨rfl,by simp,0,by simp,by simp,rfl⟩

theorem below_append {syms new : List Nat} (small : ∀ s ∈ syms, s < 64) (fresh : ∀ s ∈ new, s < 64) :
    ∀ s ∈ syms ++ new, s < 64 := by
  intro s member
  rcases List.mem_append.mp member with old | added
  exacts [small s old,fresh s added]

theorem encode64Step_encoded {bytes : List UInt8} {syms : List Nat} {mode left : Nat}
    (inv : Encoded bytes syms mode left) (b : UInt8) :
    ∃ new left' mode', encode64Step mode left b.toNat = (symbols new,left',mode') ∧
      Encoded (bytes ++ [b]) (syms ++ new) mode' left' := by
  obtain ⟨mode_eq,small,held,held_lt,left_eq,bits⟩ := inv
  have byte : b.toNat < 2 ^ 8 := UInt8.toNat_lt b
  have length : (bytes ++ [b]).length = bytes.length + 1 := List.length_append
  rcases (by omega : mode = 0 ∨ mode = 1 ∨ mode = 2) with rfl | rfl | rfl
  · have top : b.toNat >>> 2 < 2 ^ 6 := by rw [Nat.shiftRight_eq_div_pow]; omega
    refine ⟨[b.toNat >>> 2],(b.toNat &&& 3) <<< 4,1,rfl,by omega,below_append small (by simpa using top),
      b.toNat &&& 3,and_two_pow_sub_one_lt _ 2,fun _ => rfl,?_⟩
    simp only [Nat.mul_zero,toBits_width_zero,List.append_nil] at bits
    rw [List.flatMap_append,List.flatMap_append,← bits,List.flatMap_singleton,List.flatMap_singleton,
      byteBits,toBits_split 6 2 b.toNat,List.append_assoc]
    rfl
  · have top : b.toNat >>> 4 < 2 ^ 4 := by rw [Nat.shiftRight_eq_div_pow]; omega
    have shifted : left = held <<< 4 := left_eq (by omega)
    subst shifted
    have symbol : (held <<< 4) ||| (b.toNat >>> 4) < 2 ^ 6 := @shiftLeft_or_lt 2 4 _ _ held_lt top
    refine ⟨[(held <<< 4) ||| (b.toNat >>> 4)],(b.toNat &&& 15) <<< 2,2,rfl,by omega,
      below_append small (by simpa using symbol),b.toNat &&& 15,and_two_pow_sub_one_lt _ 4,fun _ => rfl,?_⟩
    rw [List.flatMap_append,List.flatMap_append,← bits,List.flatMap_singleton,List.flatMap_singleton,
      byteBits,toBits_split 4 4 b.toNat,toBits_shiftLeft_or 2 4 _ _ top]
    simp
  · have top : b.toNat >>> 6 < 2 ^ 2 := by rw [Nat.shiftRight_eq_div_pow]; omega
    have shifted : left = held <<< 2 := left_eq (by omega)
    subst shifted
    have symbol : (held <<< 2) ||| (b.toNat >>> 6) < 2 ^ 6 := @shiftLeft_or_lt 4 2 _ _ held_lt top
    have low : b.toNat &&& 63 < 2 ^ 6 := and_two_pow_sub_one_lt _ 6
    refine ⟨[(held <<< 2) ||| (b.toNat >>> 6),b.toNat &&& 63],held <<< 2,0,rfl,by omega,
      below_append small (fun s member => by
        rcases List.mem_pair.mp member with rfl | rfl
        exacts [symbol,low]),0,by simp,by simp,?_⟩
    rw [List.flatMap_append,List.flatMap_append,← bits]
    simp only [List.flatMap_cons,List.flatMap_nil,List.append_nil,byteBits]
    rw [toBits_split 2 6 b.toNat,toBits_shiftLeft_or 4 2 _ _ top]
    simp

theorem encode64Loop_encoded (input : List UInt8) {bytes : List UInt8} {syms : List Nat} {mode left : Nat}
    (inv : Encoded bytes syms mode left) :
    ∃ syms' mode' left', encode64Loop input (symbols syms) mode left = (symbols syms',mode',left') ∧
      Encoded (bytes ++ input) syms' mode' left' := by
  induction input generalizing bytes syms mode left with
  | nil => exact ⟨syms,mode,left,rfl,by simpa using inv⟩
  | cons b input ih =>
    obtain ⟨new,left',mode',step,next⟩ := encode64Step_encoded inv b
    obtain ⟨syms',mode'',left'',loop,last⟩ := ih next
    refine ⟨syms',mode'',left'',?_,by simpa using last⟩
    have joined : symbols syms ++ symbols new = symbols (syms ++ new) := (List.map_append ..).symm
    simp only [encode64Loop,step,joined]
    exact loop

/-- The code's encoding is the standard one: the bits of the input padded
with zeros to whole symbols, then one `=` for each byte the last group lacks. -/
theorem EncodeBase64_bits (input : List UInt8) :
    ∃ syms, EncodeBase64 input = symbols syms ++ List.replicate ((3 - input.length % 3) % 3) '=' ∧
      (∀ s ∈ syms, s < 64) ∧
      syms.flatMap (toBits 6) = input.flatMap byteBits ++ List.replicate (2 * ((3 - input.length % 3) % 3)) false := by
  obtain ⟨syms,mode,left,loop,⟨mode_eq,small,held,held_lt,left_eq,bits⟩⟩ :=
    encode64Loop_encoded input encoded_nil
  rw [List.nil_append] at mode_eq bits
  have run : encode64Loop input [] 0 0 = (symbols syms,mode,left) := loop
  -- the final group: no bits, or two or four bits and the pad
  rcases (by omega : mode = 0 ∨ mode = 1 ∨ mode = 2) with rfl | rfl | rfl
  · have pad : (3 - input.length % 3) % 3 = 0 := by omega
    refine ⟨syms,?_,small,?_⟩
    · simp [EncodeBase64,run,pad]
    · simpa [pad] using bits
  · have pad : (3 - input.length % 3) % 3 = 2 := by omega
    have shifted : left = held <<< 4 := left_eq (by omega)
    subst shifted
    have symbol : held <<< 4 < 2 ^ 6 := by simpa using @shiftLeft_or_lt 2 4 _ _ held_lt (Nat.two_pow_pos 4)
    refine ⟨syms ++ [held <<< 4],?_,below_append small (by simpa using symbol),?_⟩
    · simp [EncodeBase64,run,pad,symbols]
    · rw [pad,List.flatMap_append,List.flatMap_singleton,toBits_shiftLeft 2 4,← bits]
      simp
  · have pad : (3 - input.length % 3) % 3 = 1 := by omega
    have shifted : left = held <<< 2 := left_eq (by omega)
    subst shifted
    have symbol : held <<< 2 < 2 ^ 6 := by simpa using @shiftLeft_or_lt 4 2 _ _ held_lt (Nat.two_pow_pos 2)
    refine ⟨syms ++ [held <<< 2],?_,below_append small (by simpa using symbol),?_⟩
    · simp [EncodeBase64,run,pad,symbols]
    · rw [pad,List.flatMap_append,List.flatMap_singleton,toBits_shiftLeft 4 2,← bits]
      simp

theorem flatMap_byteBits_injective {xs ys : List UInt8}
    (same : xs.flatMap byteBits = ys.flatMap byteBits) : xs = ys := by
  have bytes : ∀ bs : List UInt8, ∀ n ∈ bs.map UInt8.toNat, n < 2 ^ 8 := by
    intro bs n member
    obtain ⟨b,_,rfl⟩ := List.mem_map.mp member
    exact UInt8.toNat_lt b
  have values : xs.map UInt8.toNat = ys.map UInt8.toNat := by
    apply flatMap_toBits_injective (by decide) (bytes xs) (bytes ys)
    rw [List.flatMap_map,List.flatMap_map]
    exact same
  exact List.map_injective_iff.mpr (fun _ _ h => UInt8.toNat_inj.mp h) values

/-- Symbols whose bits are those of some bytes and then `2 * k` zeros are the
encoding of those bytes, with `k` pads. -/
theorem EncodeBase64_of_bits {bytes : List UInt8} {syms : List Nat} {k : Nat}
    (small : ∀ s ∈ syms, s < 64) (pad : k < 3)
    (bits : bytes.flatMap byteBits ++ List.replicate (2 * k) false = syms.flatMap (toBits 6)) :
    EncodeBase64 bytes = symbols syms ++ List.replicate k '=' := by
  obtain ⟨syms',encoded,small',bits'⟩ := EncodeBase64_bits bytes
  have lengths := congrArg List.length bits
  simp [List.length_flatMap,byteBits] at lengths
  -- the lengths fix the number of pads
  have same_pad : (3 - bytes.length % 3) % 3 = k := by omega
  rw [same_pad] at encoded bits'
  rw [encoded,flatMap_toBits_injective (by decide) small' small (bits'.trans bits)]

theorem charAt_cons_zero (c : Char) (p : List Char) : charAt (c :: p) 0 = c := rfl

theorem charAt_cons_succ (c : Char) (p : List Char) (i : Nat) : charAt (c :: p) (i + 1) = charAt p i := rfl

/-- The decoder gives back every encoding, whatever stands after it. -/
theorem DecodeBase64_EncodeBase64 (bytes : List UInt8) {rest : List Char} (stop : NoSymbolHead rest) :
    DecodeBase64 (EncodeBase64 bytes ++ rest) = (bytes,false) := by
  obtain ⟨syms,encoded,small,bits⟩ := EncodeBase64_bits bytes
  generalize pad_eq : (3 - bytes.length % 3) % 3 = pad at encoded bits
  have stop' : decode64 (charAt rest 0) = -1 := stop
  have padded : NoSymbolHead (List.replicate pad '=' ++ rest) := by
    cases pad with
    | zero => exact stop
    | succ pad => exact decode64_equals
  obtain ⟨vchRet,mode,left,⟨mode_eq,left_lt,decoded⟩,decode⟩ := DecodeBase64_symbols syms _ small padded
  rw [encoded,List.append_assoc,decode]
  have lengths := congrArg List.length (decoded.trans bits)
  have symbolCount := congrArg List.length bits
  simp [List.length_flatMap,byteBits] at lengths symbolCount
  -- the decoder holds back exactly the pad bits
  have held : held64 mode = 2 * pad := by
    rcases (by omega : mode = 0 ∨ mode = 1 ∨ mode = 2 ∨ mode = 3) with rfl | rfl | rfl | rfl <;>
      simp only [held64] at lengths ⊢ <;> omega
  obtain ⟨same,zeros⟩ := List.append_inj (decoded.trans bits) (by simp [List.length_flatMap,byteBits]; omega)
  have left_zero : mode ≠ 0 → left = 0 := by
    intro nonzero
    apply toBits_injective (left_lt nonzero) (Nat.two_pow_pos _)
    rw [zeros,toBits_zero,held]
  rw [flatMap_byteBits_injective same]
  rcases (by omega : mode = 0 ∨ mode = 2 ∨ mode = 3) with rfl | rfl | rfl
  · rfl
  · obtain rfl : pad = 2 := by simp only [held64] at held; omega
    simp [fInvalid,charAt_cons_zero,charAt_cons_succ,left_zero,stop']
  · obtain rfl : pad = 1 := by simp only [held64] at held; omega
    simp [fInvalid,charAt_cons_zero,charAt_cons_succ,left_zero,stop']

/-- A string the decoder accepts is the encoding of what it returns, and then
a character outside the alphabet or the end. -/
theorem DecodeBase64_encoding {p : List Char} {bytes : List UInt8} (valid : DecodeBase64 p = (bytes,false)) :
    ∃ rest, NoSymbolHead rest ∧ p = EncodeBase64 bytes ++ rest := by
  obtain ⟨syms,rest,rfl,small,stop⟩ := symbols_prefix p
  obtain ⟨vchRet,mode,left,⟨mode_eq,left_lt,decoded⟩,decode⟩ := DecodeBase64_symbols syms rest small stop
  rw [decode,Prod.mk.injEq] at valid
  obtain ⟨rfl,checked⟩ := valid
  obtain ⟨not_one,zeros,r,stop',rfl⟩ := fInvalid_false (by omega) left_lt stop checked
  have pad : held64 mode = 2 * (held64 mode / 2) ∧ held64 mode / 2 < 3 := by
    rcases (by omega : mode = 0 ∨ mode = 2 ∨ mode = 3) with rfl | rfl | rfl <;> decide
  refine ⟨r,stop',?_⟩
  rw [zeros,pad.1] at decoded
  rw [EncodeBase64_of_bits small pad.2 decoded,List.append_assoc]

theorem DecodeBase64_valid_iff (p : List Char) (bytes : List UInt8) :
    DecodeBase64 p = (bytes,false) ↔ ∃ rest, NoSymbolHead rest ∧ p = EncodeBase64 bytes ++ rest := by
  constructor
  · exact DecodeBase64_encoding
  · rintro ⟨rest,stop,rfl⟩
    exact DecodeBase64_EncodeBase64 bytes stop

example : EncodeBase64 [77,97] = ['T','W','E','='] := by decide
example : DecodeBase64 ['T','W','E','='] = ([77,97],false) := by decide
example : DecodeBase64 ['T','W','F','='] = ([77,97],true) := by decide

end Qtum.Base64
