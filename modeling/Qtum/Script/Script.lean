import Qtum.Library.LittleEndian
import Qtum.Primitives.Blob

/-! Scripts as `script/script.h` stores them: byte strings read one
instruction at a time by `CScript::GetOp2`, the push encoding of
`CScript::operator<<`, the numeric encoding `CScriptNum`, and the shape tests
`IsPushOnly`, `IsPayToScriptHash`, `IsWitnessProgram`, `IsUnspendable` and
`Find` that validation uses. Opcodes are numbers, as `opcodetype` is, so the
range tests of the source (`opcode <= OP_PUSHDATA4`, `opcode > OP_16`) read
as they are written. -/
namespace Qtum.Script

/-- `CScript`: the serialized script bytes. -/
abbrev CScript := List UInt8

def OP_0 : Nat := 0x00
def OP_PUSHDATA1 : Nat := 0x4c
def OP_PUSHDATA2 : Nat := 0x4d
def OP_PUSHDATA4 : Nat := 0x4e
def OP_1NEGATE : Nat := 0x4f
def OP_RESERVED : Nat := 0x50
def OP_1 : Nat := 0x51
def OP_16 : Nat := 0x60
def OP_NOP : Nat := 0x61
def OP_IF : Nat := 0x63
def OP_NOTIF : Nat := 0x64
def OP_ELSE : Nat := 0x67
def OP_ENDIF : Nat := 0x68
def OP_VERIFY : Nat := 0x69
def OP_RETURN : Nat := 0x6a
def OP_2DUP : Nat := 0x6e
def OP_DROP : Nat := 0x75
def OP_DUP : Nat := 0x76
def OP_EQUAL : Nat := 0x87
def OP_EQUALVERIFY : Nat := 0x88
def OP_HASH160 : Nat := 0xa9
def OP_CODESEPARATOR : Nat := 0xab
def OP_CHECKSIG : Nat := 0xac
def OP_CHECKSIGVERIFY : Nat := 0xad
def OP_CHECKMULTISIG : Nat := 0xae
def OP_CHECKMULTISIGVERIFY : Nat := 0xaf
def OP_EXEC : Nat := 0xc1
def OP_EXEC_ASSIGN : Nat := 0xc2
def OP_TXHASH : Nat := 0xc3
def OP_GAS_LAP : Nat := 0xf6
def OP_DATA : Nat := 0xf7
def OP_VERSION : Nat := 0xf8
def OP_EXTBC : Nat := 0xf9
def OP_SMALLINTEGER : Nat := 0xfa
def OP_PUBKEYS : Nat := 0xfb
def OP_PUBKEYHASH : Nat := 0xfd
def OP_PUBKEY : Nat := 0xfe
def OP_INVALIDOPCODE : Nat := 0xff

def MAX_SCRIPT_ELEMENT_SIZE : Nat := 200 * 1024
def MAX_EXT_BYTECODE_SIZE : Nat := 1024 * 512
def MAX_OPS_PER_SCRIPT : Nat := 201
def MAX_PUBKEYS_PER_MULTISIG : Nat := 20
def MAX_SCRIPT_SIZE : Nat := 201 * 1024

/-- One instruction as `GetOp2` returns it: the opcode, the pushed bytes
(empty for a non-push opcode) and the offset just after the instruction. -/
structure Instruction where
  opcode : Nat
  push : valtype
  next : Nat
  deriving DecidableEq, Repr

/-- `end()` as an offset from `begin()`. `prevector` indexes through its
`difference_type`, an `int32_t`, so `end()` lies `size()` bytes after
`begin()` read as an `int32_t`: before `begin()` from `2 ^ 31` bytes on. -/
def scriptEnd (script : CScript) : Int := toSigned 32 (script.length % 2 ^ 32)

/-- The length field of a push opcode and the number of bytes it occupies,
`none` where fewer bytes than its width are left; `left` is `end() - pc`
after the opcode. -/
def pushSize (opcode : Nat) (left : Int) (rest : List UInt8) : Option (Nat × Nat) :=
  if opcode < OP_PUSHDATA1 then some (0,opcode)
  else if opcode = OP_PUSHDATA1 then
    if left < 1 then none else some (1,LittleEndian.decode (rest.take 1))
  else if opcode = OP_PUSHDATA2 then
    if left < 2 then none else some (2,LittleEndian.decode (rest.take 2))
  else
    if left < 4 then none else some (4,LittleEndian.decode (rest.take 4))

/-- `CScript::GetOp2` at offset `pc`; `none` where it returns false. Past
the test `pc >= end()` every difference `end() - pc` it takes lies between
`0` and `2 ^ 31`, where the `int32_t` holds it exactly, so `end() - pc < 1`
never fails after it. -/
def getOp (script : CScript) (pc : Nat) : Option Instruction :=
  if scriptEnd script ≤ pc then none
  else
    match script.drop pc with
    | [] => none
    | byte :: rest =>
      let opcode := byte.toNat
      if opcode ≤ OP_PUSHDATA4 then
        match pushSize opcode (scriptEnd script - (pc + 1)) rest with
        | none => none
        | some (field,nSize) =>
          let left := scriptEnd script - (pc + 1 + field)
          if left < 0 ∨ left.toNat < nSize then none
          else some ⟨opcode,(rest.drop field).take nSize,pc + 1 + field + nSize⟩
      else some ⟨opcode,[],pc + 1⟩

theorem scriptEnd_le (script : CScript) : scriptEnd script ≤ script.length := by
  have wrapped := Nat.mod_le script.length (2 ^ 32)
  unfold scriptEnd toSigned
  split <;> omega

/-- Below `2 ^ 31` bytes `end()` is `size()` bytes after `begin()`. -/
theorem scriptEnd_of_lt {script : CScript} (short : script.length < 2 ^ 31) : scriptEnd script = script.length := by
  have exact : script.length % 2 ^ 32 = script.length := Nat.mod_eq_of_lt (by omega)
  unfold scriptEnd toSigned
  rw [exact,if_pos (by simpa using short)]

theorem pushSize_le {opcode : Nat} {left : Int} {rest : List UInt8} {field nSize : Nat} (nonnegative : 0 ≤ left)
    (sized : pushSize opcode left rest = some (field,nSize)) : field ≤ left := by
  unfold pushSize at sized
  split_ifs at sized <;> cases sized <;> omega

/-- What a read instruction is: the opcode is the byte at `pc`, and the
instruction ends after `pc` and inside the script. -/
theorem getOp_spec {script : CScript} {pc : Nat} {op : Instruction}
    (read : getOp script pc = some op) :
    ∃ byte rest, script.drop pc = byte :: rest ∧ op.opcode = byte.toNat ∧
      pc < op.next ∧ op.next ≤ script.length := by
  have bounded := scriptEnd_le script
  unfold getOp at read
  split at read
  · contradiction
  split at read
  · contradiction
  · rename_i before byte rest split
    refine ⟨byte,rest,split,?_⟩
    dsimp only at read
    split at read
    · cases sized : pushSize byte.toNat (scriptEnd script - (pc + 1)) rest with
      | none => simp [sized] at read
      | some size =>
        obtain ⟨field,nSize⟩ := size
        have inside := pushSize_le (by omega) sized
        simp only [sized] at read
        split at read
        · contradiction
        · rename_i fits
          cases read
          refine ⟨rfl,?_,?_⟩ <;> dsimp only <;> omega
    · cases read
      refine ⟨rfl,?_,?_⟩ <;> dsimp only <;> omega

/-- `GetOp2` on a script shorter than `2 ^ 31` bytes, where `end()` is
`size()` bytes after `begin()`: it reads the bytes from `pc` on and tests how
many of them are left. -/
def readAt (bytes : List UInt8) (pc : Nat) : Option Instruction :=
  match bytes with
  | [] => none
  | byte :: rest =>
    let opcode := byte.toNat
    if opcode ≤ OP_PUSHDATA4 then
      match pushSize opcode rest.length rest with
      | none => none
      | some (field,nSize) =>
        if rest.length - field < nSize then none
        else some ⟨opcode,(rest.drop field).take nSize,pc + 1 + field + nSize⟩
    else some ⟨opcode,[],pc + 1⟩

theorem getOp_of_lt {script : CScript} (short : script.length < 2 ^ 31) (pc : Nat) :
    getOp script pc = readAt (script.drop pc) pc := by
  unfold getOp readAt
  rw [scriptEnd_of_lt short]
  by_cases past : script.length ≤ pc
  · rw [if_pos (by exact_mod_cast past),List.drop_eq_nil_of_le past]
  · rw [if_neg (by exact_mod_cast past)]
    obtain ⟨byte,rest,split⟩ := List.exists_cons_of_ne_nil (by simpa using past : script.drop pc ≠ [])
    have length : rest.length + 1 = script.length - pc := by
      rw [← List.length_drop,split,List.length_cons]
    rw [split]
    dsimp only
    have left : (script.length : Int) - (pc + 1) = rest.length := by omega
    rw [left]
    split
    · cases sized : pushSize byte.toNat rest.length rest with
      | none => rfl
      | some size =>
        obtain ⟨field,nSize⟩ := size
        have inside := pushSize_le (by omega) sized
        dsimp only
        -- the bytes left after the field, as `end() - pc` counts them
        have fits : ((script.length : Int) - (pc + 1 + field) < 0 ∨
            ((script.length : Int) - (pc + 1 + field)).toNat < nSize) ↔ rest.length - field < nSize := by
          omega
        simp only [fits]
    · rfl

theorem getOp_next_gt {script : CScript} {pc : Nat} {op : Instruction}
    (read : getOp script pc = some op) : pc < op.next := by
  obtain ⟨-,-,-,-,after,-⟩ := getOp_spec read
  exact after

/-- `CScript::Find`: the number of instructions with opcode `op` before the
first one `GetOp` cannot read. The fuel is the script length: every
instruction consumes a byte. -/
def findFrom (script : CScript) (op : Nat) : Nat → Nat → Nat
  | 0, _ => 0
  | fuel + 1, pc =>
    if pc < script.length then
      match getOp script pc with
      | none => 0
      | some read => (if read.opcode = op then 1 else 0) + findFrom script op fuel read.next
    else 0

def find (script : CScript) (op : Nat) : Nat := findFrom script op script.length 0

def HasOpExec (script : CScript) : Bool := 0 < find script OP_EXEC
def HasOpAssign (script : CScript) : Bool := 0 < find script OP_EXEC_ASSIGN
def HasOpTXHASH (script : CScript) : Bool := 0 < find script OP_TXHASH

/-- `CScript::IsPushOnly(pc)`: every instruction from `pc` on reads and has
an opcode at most `OP_16`. -/
def isPushOnlyFrom (script : CScript) : Nat → Nat → Bool
  | 0, _ => true
  | fuel + 1, pc =>
    -- `while (pc < end())`, with `end()` as `prevector` places it
    if (pc : Int) < scriptEnd script then
      match getOp script pc with
      | none => false
      | some read => read.opcode ≤ OP_16 && isPushOnlyFrom script fuel read.next
    else true

def IsPushOnly (script : CScript) : Bool := isPushOnlyFrom script script.length 0

def IsPayToScriptHash (script : CScript) : Bool :=
  script.length == 23 && script[0]!.toNat == OP_HASH160 && script[1]! == 0x14 &&
    script[22]!.toNat == OP_EQUAL

def IsPayToPubkeyHash (script : CScript) : Bool :=
  script.length == 25 && script[0]!.toNat == OP_DUP && script[1]!.toNat == OP_HASH160 &&
    script[2]! == 0x14 && script[23]!.toNat == OP_EQUALVERIFY && script[24]!.toNat == OP_CHECKSIG

/-- `CScript::DecodeOP_N` on `OP_0` and `OP_1` to `OP_16`. -/
def DecodeOP_N (opcode : Nat) : Nat := if opcode = OP_0 then 0 else opcode - (OP_1 - 1)

/-- `CScript::IsWitnessProgram`: the version and the program. -/
def IsWitnessProgram (script : CScript) : Option (Nat × valtype) :=
  if script.length < 4 || 42 < script.length then none
  else if script[0]!.toNat ≠ OP_0 && (script[0]!.toNat < OP_1 || OP_16 < script[0]!.toNat) then none
  else if script[1]!.toNat + 2 = script.length then
    some (DecodeOP_N script[0]!.toNat,script.drop 2)
  else none

def IsUnspendable (script : CScript) : Bool :=
  (0 < script.length && script[0]!.toNat == OP_RETURN) || MAX_SCRIPT_SIZE < script.length

/-- `CScript::operator<<(opcodetype)` for an opcode below 256. -/
def pushOpcode (script : CScript) (opcode : Nat) : CScript := script ++ [UInt8.ofNat opcode]

/-- `CScript::operator<<(const std::vector<unsigned char>&)`: the shortest of
the direct push and the three `OP_PUSHDATA` forms that holds the length. -/
def pushData (script : CScript) (data : valtype) : CScript :=
  let size := data.length
  let header : List UInt8 :=
    if size < OP_PUSHDATA1 then [UInt8.ofNat size]
    else if size ≤ 0xff then [UInt8.ofNat OP_PUSHDATA1,UInt8.ofNat size]
    else if size ≤ 0xffff then UInt8.ofNat OP_PUSHDATA2 :: LittleEndian.encode 2 size
    else UInt8.ofNat OP_PUSHDATA4 :: LittleEndian.encode 4 size
  script ++ header ++ data

/-! ## `CScriptNum` -/

/-- `CScriptNum::set_vch`: little-endian magnitude, sign in the top bit of the
last byte. Exact for the at most eight bytes the callers admit; past eight
bytes `set_vch` shifts an `int64_t` by 64 bits or more, which is undefined,
and no result here reads the value the model gives there. -/
def setVch (vch : valtype) : Int :=
  match vch.getLast? with
  | none => 0
  | some last =>
    if last &&& 0x80 = 0 then LittleEndian.decode vch
    else -(LittleEndian.decode (vch.dropLast ++ [last &&& 0x7f]) : Int)

/-- The bytes `CScriptNum::serialize` emits for a magnitude, least significant
first; eight rounds exhaust a `uint64_t`. -/
def magnitudeBytes : Nat → Nat → List UInt8
  | 0, _ => []
  | fuel + 1, n => if n = 0 then [] else UInt8.ofNat (n % 256) :: magnitudeBytes fuel (n / 256)

/-- `CScriptNum::serialize`. -/
def CScriptNum.serialize (value : Int) : valtype :=
  if value = 0 then [] else
    let result := magnitudeBytes 8 value.natAbs
    let top := result.getLast!
    if top &&& 0x80 ≠ 0 then result ++ [if value < 0 then 0x80 else 0]
    else if value < 0 then result.dropLast ++ [top ||| 0x80]
    else result

/-- `CScriptNum(vch, fRequireMinimal, nMaxNumSize)`: `none` where the
constructor throws `scriptnum_error`. -/
def CScriptNum.ofBytes (vch : valtype) (fRequireMinimal : Bool) (nMaxNumSize : Nat) : Option Int :=
  if nMaxNumSize < vch.length then none
  else if fRequireMinimal && 0 < vch.length && vch.getLast! &&& 0x7f = 0 &&
      (vch.length ≤ 1 || vch[vch.length - 2]! &&& 0x80 = 0) then none
  else some (setVch vch)

/-- `CScript::push_int64`: -1 and 1 to 16 as their opcodes, 0 as `OP_0`, any
other value as the push of its `CScriptNum` serialization. -/
def pushInt64 (script : CScript) (n : Int) : CScript :=
  if n = -1 ∨ (1 ≤ n ∧ n ≤ 16) then script ++ [UInt8.ofNat (n + (OP_1 - 1)).toNat]
  else if n = 0 then pushOpcode script OP_0
  else pushData script (CScriptNum.serialize n)

/-- `CScriptNum::getint`: the value clamped to `int`. -/
def CScriptNum.getint (value : Int) : Int := max (-2 ^ 31) (min value (2 ^ 31 - 1))

end Qtum.Script
