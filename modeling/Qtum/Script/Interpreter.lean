import Qtum.Script.Script
import Qtum.Library.Abort

/-! `EvalScript` of `script/interpreter.cpp`, with Qtum's `OP_EXEC`,
`OP_EXEC_ASSIGN` and `OP_TXHASH`. The stack is a list whose head is
`stacktop(-1)`. One loop iteration is `instruction`: it either falls through
to the stack-size check (`Step.next`), executes a `return` (`Step.exit`),
throws an exception that the handler at the end of `EvalScript` turns into
`SCRIPT_ERR_UNKNOWN_ERROR` (`Step.raise`), or aborts the process
(`Step.fault`). Hash functions, `CPubKey::CheckLowS` and the signature
checker are parameters: they are code outside the interpreter. -/
namespace Qtum.Script

/-- `ScriptError_t`. -/
inductive ScriptError
  | SCRIPT_ERR_OK | SCRIPT_ERR_UNKNOWN_ERROR | SCRIPT_ERR_EVAL_FALSE | SCRIPT_ERR_OP_RETURN
  | SCRIPT_ERR_SCRIPT_SIZE | SCRIPT_ERR_PUSH_SIZE | SCRIPT_ERR_OP_COUNT | SCRIPT_ERR_STACK_SIZE
  | SCRIPT_ERR_SIG_COUNT | SCRIPT_ERR_PUBKEY_COUNT
  | SCRIPT_ERR_VERIFY | SCRIPT_ERR_EQUALVERIFY | SCRIPT_ERR_CHECKMULTISIGVERIFY
  | SCRIPT_ERR_CHECKSIGVERIFY | SCRIPT_ERR_NUMEQUALVERIFY
  | SCRIPT_ERR_BAD_OPCODE | SCRIPT_ERR_DISABLED_OPCODE | SCRIPT_ERR_INVALID_STACK_OPERATION
  | SCRIPT_ERR_INVALID_ALTSTACK_OPERATION | SCRIPT_ERR_UNBALANCED_CONDITIONAL
  | SCRIPT_ERR_NEGATIVE_LOCKTIME | SCRIPT_ERR_UNSATISFIED_LOCKTIME
  | SCRIPT_ERR_SIG_HASHTYPE | SCRIPT_ERR_SIG_DER | SCRIPT_ERR_MINIMALDATA
  | SCRIPT_ERR_SIG_PUSHONLY | SCRIPT_ERR_SIG_HIGH_S | SCRIPT_ERR_SIG_NULLDUMMY
  | SCRIPT_ERR_PUBKEYTYPE | SCRIPT_ERR_CLEANSTACK
  | SCRIPT_ERR_DISCOURAGE_UPGRADABLE_NOPS | SCRIPT_ERR_DISCOURAGE_UPGRADABLE_WITNESS_PROGRAM
  | SCRIPT_ERR_WITNESS_PROGRAM_WRONG_LENGTH | SCRIPT_ERR_WITNESS_PROGRAM_WITNESS_EMPTY
  | SCRIPT_ERR_WITNESS_PROGRAM_MISMATCH | SCRIPT_ERR_WITNESS_MALLEATED
  | SCRIPT_ERR_WITNESS_MALLEATED_P2SH | SCRIPT_ERR_WITNESS_UNEXPECTED
  deriving DecidableEq, Repr

open ScriptError

def SCRIPT_VERIFY_P2SH : Nat := 1 <<< 0
def SCRIPT_VERIFY_STRICTENC : Nat := 1 <<< 1
def SCRIPT_VERIFY_DERSIG : Nat := 1 <<< 2
def SCRIPT_VERIFY_LOW_S : Nat := 1 <<< 3
def SCRIPT_VERIFY_NULLDUMMY : Nat := 1 <<< 4
def SCRIPT_VERIFY_SIGPUSHONLY : Nat := 1 <<< 5
def SCRIPT_VERIFY_MINIMALDATA : Nat := 1 <<< 6
def SCRIPT_VERIFY_DISCOURAGE_UPGRADABLE_NOPS : Nat := 1 <<< 7
def SCRIPT_VERIFY_CLEANSTACK : Nat := 1 <<< 8
def SCRIPT_VERIFY_CHECKLOCKTIMEVERIFY : Nat := 1 <<< 9
def SCRIPT_VERIFY_CHECKSEQUENCEVERIFY : Nat := 1 <<< 10
def SCRIPT_VERIFY_WITNESS : Nat := 1 <<< 11
def SCRIPT_VERIFY_DISCOURAGE_UPGRADABLE_WITNESS_PROGRAM : Nat := 1 <<< 12
def SCRIPT_EXEC_BYTE_CODE : Nat := 1 <<< 30
def SCRIPT_ALLOW_OP_TXHASH : Nat := 1 <<< 31

/-- `flags & flag` is non-zero. -/
def hasFlag (flags flag : Nat) : Bool := flags &&& flag != 0

def SIGHASH_ALL : UInt8 := 1
def SIGHASH_SINGLE : UInt8 := 3
def SIGHASH_ANYONECANPAY : UInt8 := 0x80

/-- `CTxIn::SEQUENCE_LOCKTIME_DISABLE_FLAG`. -/
def SEQUENCE_LOCKTIME_DISABLE_FLAG : Nat := 1 <<< 31

inductive SigVersion
  | SIGVERSION_BASE | SIGVERSION_WITNESS_V0
  deriving DecidableEq, Repr

/-- `BlockValidationContext`: the queue of hashes that contract-owned outputs
may still be spent by, front first, and the hash of the transaction being
checked. -/
structure BlockValidationContext where
  expectedTxHashes : List uint256
  currentTxHash : uint256
  deriving DecidableEq

/-- The virtual methods of `BaseSignatureChecker`. -/
structure SignatureChecker where
  CheckSig : valtype → valtype → CScript → SigVersion → Bool
  CheckLockTime : Int → Bool
  CheckSequence : Int → Bool

/-- `BaseSignatureChecker` itself: every check fails. -/
def BaseSignatureChecker : SignatureChecker where
  CheckSig _ _ _ _ := false
  CheckLockTime _ := false
  CheckSequence _ := false

/-- The hash functions of `crypto/` and `CPubKey::CheckLowS`. -/
structure Crypto where
  RIPEMD160 : valtype → uint160
  SHA1 : valtype → uint160
  SHA256 : valtype → uint256
  CheckLowS : valtype → Bool

/-- Hash functions that map every input to zero, with a low-S check that
accepts every signature: for results that hold whatever the hashes are, the
witnesses run on these. -/
def nullCrypto : Crypto := ⟨fun _ => Blob.null 20,fun _ => Blob.null 20,fun _ => Blob.null 32,fun _ => true⟩

/-- The 32-byte chunks of `data`, the last one padded with zeros, added byte
by byte modulo 256, chunk `k` taken `k + 1` times. -/
def chunkSum (data : valtype) : List UInt8 :=
  (List.range 32).map fun i =>
    ((List.range ((data.length + 31) / 32)).map fun k => data.getD (32 * k + i) 0 * (k + 1).toUInt8).foldr (· + ·) 0

/-- Hash functions that return the chunk sum of their input: far from a
digest, but the hash of two nodes depends on both, so that the small Merkle
trees of the witnesses have distinct siblings. -/
def sumCrypto : Crypto :=
  ⟨fun data => ⟨(chunkSum data).take 20,by simp [chunkSum]⟩,fun data => ⟨(chunkSum data).take 20,by simp [chunkSum]⟩,
    fun data => ⟨chunkSum data,by simp [chunkSum]⟩,fun _ => true⟩

/-- `CHash160`: RIPEMD-160 of SHA-256. -/
def Crypto.Hash160 (crypto : Crypto) (data : valtype) : uint160 :=
  crypto.RIPEMD160 (crypto.SHA256 data).bytes

/-- `CHash256`: SHA-256 twice. -/
def Crypto.Hash256 (crypto : Crypto) (data : valtype) : uint256 :=
  crypto.SHA256 (crypto.SHA256 data).bytes

def vchFalse : valtype := []
def vchTrue : valtype := [1]

/-- `CastToBool`: some byte is non-zero, except a lone sign bit at the end
(negative zero). -/
def CastToBool : valtype → Bool
  | [] => false
  | [last] => last != 0 && last != 0x80
  | byte :: rest => byte != 0 || CastToBool rest

/-- `popstack`: `none` where it throws `runtime_error`. -/
def popstack : List valtype → Option (List valtype)
  | [] => none
  | _ :: rest => some rest

def IsCompressedOrUncompressedPubKey (vchPubKey : valtype) : Bool :=
  if vchPubKey.length < 33 then false
  else if vchPubKey[0]! = 0x04 then vchPubKey.length = 65
  else if vchPubKey[0]! = 0x02 || vchPubKey[0]! = 0x03 then vchPubKey.length = 33
  else false

/-- `IsValidSignatureEncoding(sig, haveHashType)`, Qtum's form with an
optional trailing sighash byte. -/
def IsValidSignatureEncoding (sig : valtype) (haveHashType : Bool) : Bool :=
  let size := sig.length
  if size < 9 then false
  else if 73 < size then false
  else if sig[0]! != 0x30 then false
  else if sig[1]!.toNat != size - (if haveHashType then 3 else 2) then false
  else
    let lenR := sig[3]!.toNat
    if size ≤ 5 + lenR then false
    else
      let lenS := sig[5 + lenR]!.toNat
      if lenR + lenS + (if haveHashType then 7 else 6) != size then false
      else if sig[2]! != 0x02 then false
      else if lenR = 0 then false
      else if sig[4]! &&& 0x80 != 0 then false
      else if 1 < lenR && sig[4]! == 0 && sig[5]! &&& 0x80 == 0 then false
      else if sig[lenR + 4]! != 0x02 then false
      else if lenS = 0 then false
      else if sig[lenR + 6]! &&& 0x80 != 0 then false
      else if 1 < lenS && sig[lenR + 6]! == 0 && sig[lenR + 7]! &&& 0x80 == 0 then false
      else true

/-- A check that sets `serror` when it returns false: `none` is a pass,
`some e` a failure with error `e`. -/
abbrev Check := Option ScriptError

def IsLowDERSignature (crypto : Crypto) (vchSig : valtype) (haveHashType : Bool) : Check :=
  if !IsValidSignatureEncoding vchSig haveHashType then some SCRIPT_ERR_SIG_DER
  else if !crypto.CheckLowS (vchSig.take (vchSig.length - if haveHashType then 1 else 0)) then
    some SCRIPT_ERR_SIG_HIGH_S
  else none

def IsDefinedHashtypeSignature (vchSig : valtype) : Bool :=
  match vchSig.getLast? with
  | none => false
  | some last =>
    let nHashType := last &&& ~~~SIGHASH_ANYONECANPAY
    SIGHASH_ALL ≤ nHashType && nHashType ≤ SIGHASH_SINGLE

def CheckSignatureEncoding (crypto : Crypto) (vchSig : valtype) (flags : Nat) : Check :=
  if vchSig.length = 0 then none
  else if hasFlag flags (SCRIPT_VERIFY_DERSIG ||| SCRIPT_VERIFY_LOW_S ||| SCRIPT_VERIFY_STRICTENC) &&
      !IsValidSignatureEncoding vchSig true then some SCRIPT_ERR_SIG_DER
  else
    -- the low-S branch of the `else if` chain returns only when that test fails
    match (if hasFlag flags SCRIPT_VERIFY_LOW_S then IsLowDERSignature crypto vchSig true else none) with
    | some failure => some failure
    | none =>
      if hasFlag flags SCRIPT_VERIFY_STRICTENC && !IsDefinedHashtypeSignature vchSig then
        some SCRIPT_ERR_SIG_HASHTYPE
      else none

def CheckPubKeyEncoding (vchPubKey : valtype) (flags : Nat) : Check :=
  if hasFlag flags SCRIPT_VERIFY_STRICTENC && !IsCompressedOrUncompressedPubKey vchPubKey then
    some SCRIPT_ERR_PUBKEYTYPE
  else none

def CheckMinimalPush (data : valtype) (opcode : Nat) : Bool :=
  if data.length = 0 then opcode = OP_0
  else if data.length = 1 && 1 ≤ data[0]!.toNat && data[0]!.toNat ≤ 16 then
    opcode = OP_1 + (data[0]!.toNat - 1)
  else if data.length = 1 && data[0]! == 0x81 then opcode = OP_1NEGATE
  else if data.length ≤ 75 then opcode = data.length
  else if data.length ≤ 255 then opcode = OP_PUSHDATA1
  else if data.length ≤ 65535 then opcode = OP_PUSHDATA2
  else true

/-! ## `CScript::FindAndDelete` -/

/-- Skip the copies of `pattern` that follow one another from `pc`, counting them. -/
def skipMatches (script pattern : CScript) : Nat → Nat → Nat → Nat × Nat
  | 0, pc, found => (pc,found)
  | fuel + 1, pc, found =>
    if pattern.length ≤ script.length - pc && (script.drop pc).take pattern.length = pattern then
      skipMatches script pattern fuel (pc + pattern.length) (found + 1)
    else (pc,found)

/-- The `do ... while (GetOp(pc, opcode))` loop: `kept` is the part of the
result before `copied`, the offset where the next copy starts. -/
def findAndDeleteLoop (script pattern : CScript) : Nat → Nat → Nat → CScript → Nat → CScript × Nat
  | 0, _, _, kept, found => (kept,found)
  | fuel + 1, copied, pc, kept, found =>
    let kept := kept ++ (script.drop copied).take (pc - copied)
    let (pc,found) := skipMatches script pattern script.length pc found
    match getOp script pc with
    | some read => findAndDeleteLoop script pattern fuel pc read.next kept found
    | none => (kept ++ script.drop pc,found)

/-- `CScript::FindAndDelete`: the script with every instruction-aligned copy
of `pattern` removed. -/
def FindAndDelete (script pattern : CScript) : CScript :=
  if pattern = [] then script
  else
    let (result,found) := findAndDeleteLoop script pattern (script.length + 1) 0 0 [] 0
    if 0 < found then result else script

/-! ## The interpreter -/

/-- The locals of `EvalScript` that live across iterations, and the
context it was passed. -/
structure Machine where
  stack : List valtype
  altstack : List valtype
  vfExec : List Bool
  nOpCount : Nat
  pbegincodehash : Nat
  context : Option BlockValidationContext

def Machine.push (machine : Machine) (value : valtype) : Machine :=
  {machine with stack := value :: machine.stack}

/-- How one iteration of the loop ends. -/
inductive Step
  | next (machine : Machine)
  | exit (machine : Machine) (result : Bool) (serror : ScriptError)
  | raise (machine : Machine)
  | fault (failure : Abort)

/-- The cases of the `switch` in `EvalScript`. -/
inductive OpKind
  | pushValue | nop | checkLockTimeVerify | checkSequenceVerify | upgradableNop
  | conditional (notif : Bool) | opElse | opEndif | verify | opReturn
  | toAltStack | fromAltStack
  | drop2 | dup2 | dup3 | over2 | rot2 | swap2 | ifDup | depth | drop | dup | nip | over
  | pick (roll : Bool) | rot | swap | tuck | size
  | equal (verify : Bool)
  | unary | binary | within | hash | codeSeparator
  | checkSig (verify : Bool) | checkMultiSig (verify : Bool)
  | exec (assign : Bool) | txHash
  | bad
  deriving DecidableEq, Repr

/-- The `case` labels of the switch, by opcode value. -/
def opKind (opcode : Nat) : OpKind :=
  if opcode = 0x4f || (0x51 ≤ opcode && opcode ≤ 0x60) then .pushValue
  else if opcode = 0x61 then .nop
  else if opcode = 0xb1 then .checkLockTimeVerify
  else if opcode = 0xb2 then .checkSequenceVerify
  else if opcode = 0xb0 || (0xb3 ≤ opcode && opcode ≤ 0xb9) then .upgradableNop
  else if opcode = 0x63 then .conditional false
  else if opcode = 0x64 then .conditional true
  else if opcode = 0x67 then .opElse
  else if opcode = 0x68 then .opEndif
  else if opcode = 0x69 then .verify
  else if opcode = 0x6a then .opReturn
  else if opcode = 0x6b then .toAltStack
  else if opcode = 0x6c then .fromAltStack
  else if opcode = 0x6d then .drop2
  else if opcode = 0x6e then .dup2
  else if opcode = 0x6f then .dup3
  else if opcode = 0x70 then .over2
  else if opcode = 0x71 then .rot2
  else if opcode = 0x72 then .swap2
  else if opcode = 0x73 then .ifDup
  else if opcode = 0x74 then .depth
  else if opcode = 0x75 then .drop
  else if opcode = 0x76 then .dup
  else if opcode = 0x77 then .nip
  else if opcode = 0x78 then .over
  else if opcode = 0x79 then .pick false
  else if opcode = 0x7a then .pick true
  else if opcode = 0x7b then .rot
  else if opcode = 0x7c then .swap
  else if opcode = 0x7d then .tuck
  else if opcode = 0x82 then .size
  else if opcode = 0x87 then .equal false
  else if opcode = 0x88 then .equal true
  else if opcode = 0x8b || opcode = 0x8c || (0x8f ≤ opcode && opcode ≤ 0x92) then .unary
  else if opcode = 0x93 || opcode = 0x94 || (0x9a ≤ opcode && opcode ≤ 0xa4) then .binary
  else if opcode = 0xa5 then .within
  else if 0xa6 ≤ opcode && opcode ≤ 0xaa then .hash
  else if opcode = 0xab then .codeSeparator
  else if opcode = 0xac then .checkSig false
  else if opcode = 0xad then .checkSig true
  else if opcode = 0xae then .checkMultiSig false
  else if opcode = 0xaf then .checkMultiSig true
  else if opcode = 0xc1 then .exec false
  else if opcode = 0xc2 then .exec true
  else if opcode = 0xc3 then .txHash
  else .bad

/-- The opcodes rejected before the switch, executed or not. -/
def isDisabled (opcode : Nat) : Bool :=
  (0x7e ≤ opcode && opcode ≤ 0x81) || (0x83 ≤ opcode && opcode ≤ 0x86) ||
    opcode = 0x8d || opcode = 0x8e || (0x95 ≤ opcode && opcode ≤ 0x99)

/-- A `CScriptNum` constructed from `stacktop(-i)`; `none` where it throws. -/
def stackNum (stack : List valtype) (i : Nat) (fRequireMinimal : Bool) (nMaxNumSize : Nat) : Option Int :=
  match stack[i]? with
  | none => none
  | some vch => CScriptNum.ofBytes vch fRequireMinimal nMaxNumSize

/-- A one-argument numeric opcode on the value `bn`. -/
def unaryResult (opcode : Nat) (bn : Int) : Int :=
  if opcode = 0x8b then bn + 1
  else if opcode = 0x8c then bn - 1
  else if opcode = 0x8f then -bn
  else if opcode = 0x90 then (if bn < 0 then -bn else bn)
  else if opcode = 0x91 then (if bn = 0 then 1 else 0)
  else (if bn ≠ 0 then 1 else 0)

/-- A two-argument numeric opcode on `bn1` (deeper) and `bn2` (top). -/
def binaryResult (opcode : Nat) (bn1 bn2 : Int) : Int :=
  let ofBool : Bool → Int := fun b => if b then 1 else 0
  if opcode = 0x93 then bn1 + bn2
  else if opcode = 0x94 then bn1 - bn2
  else if opcode = 0x9a then ofBool (bn1 ≠ 0 && bn2 ≠ 0)
  else if opcode = 0x9b then ofBool (bn1 ≠ 0 || bn2 ≠ 0)
  else if opcode = 0x9c || opcode = 0x9d then ofBool (bn1 = bn2)
  else if opcode = 0x9e then ofBool (bn1 ≠ bn2)
  else if opcode = 0x9f then ofBool (bn1 < bn2)
  else if opcode = 0xa0 then ofBool (bn1 > bn2)
  else if opcode = 0xa1 then ofBool (bn1 ≤ bn2)
  else if opcode = 0xa2 then ofBool (bn1 ≥ bn2)
  else if opcode = 0xa3 then (if bn1 < bn2 then bn1 else bn2)
  else (if bn1 > bn2 then bn1 else bn2)

/-- `OP_RIPEMD160`, `OP_SHA1`, `OP_SHA256`, `OP_HASH160` and `OP_HASH256`. -/
def hashResult (crypto : Crypto) (opcode : Nat) (vch : valtype) : valtype :=
  if opcode = 0xa6 then (crypto.RIPEMD160 vch).bytes
  else if opcode = 0xa7 then (crypto.SHA1 vch).bytes
  else if opcode = 0xa8 then (crypto.SHA256 vch).bytes
  else if opcode = 0xa9 then (crypto.Hash160 vch).bytes
  else (crypto.Hash256 vch).bytes

/-- The inner `while (fSuccess && nSigsCount > 0)` loop of `OP_CHECKMULTISIG`,
with the stack offsets `isig` and `ikey` counted from the top, 1 for
`stacktop(-1)`. Its result is `fSuccess`, or the error of a failed encoding
check. -/
def multisigLoop (crypto : Crypto) (checker : SignatureChecker) (flags : Nat) (sigversion : SigVersion)
    (scriptCode : CScript) (stack : List valtype) :
    Nat → Nat → Nat → Int → Int → Except ScriptError Bool
  | 0, _, _, _, _ => .ok true
  | fuel + 1, isig, ikey, nSigsCount, nKeysCount =>
    if nSigsCount ≤ 0 then .ok true
    else
      let vchSig := stack[isig - 1]!
      let vchPubKey := stack[ikey - 1]!
      match CheckSignatureEncoding crypto vchSig flags, CheckPubKeyEncoding vchPubKey flags with
      | some failure, _ => .error failure
      | none, some failure => .error failure
      | none, none =>
        let fOk := checker.CheckSig vchSig vchPubKey scriptCode sigversion
        let isig := if fOk then isig + 1 else isig
        let nSigsCount := if fOk then nSigsCount - 1 else nSigsCount
        -- more signatures left than keys: too many have failed
        if nSigsCount > nKeysCount - 1 then .ok false
        else multisigLoop crypto checker flags sigversion scriptCode stack fuel isig (ikey + 1)
          nSigsCount (nKeysCount - 1)

/-- `OP_CHECKMULTISIG` and `OP_CHECKMULTISIGVERIFY`. -/
def checkMultiSig (crypto : Crypto) (checker : SignatureChecker) (flags : Nat) (sigversion : SigVersion)
    (script : CScript) (verify : Bool) (m : Machine) : Step :=
  let fRequireMinimal := hasFlag flags SCRIPT_VERIFY_MINIMALDATA
  if m.stack.length < 1 then .exit m false SCRIPT_ERR_INVALID_STACK_OPERATION
  else match stackNum m.stack 0 fRequireMinimal 4 with
  | none => .raise m
  | some keys =>
    let nKeysCount := CScriptNum.getint keys
    if nKeysCount < 0 || nKeysCount > MAX_PUBKEYS_PER_MULTISIG then .exit m false SCRIPT_ERR_PUBKEY_COUNT
    else
      let m := {m with nOpCount := m.nOpCount + nKeysCount.toNat}
      if MAX_OPS_PER_SCRIPT < m.nOpCount then .exit m false SCRIPT_ERR_OP_COUNT
      else
        let ikey := 2
        let i := 2 + nKeysCount.toNat
        if m.stack.length < i then .exit m false SCRIPT_ERR_INVALID_STACK_OPERATION
        else match stackNum m.stack (i - 1) fRequireMinimal 4 with
        | none => .raise m
        | some sigs =>
          let nSigsCount := CScriptNum.getint sigs
          if nSigsCount < 0 || nSigsCount > nKeysCount then .exit m false SCRIPT_ERR_SIG_COUNT
          else
            let isig := i + 1
            let i := isig + nSigsCount.toNat
            if m.stack.length < i then .exit m false SCRIPT_ERR_INVALID_STACK_OPERATION
            else
              let scriptCode := script.drop m.pbegincodehash
              -- the signatures are removed from the signed code before any is checked
              let scriptCode := if sigversion = .SIGVERSION_BASE then
                  ((List.range nSigsCount.toNat).map fun k => m.stack[isig + k - 1]!).foldl
                    (fun code vchSig => FindAndDelete code (pushData [] vchSig)) scriptCode
                else scriptCode
              match multisigLoop crypto checker flags sigversion scriptCode m.stack (nKeysCount.toNat + 1)
                  isig ikey nSigsCount nKeysCount with
              | .error failure => .exit m false failure
              | .ok fSuccess =>
                -- `while (i-- > 1) popstack(stack)` leaves the dummy element
                let stack := m.stack.drop (i - 1)
                if stack.length < 1 then .exit {m with stack} false SCRIPT_ERR_INVALID_STACK_OPERATION
                else if hasFlag flags SCRIPT_VERIFY_NULLDUMMY && stack.head!.length != 0 then
                  .exit {m with stack} false SCRIPT_ERR_SIG_NULLDUMMY
                else
                  let stack := (if fSuccess then vchTrue else vchFalse) :: stack.tail
                  if verify then
                    if fSuccess then .next {m with stack := stack.tail}
                    else .exit {m with stack} false SCRIPT_ERR_CHECKMULTISIGVERIFY
                  else .next {m with stack}

/-- `OP_CHECKSIG` and `OP_CHECKSIGVERIFY`. -/
def checkSig (crypto : Crypto) (checker : SignatureChecker) (flags : Nat) (sigversion : SigVersion)
    (script : CScript) (verify : Bool) (m : Machine) : Step :=
  match m.stack with
  | vchPubKey :: vchSig :: rest =>
    let scriptCode := script.drop m.pbegincodehash
    let scriptCode := if sigversion = .SIGVERSION_BASE then FindAndDelete scriptCode (pushData [] vchSig)
      else scriptCode
    match CheckSignatureEncoding crypto vchSig flags, CheckPubKeyEncoding vchPubKey flags with
    | some failure, _ => .exit m false failure
    | none, some failure => .exit m false failure
    | none, none =>
      let fSuccess := checker.CheckSig vchSig vchPubKey scriptCode sigversion
      let stack := (if fSuccess then vchTrue else vchFalse) :: rest
      if verify then
        if fSuccess then .next {m with stack := rest}
        else .exit {m with stack} false SCRIPT_ERR_CHECKSIGVERIFY
      else .next {m with stack}
  | _ => .exit m false SCRIPT_ERR_INVALID_STACK_OPERATION

/-- `OP_EXEC` and `OP_EXEC_ASSIGN`. With `SCRIPT_EXEC_BYTE_CODE` the rest of
the script from the opcode on is pushed and `EvalScript` returns true; otherwise
the four (five) arguments are popped and the top left by the spender is compared
with the front of the expected hashes. The context is dereferenced, the queue's
`front()` read and the top converted to `uint256` without any check. -/
def execContract (flags : Nat) (script : CScript) (assign : Bool) (pc : Nat) (m : Machine) : Step :=
  if hasFlag flags SCRIPT_EXEC_BYTE_CODE then
    .exit (m.push (script.drop (pc - 1))) true SCRIPT_ERR_UNKNOWN_ERROR
  else
    if m.stack.length < 4 then .raise {m with stack := []}
    else
      let stack := m.stack.drop 4
      if assign && stack.isEmpty then .raise {m with stack := []}
      else
        let stack := if assign then stack.tail else stack
        match m.context with
        | none => .fault .nullDereference
        | some context =>
          let stack := if context.expectedTxHashes.isEmpty || stack.isEmpty then vchFalse :: stack else stack
          match context.expectedTxHashes with
          | [] => .fault .emptyAccess
          | front :: queued =>
            match Blob.ofBytes? 32 stack.head! with
            | none => .fault .assertion
            | some top =>
              if front = top then
                .next {m with stack := vchTrue :: stack, context := some {context with expectedTxHashes := queued}}
              else .next {m with stack}

/-- The body of the `switch` for one executed (or conditional) opcode. `pc`
is the offset after the instruction. -/
def execute (crypto : Crypto) (checker : SignatureChecker) (flags : Nat) (sigversion : SigVersion)
    (script : CScript) (opcode pc : Nat) (fExec : Bool) (m : Machine) : Step :=
  let fRequireMinimal := hasFlag flags SCRIPT_VERIFY_MINIMALDATA
  let invalid := Step.exit m false SCRIPT_ERR_INVALID_STACK_OPERATION
  match opKind opcode, m.stack with
  | .pushValue, _ => .next (m.push (CScriptNum.serialize ((opcode : Int) - (OP_1 - 1 : Nat))))
  | .nop, _ => .next m
  | .checkLockTimeVerify, stack =>
    if !hasFlag flags SCRIPT_VERIFY_CHECKLOCKTIMEVERIFY then
      if hasFlag flags SCRIPT_VERIFY_DISCOURAGE_UPGRADABLE_NOPS then
        .exit m false SCRIPT_ERR_DISCOURAGE_UPGRADABLE_NOPS
      else .next m
    else if stack.length < 1 then invalid
    else match stackNum stack 0 fRequireMinimal 5 with
      | none => .raise m
      | some nLockTime =>
        if nLockTime < 0 then .exit m false SCRIPT_ERR_NEGATIVE_LOCKTIME
        else if !checker.CheckLockTime nLockTime then .exit m false SCRIPT_ERR_UNSATISFIED_LOCKTIME
        else .next m
  | .checkSequenceVerify, stack =>
    if !hasFlag flags SCRIPT_VERIFY_CHECKSEQUENCEVERIFY then
      if hasFlag flags SCRIPT_VERIFY_DISCOURAGE_UPGRADABLE_NOPS then
        .exit m false SCRIPT_ERR_DISCOURAGE_UPGRADABLE_NOPS
      else .next m
    else if stack.length < 1 then invalid
    else match stackNum stack 0 fRequireMinimal 5 with
      | none => .raise m
      | some nSequence =>
        if nSequence < 0 then .exit m false SCRIPT_ERR_NEGATIVE_LOCKTIME
        else if (nSequence.toNat &&& SEQUENCE_LOCKTIME_DISABLE_FLAG) != 0 then .next m
        else if !checker.CheckSequence nSequence then .exit m false SCRIPT_ERR_UNSATISFIED_LOCKTIME
        else .next m
  | .upgradableNop, _ =>
    if hasFlag flags SCRIPT_VERIFY_DISCOURAGE_UPGRADABLE_NOPS then
      .exit m false SCRIPT_ERR_DISCOURAGE_UPGRADABLE_NOPS
    else .next m
  | .conditional notif, stack =>
    -- an unexecuted branch pushes false without looking at the stack
    if fExec then
      match stack with
      | [] => .exit m false SCRIPT_ERR_UNBALANCED_CONDITIONAL
      | vch :: rest =>
        let fValue := if notif then !CastToBool vch else CastToBool vch
        .next {m with stack := rest, vfExec := fValue :: m.vfExec}
    else .next {m with vfExec := false :: m.vfExec}
  | .opElse, _ =>
    match m.vfExec with
    | [] => .exit m false SCRIPT_ERR_UNBALANCED_CONDITIONAL
    | top :: rest => .next {m with vfExec := (!top) :: rest}
  | .opEndif, _ =>
    match m.vfExec with
    | [] => .exit m false SCRIPT_ERR_UNBALANCED_CONDITIONAL
    | _ :: rest => .next {m with vfExec := rest}
  | .verify, [] => invalid
  | .verify, vch :: rest =>
    if CastToBool vch then .next {m with stack := rest} else .exit m false SCRIPT_ERR_VERIFY
  | .opReturn, _ => .exit m false SCRIPT_ERR_OP_RETURN
  | .toAltStack, [] => invalid
  | .toAltStack, vch :: rest => .next {m with stack := rest, altstack := vch :: m.altstack}
  | .fromAltStack, _ =>
    match m.altstack with
    | [] => .exit m false SCRIPT_ERR_INVALID_ALTSTACK_OPERATION
    | vch :: rest => .next {m with stack := vch :: m.stack, altstack := rest}
  | .drop2, _ :: _ :: rest => .next {m with stack := rest}
  | .dup2, x2 :: x1 :: rest => .next {m with stack := x2 :: x1 :: x2 :: x1 :: rest}
  | .dup3, x3 :: x2 :: x1 :: rest => .next {m with stack := x3 :: x2 :: x1 :: x3 :: x2 :: x1 :: rest}
  | .over2, x4 :: x3 :: x2 :: x1 :: rest =>
    .next {m with stack := x2 :: x1 :: x4 :: x3 :: x2 :: x1 :: rest}
  | .rot2, x6 :: x5 :: x4 :: x3 :: x2 :: x1 :: rest =>
    .next {m with stack := x2 :: x1 :: x6 :: x5 :: x4 :: x3 :: rest}
  | .swap2, x4 :: x3 :: x2 :: x1 :: rest => .next {m with stack := x2 :: x1 :: x4 :: x3 :: rest}
  | .ifDup, [] => invalid
  | .ifDup, vch :: rest =>
    if CastToBool vch then .next {m with stack := vch :: vch :: rest} else .next m
  | .depth, stack => .next (m.push (CScriptNum.serialize stack.length))
  | .drop, _ :: rest => .next {m with stack := rest}
  | .dup, vch :: rest => .next {m with stack := vch :: vch :: rest}
  | .nip, x2 :: _ :: rest => .next {m with stack := x2 :: rest}
  | .over, x2 :: x1 :: rest => .next {m with stack := x1 :: x2 :: x1 :: rest}
  | .pick roll, stack =>
    if stack.length < 2 then invalid
    else match stackNum stack 0 fRequireMinimal 4 with
      | none => .raise m
      | some num =>
        let n := CScriptNum.getint num
        let stack := stack.tail
        if n < 0 || n ≥ stack.length then .exit {m with stack} false SCRIPT_ERR_INVALID_STACK_OPERATION
        else
          let vch := stack[n.toNat]!
          let stack := if roll then stack.eraseIdx n.toNat else stack
          .next {m with stack := vch :: stack}
  | .rot, x3 :: x2 :: x1 :: rest => .next {m with stack := x1 :: x3 :: x2 :: rest}
  | .swap, x2 :: x1 :: rest => .next {m with stack := x1 :: x2 :: rest}
  | .tuck, x2 :: x1 :: rest => .next {m with stack := x2 :: x1 :: x2 :: rest}
  | .size, [] => invalid
  | .size, vch :: rest => .next {m with stack := CScriptNum.serialize vch.length :: vch :: rest}
  | .equal verify, vch2 :: vch1 :: rest =>
    let fEqual := vch1 == vch2
    if verify then
      if fEqual then .next {m with stack := rest}
      else .exit {m with stack := vchFalse :: rest} false SCRIPT_ERR_EQUALVERIFY
    else .next {m with stack := (if fEqual then vchTrue else vchFalse) :: rest}
  | .unary, [] => invalid
  | .unary, stack =>
    match stackNum stack 0 fRequireMinimal 4 with
    | none => .raise m
    | some bn => .next {m with stack := CScriptNum.serialize (unaryResult opcode bn) :: stack.tail}
  | .binary, stack =>
    if stack.length < 2 then invalid
    else match stackNum stack 1 fRequireMinimal 4, stackNum stack 0 fRequireMinimal 4 with
      | some bn1, some bn2 =>
        let result := CScriptNum.serialize (binaryResult opcode bn1 bn2)
        let stack := stack.drop 2
        if opcode = 0x9d then
          if CastToBool result then .next {m with stack}
          else .exit {m with stack := result :: stack} false SCRIPT_ERR_NUMEQUALVERIFY
        else .next {m with stack := result :: stack}
      | _, _ => .raise m
  | .within, stack =>
    if stack.length < 3 then invalid
    else match stackNum stack 2 fRequireMinimal 4, stackNum stack 1 fRequireMinimal 4,
        stackNum stack 0 fRequireMinimal 4 with
      | some bn1, some bn2, some bn3 =>
        let fValue := bn2 ≤ bn1 && bn1 < bn3
        .next {m with stack := (if fValue then vchTrue else vchFalse) :: stack.drop 3}
      | _, _, _ => .raise m
  | .hash, [] => invalid
  | .hash, vch :: rest => .next {m with stack := hashResult crypto opcode vch :: rest}
  | .codeSeparator, _ => .next {m with pbegincodehash := pc}
  | .checkSig verify, _ => checkSig crypto checker flags sigversion script verify m
  | .checkMultiSig verify, _ => checkMultiSig crypto checker flags sigversion script verify m
  | .exec assign, _ => execContract flags script assign pc m
  | .txHash, _ =>
    match m.context with
    | none => .fault .nullDereference
    | some context => .next (m.push context.currentTxHash.bytes)
  | .bad, _ => .exit m false SCRIPT_ERR_BAD_OPCODE
  -- the stack operations above whose arguments are missing
  | _, _ => invalid

/-- One iteration of the `while (pc < pend)` loop after `GetOp` has read `op`. -/
def instruction (crypto : Crypto) (checker : SignatureChecker) (flags : Nat) (sigversion : SigVersion)
    (script : CScript) (op : Instruction) (m : Machine) : Step :=
  let fExec := !m.vfExec.contains false
  if MAX_SCRIPT_ELEMENT_SIZE < op.push.length then .exit m false SCRIPT_ERR_PUSH_SIZE
  else
    -- `OP_RESERVED` and the pushes do not count towards the opcode limit
    let m := if OP_16 < op.opcode then {m with nOpCount := m.nOpCount + 1} else m
    if OP_16 < op.opcode && MAX_OPS_PER_SCRIPT < m.nOpCount then .exit m false SCRIPT_ERR_OP_COUNT
    else if isDisabled op.opcode then .exit m false SCRIPT_ERR_DISABLED_OPCODE
    else if fExec && op.opcode ≤ OP_PUSHDATA4 then
      if hasFlag flags SCRIPT_VERIFY_MINIMALDATA && !CheckMinimalPush op.push op.opcode then
        .exit m false SCRIPT_ERR_MINIMALDATA
      else .next (m.push op.push)
    else if fExec || (OP_IF ≤ op.opcode && op.opcode ≤ OP_ENDIF) then
      execute crypto checker flags sigversion script op.opcode op.next fExec m
    else .next m

/-- What `EvalScript` returns and leaves behind in its reference arguments. -/
structure Evaluation where
  result : Bool
  serror : ScriptError
  stack : List valtype
  context : Option BlockValidationContext

/-- The loop of `EvalScript` from offset `pc`. The fuel is the script length:
every instruction consumes a byte, so it never runs out first. -/
def evalLoop (crypto : Crypto) (checker : SignatureChecker) (flags : Nat) (sigversion : SigVersion)
    (script : CScript) : Nat → Nat → Machine → Except Abort Evaluation
  | fuel + 1, pc, m =>
    if pc < script.length then
      match getOp script pc with
      | none => .ok ⟨false,SCRIPT_ERR_BAD_OPCODE,m.stack,m.context⟩
      | some op =>
        match instruction crypto checker flags sigversion script op m with
        | .next m =>
          if 1000 < m.stack.length + m.altstack.length then .ok ⟨false,SCRIPT_ERR_STACK_SIZE,m.stack,m.context⟩
          else evalLoop crypto checker flags sigversion script fuel op.next m
        | .exit m result serror => .ok ⟨result,serror,m.stack,m.context⟩
        -- the `catch (const exception&)` handler
        | .raise m => .ok ⟨false,SCRIPT_ERR_UNKNOWN_ERROR,m.stack,m.context⟩
        | .fault failure => .error failure
    else if m.vfExec.isEmpty then .ok ⟨true,SCRIPT_ERR_OK,m.stack,m.context⟩
    else .ok ⟨false,SCRIPT_ERR_UNBALANCED_CONDITIONAL,m.stack,m.context⟩
  | 0, _, m =>
    if m.vfExec.isEmpty then .ok ⟨true,SCRIPT_ERR_OK,m.stack,m.context⟩
    else .ok ⟨false,SCRIPT_ERR_UNBALANCED_CONDITIONAL,m.stack,m.context⟩

/-- `EvalScript(stack, script, flags, checker, sigversion, serror, blockContext)`. -/
def EvalScript (crypto : Crypto) (stack : List valtype) (script : CScript) (flags : Nat)
    (checker : SignatureChecker) (sigversion : SigVersion) (blockContext : Option BlockValidationContext) :
    Except Abort Evaluation :=
  if MAX_SCRIPT_SIZE < script.length then .ok ⟨false,SCRIPT_ERR_SCRIPT_SIZE,stack,blockContext⟩
  else evalLoop crypto checker flags sigversion script script.length 0 ⟨stack,[],[],0,0,blockContext⟩

end Qtum.Script
