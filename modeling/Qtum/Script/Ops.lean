import Qtum.Script.Script

/-! A script read instruction by instruction: `while (GetOp(pc, opcode,
vchRet))` from `begin()`. A script built by `operator<<` from opcodes that
push nothing and from data reads back as exactly what was appended, and
every byte string is read to its end or up to an instruction that would run
past it, each read advancing by the opcode, the length field and the data. -/
namespace Qtum.Script

/-- `GetOp2` reads only the bytes from `pc` on, once the whole script is
shorter than `2 ^ 31` bytes: in front of more bytes, an offset moves by their
number. -/
theorem readAt_shift (bytes : List UInt8) (shift pc : Nat) :
    readAt bytes (shift + pc) = (readAt bytes pc).map fun op => {op with next := shift + op.next} := by
  unfold readAt
  split
  · rfl
  · dsimp only
    split
    · split
      · rfl
      · split
        · rfl
        · simp only [Option.map_some]
          congr 2
          omega
    · simp only [Option.map_some]
      congr 2

theorem getOp_append (pre script : CScript) (pc : Nat) (short : (pre ++ script).length < 2 ^ 31) :
    getOp (pre ++ script) (pre.length + pc) = (getOp script pc).map fun op => {op with next := pre.length + op.next} := by
  have dropped : (pre ++ script).drop (pre.length + pc) = script.drop pc := by
    rw [List.drop_append,List.drop_eq_nil_of_le (by omega),List.nil_append,Nat.add_sub_cancel_left]
  have part : script.length < 2 ^ 31 := by
    rw [List.length_append] at short
    omega
  rw [getOp_of_lt short,getOp_of_lt part,dropped,readAt_shift]

/-- What `operator<<` appends: an opcode, or data. -/
inductive ScriptItem
  | opcode (opcode : Nat)
  | data (bytes : valtype)
  deriving DecidableEq

namespace ScriptItem

/-- `operator<<(opcodetype)` and `operator<<(const std::vector<unsigned char>&)`. -/
def append (script : CScript) : ScriptItem → CScript
  | .opcode op => pushOpcode script op
  | .data bytes => pushData script bytes

/-- An opcode that pushes nothing and that `operator<<` accepts, or data whose
length a `uint32_t` holds. -/
def Valid : ScriptItem → Prop
  | .opcode op => OP_PUSHDATA4 < op ∧ op ≤ 0xff
  | .data bytes => bytes.length < 2 ^ 32

instance : DecidablePred Valid
  | .opcode _ => inferInstanceAs (Decidable (_ ∧ _))
  | .data _ => inferInstanceAs (Decidable (_ < _))

theorem append_eq (script : CScript) (item : ScriptItem) : item.append script = script ++ item.append [] := by
  cases item <;> simp [append,pushOpcode,pushData]

theorem length_append_pos (item : ScriptItem) : 0 < (item.append []).length := by
  cases item with
  | opcode op => simp [append,pushOpcode]
  | data bytes =>
    simp only [append,pushData]
    split_ifs <;> simp

end ScriptItem

/-- `CScript() << item << ...`. -/
def buildScript (items : List ScriptItem) : CScript := items.foldl ScriptItem.append []

theorem foldl_append (items : List ScriptItem) (script : CScript) :
    items.foldl ScriptItem.append script = script ++ (items.map (·.append [])).flatten := by
  induction items generalizing script with
  | nil => simp
  | cons item rest ih => rw [List.foldl_cons,ih,ScriptItem.append_eq,List.map_cons,List.flatten_cons,List.append_assoc]

/-- The item an instruction reads as: its data where it pushes, else its opcode. -/
def Instruction.item (op : Instruction) : ScriptItem :=
  if op.opcode ≤ OP_PUSHDATA4 then .data op.push else .opcode op.opcode

/-- Pushed data reads back behind the header `operator<<` chose for its
length, in a script shorter than `2 ^ 31` bytes. -/
theorem getOp_pushData {data : valtype} (rest : CScript) (short : (pushData [] data ++ rest).length < 2 ^ 31) :
    ∃ opcode, opcode ≤ OP_PUSHDATA4 ∧
      getOp (pushData [] data ++ rest) 0 = some ⟨opcode,data,(pushData [] data).length⟩ := by
  rw [getOp_of_lt short,List.drop_zero]
  have fits : data.length < 2 ^ 31 := by
    simp only [pushData,List.length_append] at short
    omega
  by_cases direct : data.length < 76
  · have byte : (UInt8.ofNat data.length).toNat = data.length :=
      UInt8.toNat_ofNat_of_lt (by simp [UInt8.size]; omega)
    refine ⟨data.length,by simp [OP_PUSHDATA4]; omega,?_⟩
    simp [pushData,readAt,pushSize,direct,byte,OP_PUSHDATA1,OP_PUSHDATA4,show data.length ≤ 78 by omega]
    omega
  by_cases one : data.length ≤ 0xff
  · have byte : (UInt8.ofNat data.length).toNat = data.length :=
      UInt8.toNat_ofNat_of_lt (by simp [UInt8.size]; omega)
    refine ⟨OP_PUSHDATA1,by decide,?_⟩
    simp [pushData,readAt,pushSize,direct,one,byte,OP_PUSHDATA4,OP_PUSHDATA1]
    -- the field fits: a length is never negative
    rw [if_neg (by omega)]
    simp
    omega
  by_cases two : data.length ≤ 0xffff
  · -- the field is read first: with all of Mathlib, simp turns its length test into one it cannot decide
    have low : data.length % 256 ^ 2 = data.length := Nat.mod_eq_of_lt (by simp only [Nat.reducePow]; omega)
    have sized : pushSize 77 (2 + ((data.length : Int) + rest.length))
        (LittleEndian.encode 2 data.length ++ (data ++ rest)) = some (2,data.length) := by
      rw [pushSize,if_neg (by decide),if_neg (by decide),if_pos (by decide),if_neg (by omega),
        List.take_left' (LittleEndian.length_encode ..),LittleEndian.decode_encode,low]
    refine ⟨OP_PUSHDATA2,by decide,?_⟩
    simp [pushData,readAt,direct,one,two,sized,OP_PUSHDATA4,OP_PUSHDATA1,OP_PUSHDATA2]
    omega
  · have low : data.length % 4294967296 = data.length := Nat.mod_eq_of_lt (by omega)
    refine ⟨OP_PUSHDATA4,le_refl _,?_⟩
    simp [pushData,readAt,pushSize,direct,one,two,OP_PUSHDATA4,OP_PUSHDATA1,OP_PUSHDATA2,LittleEndian.decode_encode,low]
    rw [if_neg (by omega)]
    simp
    omega

/-- An appended item reads back as itself, whatever follows it, in a script
shorter than `2 ^ 31` bytes. -/
theorem getOp_item {item : ScriptItem} (valid : item.Valid) (rest : CScript)
    (short : (item.append [] ++ rest).length < 2 ^ 31) :
    ∃ op, getOp (item.append [] ++ rest) 0 = some op ∧ op.item = item ∧ op.next = (item.append []).length := by
  cases item with
  | opcode opcode =>
    obtain ⟨pushes_nothing,fits⟩ := valid
    have byte : (UInt8.ofNat opcode).toNat = opcode := UInt8.toNat_ofNat_of_lt (by simp [UInt8.size]; omega)
    refine ⟨⟨opcode,[],1⟩,?_,?_,rfl⟩
    · rw [getOp_of_lt short]
      simp [ScriptItem.append,pushOpcode,readAt,byte,show ¬opcode ≤ OP_PUSHDATA4 by omega]
    · simp [Instruction.item,show ¬opcode ≤ OP_PUSHDATA4 by omega]
  | data bytes =>
    obtain ⟨opcode,push,read⟩ := getOp_pushData rest short
    exact ⟨_,read,by simp [Instruction.item,push],rfl⟩

/-! ## One instruction -/

/-- The bytes of the length field after an opcode: none after a direct push
or an opcode that pushes nothing. -/
def pushFieldWidth (opcode : Nat) : Nat :=
  if opcode < OP_PUSHDATA1 ∨ OP_PUSHDATA4 < opcode then 0
  else if opcode = OP_PUSHDATA1 then 1 else if opcode = OP_PUSHDATA2 then 2 else 4

theorem pushSize_field {opcode : Nat} {left : Int} {rest : List UInt8} {field nSize : Nat} (push : opcode ≤ OP_PUSHDATA4)
    (sized : pushSize opcode left rest = some (field,nSize)) : field = pushFieldWidth opcode := by
  unfold pushSize at sized
  unfold pushFieldWidth
  split_ifs at sized ⊢ <;> simp only [OP_PUSHDATA1,OP_PUSHDATA2,OP_PUSHDATA4,Option.some.injEq,Prod.mk.injEq] at * <;>
    omega

theorem pushSize_none {opcode : Nat} {left : Int} {rest : List UInt8} (push : opcode ≤ OP_PUSHDATA4)
    (unsized : pushSize opcode left rest = none) : left < pushFieldWidth opcode := by
  unfold pushSize at unsized
  unfold pushFieldWidth
  split_ifs at unsized ⊢ <;> simp only [OP_PUSHDATA1,OP_PUSHDATA2,OP_PUSHDATA4] at * <;> omega

/-- A read instruction takes its opcode, its length field and its data, which
are the bytes that follow the field, and ends inside the script. -/
theorem getOp_step {script : CScript} {pc : Nat} {op : Instruction} (read : getOp script pc = some op) :
    op.next = pc + 1 + pushFieldWidth op.opcode + op.push.length ∧
      op.push = (script.drop (pc + 1 + pushFieldWidth op.opcode)).take op.push.length ∧ op.next ≤ script.length := by
  obtain ⟨byte,rest,split,-,-,inside⟩ := getOp_spec read
  have bounded := scriptEnd_le script
  have length : rest.length + 1 = script.length - pc := by
    rw [← List.length_drop,split,List.length_cons]
  have after : ∀ field, script.drop (pc + 1 + field) = rest.drop field := by
    intro field
    rw [← List.drop_drop,← List.drop_drop,split,List.drop_one,List.tail_cons]
  unfold getOp at read
  split at read
  · contradiction
  rw [split] at read
  dsimp only at read
  split at read
  · rename_i push
    cases sized : pushSize byte.toNat (scriptEnd script - (pc + 1)) rest with
    | none => simp [sized] at read
    | some size =>
      obtain ⟨field,nSize⟩ := size
      simp only [sized] at read
      split at read
      · contradiction
      · rename_i fits
        cases read
        -- the data is `nSize` bytes after the field, all of them before `end()`
        have taken : ((rest.drop field).take nSize).length = nSize := by
          simp only [List.length_take,List.length_drop]
          omega
        dsimp only
        rw [taken,← pushSize_field push sized,after]
        exact ⟨rfl,rfl,inside⟩
  · rename_i nothing
    cases read
    have width : pushFieldWidth byte.toNat = 0 := by simp [pushFieldWidth,not_le.mp nothing]
    simp [width,inside]

/-- In a script shorter than `2 ^ 31` bytes `GetOp2` returns false, before
the end, only at a push whose length field or data would run past it. -/
theorem getOp_eq_none {script : CScript} {pc : Nat} (short : script.length < 2 ^ 31) (failed : getOp script pc = none)
    (inside : pc < script.length) :
    ∃ byte rest, script.drop pc = byte :: rest ∧ byte.toNat ≤ OP_PUSHDATA4 ∧
      rest.length < pushFieldWidth byte.toNat + ((pushSize byte.toNat rest.length rest).map Prod.snd).getD 0 := by
  obtain ⟨byte,rest,split⟩ := List.exists_cons_of_ne_nil (by simpa using inside : script.drop pc ≠ [])
  refine ⟨byte,rest,split,?_⟩
  rw [getOp_of_lt short,split] at failed
  unfold readAt at failed
  dsimp only at failed
  split at failed
  · rename_i push
    refine ⟨push,?_⟩
    cases sized : pushSize byte.toNat rest.length rest with
    | none =>
      have fewer := pushSize_none push sized
      simp only [Option.map_none,Option.getD_none]
      omega
    | some size =>
      obtain ⟨field,nSize⟩ := size
      simp only [sized] at failed
      split at failed
      · rename_i fewer
        rw [← pushSize_field push sized]
        simp only [Option.map_some,Option.getD_some]
        omega
      · contradiction
  · contradiction

/-! ## Reading a script to its end -/

/-- `while (GetOp(pc, opcode, vchRet))` from `pc`: the instructions read and
the offset at which `GetOp` returned false. -/
def readOps (script : CScript) : Nat → Nat → List Instruction × Nat
  | 0, pc => ([],pc)
  | fuel + 1, pc =>
    match getOp script pc with
    | none => ([],pc)
    | some op =>
      let (ops,stop) := readOps script fuel op.next
      (op :: ops,stop)

/-- The loop from `begin()`: every instruction takes a byte, so a script has
no more instructions than bytes. -/
def getOps (script : CScript) : List Instruction × Nat := readOps script script.length 0

/-- The loop stops inside the script, where `GetOp` returns false: the fuel
does not run out first. -/
theorem readOps_stop (script : CScript) : ∀ (fuel pc : Nat), script.length ≤ pc + fuel → pc ≤ script.length →
    (readOps script fuel pc).2 ≤ script.length ∧ getOp script (readOps script fuel pc).2 = none
  | 0, pc, enough, inside => by
    have ended : pc = script.length := by omega
    subst ended
    refine ⟨le_refl _,?_⟩
    show getOp script script.length = none
    unfold getOp
    rw [if_pos (scriptEnd_le script)]
  | fuel + 1, pc, enough, inside => by
    unfold readOps
    cases read : getOp script pc with
    | none => exact ⟨inside,read⟩
    | some op =>
      obtain ⟨-,-,-,-,after,within⟩ := getOp_spec read
      exact readOps_stop script fuel op.next (by omega) within

/-- After an encoded prefix, the loop reads the encoded items one by one and
stops at the end, in a script shorter than `2 ^ 31` bytes. -/
theorem readOps_items (items : List ScriptItem) (valid : ∀ item ∈ items, item.Valid) :
    ∀ (pre : CScript) (fuel : Nat), items.length ≤ fuel →
      (pre ++ (items.map (·.append [])).flatten).length < 2 ^ 31 →
      (readOps (pre ++ (items.map (·.append [])).flatten) fuel pre.length).1.map Instruction.item = items ∧
        (readOps (pre ++ (items.map (·.append [])).flatten) fuel pre.length).2 =
          (pre ++ (items.map (·.append [])).flatten).length := by
  induction items with
  | nil =>
    intro pre fuel _ short
    have ended : pre.length < 2 ^ 31 := by simpa using short
    cases fuel with
    | zero => simp [readOps]
    | succ fuel => simp [readOps,getOp_of_lt ended,readAt]
  | cons item rest ih =>
    intro pre fuel enough short
    obtain ⟨fuel,rfl⟩ : ∃ remaining, fuel = remaining + 1 := ⟨fuel - 1,by simp at enough; omega⟩
    have whole : (pre ++ (item.append [] ++ (rest.map (·.append [])).flatten)).length < 2 ^ 31 := by
      simpa only [List.map_cons,List.flatten_cons] using short
    obtain ⟨op,read,item_eq,next⟩ := getOp_item (valid item (List.mem_cons_self ..)) (rest.map (·.append [])).flatten
      (by rw [List.length_append] at whole; omega)
    have shifted := getOp_append pre (item.append [] ++ (rest.map (·.append [])).flatten) 0 whole
    rw [read,Nat.add_zero] at shifted
    have later := ih (fun item mem => valid item (List.mem_cons_of_mem _ mem)) (pre ++ item.append []) fuel
      (by simp at enough; omega) (by rwa [List.append_assoc])
    rw [List.append_assoc,List.length_append,← next] at later
    simp only [List.map_cons,List.flatten_cons,readOps,shifted,Option.map_some]
    refine ⟨?_,later.2⟩
    rw [later.1,← item_eq]
    rfl

theorem length_le_flatten (items : List ScriptItem) : items.length ≤ (items.map (·.append [])).flatten.length := by
  induction items with
  | nil => simp
  | cons item rest ih =>
    have first := item.length_append_pos
    simp only [List.length_cons,List.map_cons,List.flatten_cons,List.length_append]
    omega

/-- Pushes and parsing are inverse below `2 ^ 31` bytes. A script shorter
than that, built by `operator<<` from opcodes that push nothing and from
data, is read by repeated `GetOp` from `begin()` as exactly those items, up
to `end()`. Every instruction `GetOp` reads advances `pc` by its opcode, its
length field and its data, which are the bytes after the field, and ends
inside the script; on every byte string the loop ends at `end()` or where
`GetOp` returns false, and in a script shorter than `2 ^ 31` bytes only at a
push whose field or data would run past the end. -/
theorem getOp_inverts_push_encoding :
    (∀ items : List ScriptItem, (∀ item ∈ items, item.Valid) → (buildScript items).length < 2 ^ 31 →
      (getOps (buildScript items)).1.map Instruction.item = items ∧
        (getOps (buildScript items)).2 = (buildScript items).length) ∧
    (∀ (script : CScript) (pc : Nat) (op : Instruction), getOp script pc = some op →
      op.next = pc + 1 + pushFieldWidth op.opcode + op.push.length ∧
        op.push = (script.drop (pc + 1 + pushFieldWidth op.opcode)).take op.push.length ∧ op.next ≤ script.length) ∧
    (∀ script : CScript, (getOps script).2 ≤ script.length ∧ getOp script (getOps script).2 = none ∧
      (script.length < 2 ^ 31 → (getOps script).2 < script.length →
        ∃ byte rest, script.drop (getOps script).2 = byte :: rest ∧ byte.toNat ≤ OP_PUSHDATA4 ∧
          rest.length < pushFieldWidth byte.toNat + ((pushSize byte.toNat rest.length rest).map Prod.snd).getD 0)) := by
  refine ⟨fun items valid short => ?_,fun script pc op read => getOp_step read,fun script => ?_⟩
  · have built : buildScript items = ([] : CScript) ++ (items.map (·.append [])).flatten := foldl_append items []
    have read := readOps_items items valid [] (buildScript items).length
      (by rw [built,List.nil_append]; exact length_le_flatten items) (by rw [← built]; exact short)
    rw [← built] at read
    exact read
  · obtain ⟨within,failed⟩ := readOps_stop script script.length 0 (by omega) (by omega)
    exact ⟨within,failed,fun short => getOp_eq_none short failed⟩

/-- Three items read back; and `OP_PUSHDATA1` announcing five bytes where one
follows stops the parse at that push. -/
theorem getOp_inverts_push_encoding_three :
    (∀ item ∈ [ScriptItem.data [1,2,3],.opcode 0xac,.data []], item.Valid) ∧
      (buildScript [.data [1,2,3],.opcode 0xac,.data []]).length < 2 ^ 31 ∧
      (getOps (buildScript [.data [1,2,3],.opcode 0xac,.data []])).1.map Instruction.item =
        [.data [1,2,3],.opcode 0xac,.data []] ∧
      ([0x4c,5,1] : CScript).length < 2 ^ 31 ∧ (getOps [0x4c,5,1]).2 < ([0x4c,5,1] : CScript).length ∧
      ∃ byte rest, ([0x4c,5,1] : CScript).drop (getOps [0x4c,5,1]).2 = byte :: rest ∧ byte.toNat ≤ OP_PUSHDATA4 ∧
        rest.length < pushFieldWidth byte.toNat + ((pushSize byte.toNat rest.length rest).map Prod.snd).getD 0 :=
  ⟨by decide,by decide,(getOp_inverts_push_encoding.1 _ (by decide) (by decide)).1,by decide,by decide,
    (getOp_inverts_push_encoding.2.2 [0x4c,5,1]).2.2 (by decide) (by decide)⟩

/-- A script of `2 ^ 31` bytes built by `operator<<` from `OP_NOP`s reads as
nothing: `end()` lies before `begin()`, so the first `GetOp` returns false. -/
theorem long_script_reads_nothing :
    (∀ item ∈ List.replicate (2 ^ 31) (ScriptItem.opcode OP_NOP), item.Valid) ∧
      (getOps (buildScript (List.replicate (2 ^ 31) (ScriptItem.opcode OP_NOP)))).1.map Instruction.item ≠
        List.replicate (2 ^ 31) (ScriptItem.opcode OP_NOP) := by
  refine ⟨?_,?_⟩
  · intro item member
    rw [List.eq_of_mem_replicate member]
    decide
  · have length : (buildScript (List.replicate (2 ^ 31) (ScriptItem.opcode OP_NOP))).length = 2 ^ 31 := by
      rw [buildScript,foldl_append,List.nil_append,List.map_replicate]
      simp only [ScriptItem.append,pushOpcode,List.nil_append,List.flatten_replicate_singleton,List.length_replicate]
    have first : getOp (buildScript (List.replicate (2 ^ 31) (ScriptItem.opcode OP_NOP))) 0 = none := by
      unfold getOp
      rw [if_pos (by rw [scriptEnd,length]; decide)]
    generalize buildScript (List.replicate (2 ^ 31) (ScriptItem.opcode OP_NOP)) = script at length first ⊢
    have stop : readOps script (2 ^ 31) 0 = ([],0) := by
      rw [show (2 : Nat) ^ 31 = (2 ^ 31 - 1) + 1 from rfl,readOps,first]
    rw [getOps,length,stop,List.map_nil]
    intro same
    have lengths := congrArg List.length same
    rw [List.length_nil,List.length_replicate] at lengths
    exact absurd lengths (by decide)

end Qtum.Script
