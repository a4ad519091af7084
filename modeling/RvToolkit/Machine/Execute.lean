import RvToolkit.Machine.Basic

namespace RvToolkit

/-- The instructions that a machine runs. -/
inductive Operation where
  | sll
  | slli
  | srl
  | srli
  | sra
  | add
  | addi
  | sub
  | lui
  | auipc
  | xor
  | xori
  | or
  | ori
  | and
  | andi
  | slt
  | slti
  | sltu
  | sltiu
  | beq
  | bne
  | blt
  | bge
  | bltu
  | bgeu
  | j
  | jal
  | jalr
  | ret
  | ebreak
  | sbreak
  | ecall
  | nop
  | li
  | la
  | mv
deriving DecidableEq, Repr

namespace Operation

/-- Names in alphabetical order. -/
def table : List (Text × Operation) := [
  ("add".toList, .add), ("addi".toList, .addi), ("and".toList, .and), ("andi".toList, .andi),
  ("auipc".toList, .auipc), ("beq".toList, .beq), ("bge".toList, .bge), ("bgeu".toList, .bgeu),
  ("blt".toList, .blt), ("bltu".toList, .bltu), ("bne".toList, .bne), ("ebreak".toList, .ebreak),
  ("ecall".toList, .ecall), ("j".toList, .j), ("jal".toList, .jal), ("jalr".toList, .jalr),
  ("la".toList, .la), ("li".toList, .li), ("lui".toList, .lui), ("mv".toList, .mv),
  ("nop".toList, .nop), ("or".toList, .or), ("ori".toList, .ori), ("ret".toList, .ret),
  ("sbreak".toList, .sbreak), ("sll".toList, .sll), ("slli".toList, .slli), ("slt".toList, .slt),
  ("slti".toList, .slti), ("sltiu".toList, .sltiu), ("sltu".toList, .sltu), ("sra".toList, .sra),
  ("srl".toList, .srl), ("srli".toList, .srli), ("sub".toList, .sub), ("xor".toList, .xor),
  ("xori".toList, .xori)]

def ofName? (name : Text) : Option Operation := table.lookup name

def names : List Text := table.map (·.1)

def describe : Text :=
  "InstructionSet[RV32I] with ".toList ++ Text.ofInt table.length ++ " instructions".toList

end Operation

namespace Machine

def threeRegs (ins : Instr) (s : Signedness) : Action Machine (Int × Word × Word) := do
  Action.ofExcept (ins.expect 3)
  let rd ← Action.ofExcept (ins.reg 0)
  let rs1 ← Action.ofExcept (ins.reg 1)
  let a ← getReg rs1
  let rs2 ← Action.ofExcept (ins.reg 2)
  let b ← getReg rs2
  return (rd, .ofInt s a.value, .ofInt s b.value)

def twoRegsAndOffset (ins : Instr) : Action Machine (Int × Word × Offset) := do
  let rd ← Action.ofExcept (ins.reg 0)
  let rs1 ← Action.ofExcept (ins.reg 1)
  let a ← getReg rs1
  let imm ← Action.ofExcept ins.offset
  return (rd, a.asSigned, imm)

def branchOperands (ins : Instr) : Action Machine (Word × Word × Offset) := do
  let rs1 ← Action.ofExcept (ins.reg 0)
  let a ← getReg rs1
  let rs2 ← Action.ofExcept (ins.reg 1)
  let b ← getReg rs2
  let imm ← Action.ofExcept ins.offset
  return (a.asSigned, b.asSigned, imm)

/-- Register and address of a memory access; the immediate must not be zero. -/
def memoryOperands (ins : Instr) : Action Machine (Int × Word) := do
  match ins.regs with
  | none => Action.fail (.type .other)
  | some regs =>
      if regs.length ≠ 2 ∨ ins.imm.getD 0 = 0 then Action.fail .assertion
      else do
        let rd ← Action.ofExcept (ins.reg 0)
        let rs ← Action.ofExcept (ins.reg 1)
        let a ← getReg rs
        let imm ← Action.ofExcept ins.offset
        return (rd, a.asUnsigned.add imm.fromHere.asUnsigned.value)

def operandContent (ins : Instr) (k : Int) : Action Machine Word := do
  let r ← Action.ofExcept (ins.reg k)
  getReg r

def arithmetic (f : Word → Int → Word) (ins : Instr) : Action Machine Unit := do
  let (rd, a, b) ← threeRegs ins .signed
  setReg rd (f a b.value)

def arithmeticImm (f : Word → Int → Word) (ins : Instr) : Action Machine Unit := do
  let (rd, a, imm) ← twoRegsAndOffset ins
  setReg rd (f a imm.alone.value)

def truth (b : Bool) : Word := .ofInt .unsigned (if b then 1 else 0)

def shiftAmount (w : Word) : Nat := (Bits.and w.value 31).toNat

def shift (f : Word → Nat → Word) (ins : Instr) : Action Machine Unit := do
  Action.ofExcept (ins.expect 3)
  let rd ← Action.ofExcept (ins.reg 0)
  let rs1 ← Action.ofExcept (ins.reg 1)
  let rs2 ← Action.ofExcept (ins.reg 2)
  let a ← getReg rs1
  let b ← getReg rs2
  setReg rd (f a (shiftAmount b))

def shiftImm (f : Word → Nat → Word) (ins : Instr) : Action Machine Unit := do
  Action.ofExcept (ins.expect 3)
  let rd ← Action.ofExcept (ins.reg 0)
  let rs1 ← Action.ofExcept (ins.reg 1)
  let imm ← Action.ofExcept ins.offset
  let a ← getReg rs1
  setReg rd (f a (shiftAmount imm.alone))

def branch (taken : Word → Word → Bool) (ins : Instr) : Action Machine Unit := do
  let (a, b, imm) ← branchOperands ins
  if taken a b then jump imm.alone

def loadOperands (ins : Instr) : Action Machine (Int × Word) := do
  Action.ofExcept (ins.expect 2)
  let rd ← Action.ofExcept (ins.reg 0)
  let imm ← Action.ofExcept ins.offset
  return (rd, imm.fromHere)

def announce (what : Text) (ins : Instr) (trap : Fault) : Action Machine Unit := do
  Action.ofExcept (ins.expect 0)
  let m ← Action.get
  Action.note .info (Palette.paint Palette.debug (what ++ (m.pc.add (-4)).hex))
  Action.fail trap

def execute : Operation → Instr → Action Machine Unit
  | .sll => shift Word.shiftLeft
  | .slli => shiftImm Word.shiftLeft
  | .srl => shift Word.shiftRightLogical
  | .srli => shiftImm Word.shiftRightLogical
  | .sra => shift Word.shiftRight
  | .add => arithmetic Word.add
  | .addi => arithmeticImm Word.add
  | .sub => arithmetic Word.sub
  | .xor => arithmetic Word.xor
  | .xori => arithmeticImm Word.xor
  | .or => arithmetic Word.or
  | .ori => arithmeticImm Word.or
  | .and => arithmetic Word.and
  | .andi => arithmeticImm Word.and
  | .slt => arithmetic fun a b => truth (a.value < b)
  | .slti => fun ins => do
      let _ ← twoRegsAndOffset ins
      Action.fail (.type .immediateOrder)
  | .sltu => fun ins => do
      let (rd, a, b) ← threeRegs ins .signed
      setReg rd (truth (a.unsignedValue < b.unsignedValue))
  | .sltiu => fun ins => do
      let (rd, a, imm) ← twoRegsAndOffset ins
      setReg rd (truth (a.unsignedValue < imm.alone.unsignedValue))
  | .beq => branch fun a b => a.value = b.value
  | .bne => branch fun a b => a.value ≠ b.value
  | .blt => branch fun a b => a.value < b.value
  | .bge => branch fun a b => b.value ≤ a.value
  | .bltu => branch fun a b => a.unsignedValue < b.unsignedValue
  | .bgeu => branch fun a b => b.unsignedValue ≤ a.unsignedValue
  | .lui => fun ins => do
      let (rd, imm) ← loadOperands ins
      setReg rd (imm.shiftLeft 12)
  | .auipc => fun ins => do
      let (rd, imm) ← loadOperands ins
      let m ← Action.get
      setReg rd ((imm.shiftLeft 12).add m.pc.value)
  | .li | .la => fun ins => do
      let (rd, imm) ← loadOperands ins
      setReg rd imm
  | .mv => fun ins => do
      Action.ofExcept (ins.expect 2)
      let rd ← Action.ofExcept (ins.reg 0)
      let rs ← Action.ofExcept (ins.reg 1)
      let a ← getReg rs
      setReg rd a
  | .j => fun ins => do
      Action.ofExcept (ins.expect 1)
      let imm ← Action.ofExcept ins.offset
      jump imm.alone
  | .jal => fun ins => do
      let rd ← match ins.regs with
        | none => Action.fail (.type .other)
        | some [] => pure 1
        | some _ => do
            Action.ofExcept (ins.expect 1)
            Action.ofExcept (ins.reg 0)
      let imm ← Action.ofExcept ins.offset
      let m ← Action.get
      setReg rd m.pc.toWord
      jump imm.alone
  | .jalr => fun ins => do
      Action.ofExcept (ins.expect 2)
      Action.ofExcept (Check.present ins.immValue)
      let rd ← Action.ofExcept (ins.reg 0)
      let base ← Action.ofExcept (ins.reg 1)
      let imm ← Action.ofExcept ins.offset
      let m ← Action.get
      setReg rd m.pc.toWord.asSigned
      let a ← getReg base
      setPc (.plain (a.unsignedValue + imm.alone.value))
  | .ret => fun ins => do
      Action.ofExcept (ins.expect 0)
      let a ← onRegs (RegisterFile.readNamed "ra".toList true)
      setPc (.plain a.unsignedValue)
  | .ebreak | .sbreak => fun ins =>
      announce "Debug instruction encountered at ".toList ins .debuggerRequested
  | .ecall => fun ins => announce "Program exits at ".toList ins .normalExit
  | .nop => fun ins => Action.ofExcept (ins.expect 0)

/-- A name or register that is not known makes the instruction an unknown one. -/
def unknown (ins : Instr) (f : Fault) : Action Machine Unit :=
  match f with
  | .missingKey _ => do
      let shown ← Action.ofExcept ins.render
      Action.fail (.runtime (.unknownInstruction shown))
  | f => Action.fail f

/-- Carries out one instruction. -/
def perform (ins : Instr) : Action Machine Unit :=
  Action.handle
    (match Operation.ofName? ins.name with
    | some op => execute op ins
    | none => Action.fail (.missingKey (.text ins.name)))
    (unknown ins)

end Machine

end RvToolkit
