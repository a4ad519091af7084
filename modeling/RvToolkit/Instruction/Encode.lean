import RvToolkit.Action
import RvToolkit.Immediate
import RvToolkit.Instruction.Table

namespace RvToolkit

/-- Register numbers and immediate of an instruction; environment calls have neither. -/
structure Operands where
  regs : Option (List Nat) := none
  imm : Option Int := none
deriving DecidableEq, Repr

/-- An encoded instruction. The encoding is negative when a negative immediate fills the top bits. -/
structure Encoded where
  bits : Int
  operands : Operands
deriving DecidableEq, Repr

namespace Encoded

def binary (e : Encoded) : Text := Number.bin32 e.bits

end Encoded

namespace Instruction

def pack (fields : List (Int × Nat)) : Int :=
  fields.foldr (fun f w => Bits.or (Bits.shiftLeft f.1 f.2) w) 0

def field (v : Int) (low width : Nat) : Int := Bits.and (Bits.shiftRight v low) (2 ^ width - 1)

def registerOf : Value → Except Fault Nat
  | .text t => Register.number t
  | _ => .error (.type .other)

def codeOf (f : Format) (op : Text) : Except Fault Code :=
  match Code.find? f op with
  | some c => .ok c
  | none => .error (.unimplemented (.mnemonic f op))

def encodeR (op : Text) (args : List Value) : Except Fault Encoded := do
  let c ← codeOf .R op
  match args with
  | [a, b, d] => do
      let rd ← registerOf a
      let rs1 ← registerOf b
      let rs2 ← registerOf d
      return ⟨pack [(c.funct7, 25), (rs2, 20), (rs1, 15), (c.funct3, 12), (rd, 7), (c.opcode, 0)],
        ⟨some [rd, rs1, rs2], none⟩⟩
  | _ => .error (.parse (.operandCount .R op args.length))

/-- Destination, source and immediate: three operands, or a destination and `offset(register)`. With
any other number there are none. -/
def operandsI [Evaluator] : List Value → Except Fault (Option (Value × Value × Value))
  | [rd, rs1, imm] => do return some (rd, rs1, ← Immediate.resolve imm)
  | [rd, place] => do
      let (imm, rs1) ← Immediate.withBase place
      return some (rd, .text rs1, imm)
  | _ => return none

def isShift (op : Text) : Bool := op = "slli".toList || op = "srli".toList || op = "srai".toList

/-- Environment calls have a fixed encoding; the number stands in the immediate field. -/
def systemNumber? (op : Text) : Option Int :=
  if op = "ecall".toList then some 0 else if op = "ebreak".toList then some 1 else none

def encodeI [Evaluator] (op : Text) (args : List Value) : Except Fault Encoded := do
  let c ← codeOf .I op
  let operands ← operandsI args
  match systemNumber? op, operands with
  | some n, _ => return ⟨pack [(n, 20), (c.funct3, 12), (c.opcode, 0)], ⟨none, none⟩⟩
  | none, none => .error .unboundOperand
  | none, some (a, b, imm) => do
      let rd ← registerOf a
      let rs1 ← registerOf b
      if isShift op then do
        let shamt := Bits.and (← Immediate.toInteger imm) 0x3f
        return ⟨pack [(c.funct7, 25), (shamt, 20), (rs1, 15), (c.funct3, 12), (rd, 7), (c.opcode, 0)],
          ⟨some [rd, rs1], some shamt⟩⟩
      else do
        let v ← Immediate.wrapOperand 12 imm
        return ⟨pack [(v, 20), (rs1, 15), (c.funct3, 12), (rd, 7), (c.opcode, 0)],
          ⟨some [rd, rs1], some v⟩⟩

def operandsS [Evaluator] : List Value → Except Fault (Value × Value × Value)
  | [rs2, rs1, imm] => return (rs2, rs1, imm)
  | [rs2, place] => do
      let (imm, rs1) ← Immediate.withBase place
      return (rs2, .text rs1, imm)
  | _ => .error .unboundOperand

def encodeS [Evaluator] (op : Text) (args : List Value) : Except Fault Encoded := do
  let c ← codeOf .S op
  let (b, a, imm) ← operandsS args
  let rs1 ← registerOf a
  let rs2 ← registerOf b
  let v ← Immediate.wrapOperand 12 imm
  return ⟨pack [(field v 5 7, 25), (rs2, 20), (rs1, 15), (c.funct3, 12), (field v 0 5, 7),
    (c.opcode, 0)], ⟨some [rs2, rs1], some v⟩⟩

/-- Bits 12 and 10 to 5 of the offset stand at the top. Bits 4 to 1 stand at the bottom of their field
and bit 11 above the field, on the funct3 bits. -/
def encodeB (op : Text) (args : List Value) : Except Fault Encoded := do
  let c ← codeOf .B op
  match args with
  | [a, b, imm] => do
      let rs1 ← registerOf a
      let rs2 ← registerOf b
      let v := Immediate.wrap 13 (← Immediate.toInteger imm)
      let high := pack [(field v 12 1, 6), (field v 5 6, 0)]
      let low := pack [(field v 11 1, 6), (field v 1 4, 0)]
      return ⟨pack [(high, 25), (rs2, 20), (rs1, 15), (c.funct3, 12), (low, 7), (c.opcode, 0)],
        ⟨some [rs1, rs2], some v⟩⟩
  | _ => .error (.parse (.operandCount .B op args.length))

def upperOperand [Evaluator] : Value → Except Fault Value
  | .text t =>
      if t.head? = some '%' then
        Immediate.number (Immediate.Half.upper.substitute id t ++ ">> 12".toList)
      else Immediate.number t
  | .bytes .. => .error (.type .other)
  | _ => .error .missingAttribute

def encodeU [Evaluator] (op : Text) (args : List Value) : Except Fault Encoded := do
  let c ← codeOf .U op
  match args with
  | [a, imm] => do
      let n ← upperOperand imm
      let rd ← registerOf a
      let v ← Immediate.wrapOperand 20 n
      return ⟨pack [(v, 12), (rd, 7), (c.opcode, 0)], ⟨some [rd], some v⟩⟩
  | _ => .error (.parse (.operandCount .U op args.length))

def jumpOperand [Evaluator] : Value → Except Fault Value
  | .text t => Immediate.number t
  | _ => .error (.type .other)

def encodeJ [Evaluator] (op : Text) (args : List Value) : Except Fault Encoded := do
  let c ← codeOf .J op
  match args with
  | [a, imm] => do
      let n ← jumpOperand imm
      let rd ← registerOf a
      let v ← Immediate.wrapOperand 21 n
      return ⟨pack [(field v 20 1, 31), (field v 12 8, 12), (field v 11 1, 20), (field v 1 10, 21),
        (rd, 7), (c.opcode, 0)], ⟨some [rd], some v⟩⟩
  | _ => .error (.parse (.operandCount .J op args.length))

def encodeWith [Evaluator] : Format → Text → List Value → Except Fault Encoded
  | .R => encodeR
  | .I => encodeI
  | .S => encodeS
  | .B => encodeB
  | .U => encodeU
  | .J => encodeJ

variable {σ : Type}

/-- Encodes in a given format. -/
def encodeAs [Evaluator] (f : Format) (op : Text) (args : List Value) : Action σ Encoded := do
  let e ← Action.ofExcept (encodeWith f op args)
  Action.note .debug ("binary encoding completed: ".toList ++ e.binary)
  return e

/-- Encodes in the format that the instruction set has for the mnemonic. -/
def encode [Evaluator] (isa : Isa) (op : Text) (args : List Value) : Action σ Encoded :=
  match isa.format? op with
  | none => Action.fail (.parse (.unsupportedInstruction op))
  | some f => do
      Action.note .debug ("determining type of ".toList ++ op ++ [':', ' ', f.letter])
      encodeAs f op args

end Instruction

end RvToolkit
