import RvToolkit.Instruction.Format
import RvToolkit.Number.Literal
import RvToolkit.Palette
import RvToolkit.Value

namespace RvToolkit

inductive NumberKind where
  | integer
  | double
deriving DecidableEq, Repr

def NumberKind.name : NumberKind → Text
  | .integer => "int".toList
  | .double => "float".toList

/-- Why a well-formed or malformed arithmetic expression has no value. -/
inductive EvalError where
  | malformed
  | undefined (name : Text)
  | divideByZero (k : NumberKind)
  | floorDivideByZero (k : NumberKind)
  | moduloByZero (k : NumberKind)
  | zeroToNegativePower
  | negativeShift
  | operands (op : Text) (left right : NumberKind)
  | operand (op : Text) (k : NumberKind)
  | notCallable (k : NumberKind)
  | integerTooLarge
  | quotientTooLarge
  | shiftTooLarge
  | powerOutOfRange
deriving DecidableEq, Repr

namespace EvalError

def message : EvalError → Text
  | .malformed => "invalid syntax (<string>, line 1)".toList
  | .undefined name => "name ".toList ++ Text.quote name ++ " is not defined".toList
  | .divideByZero .integer => "division by zero".toList
  | .divideByZero .double => "float division by zero".toList
  | .floorDivideByZero .integer => "integer division or modulo by zero".toList
  | .floorDivideByZero .double => "float floor division by zero".toList
  | .moduloByZero .integer => "integer modulo by zero".toList
  | .moduloByZero .double => "float modulo".toList
  | .zeroToNegativePower => "0.0 cannot be raised to a negative power".toList
  | .negativeShift => "negative shift count".toList
  | .operands op l r =>
      "unsupported operand type(s) for ".toList ++ op ++ ": '".toList ++ l.name ++ "' and '".toList ++
        r.name ++ ['\'']
  | .operand op k =>
      "bad operand type for unary ".toList ++ op ++ ": '".toList ++ k.name ++ ['\'']
  | .notCallable k => '\'' :: (k.name ++ "' object is not callable".toList)
  | .integerTooLarge => "int too large to convert to float".toList
  | .quotientTooLarge => "integer division result too large for a float".toList
  | .shiftTooLarge => "too many digits in integer".toList
  | .powerOutOfRange => "(34, 'Numerical result out of range')".toList

end EvalError

/-- Why a line, an operand list or a number was refused. -/
inductive ParseCause where
  | unsupportedInstruction (op : Text)
  | operandCount (format : Format) (op : Text) (got : Nat)
  | operandExpected
  | closingExpected (found : Value)
  | equateArity (args : List Text)
  | equateValue (reason : Text)
  | nothingEncoded
  | nothingAnalyzed
  | wrongLength (items size : Value)
  | badNumber (arg : Text) (reason : Text)
  | other (msg data : Value)

namespace ParseCause

def wanted : Format → Text
  | .R | .B => "3".toList
  | .U => "at least 2".toList
  | _ => "2".toList

def message : ParseCause → Text
  | .unsupportedInstruction op => "Unsupported instruction: ".toList ++ op
  | .operandCount f op got =>
      "Expected ".toList ++ wanted f ++ " arguments for ".toList ++ f.letter :: ("-type instruction '".toList ++
        op ++ "', got ".toList ++ Text.ofInt got)
  | .operandExpected => "Expected NUMBER or LPAREN".toList
  | .closingExpected found => "Expected RPAREN, got ".toList ++ found.inspect
  | .equateArity args =>
      ".equ requires exactly two arguments, but got ".toList ++ Text.ofInt args.length ++
        " instead: args=".toList ++ (Value.list (args.map .text)).inspect
  | .equateValue reason => "Error in .equ: ".toList ++ reason
  | .nothingEncoded =>
      "Provided input: <built-in function input> yielded nothing from parser. Check input.".toList
  | .nothingAnalyzed => "Parsing assembly failed".toList
  | .wrongLength items size =>
      "ASSERTION_FAILED: Expected ".toList ++ items.display ++ " to be of length ".toList ++ size.display
  | .badNumber arg _ =>
      "Invalid immediate argument \"".toList ++ arg ++ "\", maybe missing symbol?".toList
  | .other msg _ => msg.display

def data : ParseCause → Text
  | .wrongLength items size => (Value.tuple [items, size]).inspect
  | .badNumber _ reason => reason
  | .other _ data => data.display
  | _ => "None".toList

end ParseCause

inductive UnimplementedCause where
  | mnemonic (format : Format) (op : Text)
  | mode (name : Text)
  | other (msg : Value)

def UnimplementedCause.message : UnimplementedCause → Text
  | .mnemonic f op => "Unsupported ".toList ++ f.letter :: ("-type instruction '".toList ++ op ++ ['\''])
  | .mode name => "Unsupported EmitCodeMode: ".toList ++ name
  | .other msg => msg.display

inductive NumberCause where
  | absent
  | noImmediate (instruction : Text)
  | other (msg : Value)

def NumberCause.message : NumberCause → Text
  | .absent => "None type is not permitted.".toList
  | .noImmediate ins => "Current instruction: ".toList ++ ins ++ " doesn't have immediate operand.".toList
  | .other msg => msg.display

/-- Operands of a wrong kind. -/
inductive TypeCause where
  | immediateOrder
  | commandArity (command : Text) (given : Nat)
  | other

def TypeCause.message : TypeCause → Text
  | .immediateOrder => "'<' not supported between instances of 'int' and 'Immediate'".toList
  | .commandArity command given =>
      "launch_debug_session.<locals>.".toList ++ command ++ "() takes 0 positional arguments but ".toList ++
        Text.ofInt given ++ (if given = 1 then " was given" else " were given").toList
  | .other => []

/-- Operands of the right kind and a wrong value. -/
inductive ValueCause where
  | literal (base : Nat) (t : Text) (e : Number.LiteralError)
  | tooManyDigits
  | unclosedQuote
  | loneEscape
  | noInverse (a m g : Int)
  | noSolution (a b c g : Int)
  | other

def ValueCause.message : ValueCause → Text
  | .literal base t .malformed =>
      "invalid literal for int() with base ".toList ++ Text.ofInt base ++ ": ".toList ++ Text.quote t
  | .literal _ _ (.tooLong n) =>
      "Exceeds the limit (4300 digits) for integer string conversion: value has ".toList ++ Text.ofInt n ++
        " digits; use sys.set_int_max_str_digits() to increase the limit".toList
  | .tooManyDigits =>
      ("Exceeds the limit (4300 digits) for integer string conversion; " ++
        "use sys.set_int_max_str_digits() to increase the limit").toList
  | .unclosedQuote => "No closing quotation".toList
  | .loneEscape => "No escaped character".toList
  | .noInverse a m g =>
      "Modular inverse does not exist because gcd(".toList ++ Text.ofInt a ++ ", ".toList ++ Text.ofInt m ++
        ") = ".toList ++ Text.ofInt g ++ " ≠ 1".toList
  | .noSolution a b c g =>
      "No integer solutions because gcd(".toList ++ Text.ofInt a ++ ", ".toList ++ Text.ofInt b ++
        ") = ".toList ++ Text.ofInt g ++ " does not divide ".toList ++ Text.ofInt c
  | .other => []

inductive RuntimeCause where
  | unknownInstruction (instruction : Text)
  | wordInput (s : Signedness) (v : Value)
  | incompleteRequest

def RuntimeCause.message : RuntimeCause → Text
  | .unknownInstruction ins => "Unknown instruction: ".toList ++ ins
  | .wordInput s v =>
      "Unknown ".toList ++ Value.wordName s ++ " input type: <class '".toList ++ v.kind ++ "'> (".toList ++
        v.display ++ [')']
  | .incompleteRequest =>
      "rv32 instruction parser requires at least code string and symbol table as input!".toList

/-- All faults. The first eight are the toolkit's own reports, the others conditions that the
evaluation of operands and requests runs into. A foreign one is of any other kind, under its own name;
it may be one that handlers of ordinary conditions do not stop. -/
inductive Fault where
  | parse (c : ParseCause)
  | unknownAssembly (asm : Value)
  | unimplemented (c : UnimplementedCause)
  | invalidRegister (name : Value)
  | invalidAddress (addr : Value)
  | numberFormat (c : NumberCause)
  | normalExit
  | debuggerRequested
  | eval (e : EvalError)
  | type (c : TypeCause)
  | value (c : ValueCause)
  | missingKey (key : Value)
  | missingItem
  | missingAttribute
  | unboundOperand
  | assertion
  | runtime (c : RuntimeCause)
  | notImplemented (what : Text)
  | overflow
  | tooDeep
  | fileNotFound
  | commandFailed
  | malformedData
  | notADirectory
  | fileExists
  | exit (code : Int)
  | stepLimit
  | foreign (ordinary : Bool) (name detail : Text)

namespace Fault

/-- Is this one of the toolkit's own reports? -/
def isReported : Fault → Bool
  | .parse _ | .unknownAssembly _ | .unimplemented _ | .invalidRegister _ | .invalidAddress _
  | .numberFormat _ | .normalExit | .debuggerRequested => true
  | _ => false

/-- Can a handler of ordinary conditions stop it? The toolkit's own reports, an exit and the step
limit pass through. -/
def isOrdinary : Fault → Bool
  | .exit _ | .stepLimit => false
  | .foreign ordinary _ _ => ordinary
  | f => !f.isReported

/-- A value in place of an ordinary condition; every other fault passes. -/
def recover {α : Type} (a : α) : Except Fault α → Except Fault α
  | .ok b => .ok b
  | .error e => if e.isOrdinary then .ok a else .error e

/-- Text of one of the toolkit's own reports, in colour; an address that is no number has none. -/
def report? : Fault → Option Text
  | .parse c =>
      some (Palette.paint Palette.parse
        ("ParseException(\"".toList ++ c.message ++ ", ".toList ++ c.data ++ "\")".toList))
  | .unknownAssembly asm =>
      some (Palette.paint Palette.warning ("UnknownAssemblyException(".toList ++ asm.display ++ [')']))
  | .unimplemented c => some ("UnimplementedException(".toList ++ c.message ++ [')'])
  | .invalidRegister name =>
      some (Palette.paint Palette.machine
        ("InvalidRegisterException(Invalid register: ".toList ++ name.display ++ [')']))
  | .invalidAddress addr =>
      let shown (i : Int) : Text :=
        Palette.paint Palette.machine
          ("InvalidAddressException(Invalid address: 0x".toList ++ Number.hex8 i ++ [')'])
      match addr with
      | .int i => some (shown i)
      | .bool b => some (shown (if b then 1 else 0))
      | .word w => some (shown w.value)
      | _ => none
  | .numberFormat c => some ("NumberFormatException(".toList ++ c.message ++ [')'])
  | .normalExit | .debuggerRequested => some []
  | _ => none

/-- Text of one of the toolkit's own reports; an address that is no number cannot be written. -/
def report (f : Fault) : Except Fault Text :=
  match f, f.report? with
  | _, some t => .ok t
  | .invalidAddress (.text _), none | .invalidAddress (.real _), none => .error (.value .other)
  | _, none => .error (.type .other)

def detail : Fault → Text
  | .parse c => c.message
  | .eval e => e.message
  | .type c => c.message
  | .value c => c.message
  | .missingKey key => key.inspect
  | .runtime c => c.message
  | .notImplemented what => what
  | .tooDeep => "maximum recursion depth exceeded".toList
  | .exit code => Text.ofInt code
  | .foreign _ _ detail => detail
  | _ => []

/-- The report of a constant whose value was not found; only ordinary conditions are reported so. -/
def ofConstant (e : Fault) : Fault := if e.isOrdinary then .parse (.equateValue e.detail) else e

end Fault

end RvToolkit
