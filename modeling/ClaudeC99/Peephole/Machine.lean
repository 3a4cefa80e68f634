import ClaudeC99.Lib.X86Operands
import ClaudeC99.Peephole.Patterns

/-! What the lines that the patterns are about mean, and how programs of lines run. -/

namespace ClaudeC99.Peephole

open X86 (Reg Width Operand State)

/-- The names of a register by width: 64, 32, 16 and 8 bits. -/
def regNames : List (Reg × String × String × String × String) :=
  [(.rax, "rax", "eax", "ax", "al"), (.rbx, "rbx", "ebx", "bx", "bl"),
    (.rcx, "rcx", "ecx", "cx", "cl"), (.rdx, "rdx", "edx", "dx", "dl"),
    (.rsi, "rsi", "esi", "si", "sil"), (.rdi, "rdi", "edi", "di", "dil"),
    (.rsp, "rsp", "esp", "sp", "spl"), (.rbp, "rbp", "ebp", "bp", "bpl"),
    (.r8, "r8", "r8d", "r8w", "r8b"), (.r9, "r9", "r9d", "r9w", "r9b"),
    (.r10, "r10", "r10d", "r10w", "r10b"), (.r11, "r11", "r11d", "r11w", "r11b"),
    (.r12, "r12", "r12d", "r12w", "r12b"), (.r13, "r13", "r13d", "r13w", "r13b"),
    (.r14, "r14", "r14d", "r14w", "r14b"), (.r15, "r15", "r15d", "r15w", "r15b")]

def operandNames : List (String × Operand) :=
  regNames.flatMap (fun (r, q, d, w, b) =>
    [(q, .low .qword r), (d, .low .dword r), (w, .low .word r), (b, .low .byte r)]) ++
  [("ah", .high .rax), ("bh", .high .rbx), ("ch", .high .rcx), ("dh", .high .rdx)]

def operandOf (text : Line) : Option Operand :=
  (operandNames.find? fun p => p.1.toList = text).map Prod.snd

/-- The offset of `[rbp - N]`. -/
def slotOf (text : Line) : Option Nat :=
  match after "[rbp - " text with
  | none => none
  | some p =>
    let digits := p.takeWhile Char.isDigit
    if digits ≠ [] ∧ p.drop digits.length = [']'] then
      some (digits.foldl (fun n c => 10 * n + (c.toNat - '0'.toNat)) 0)
    else none

inductive Code
  | move (dst src : Operand)
  | zero (dst : Operand)
  | clear (dst : Operand)
  | store (offset : Nat) (src : Operand)
  | load (dst : Operand) (offset : Nat)
  | push (src : Operand)
  | pop (dst : Operand)
  | jmp (target : Line)
  | label (name : Line)
  deriving DecidableEq

/-- The operands of a line behind its mnemonic. -/
def splitOperands (text : Line) : Option (Line × Line) :=
  let dst := text.takeWhile fun c => c ≠ ','
  (after ", " (text.drop dst.length)).map (dst, ·)

def decodeMov (text : Line) : Option Code :=
  match splitOperands text with
  | none => none
  | some (dst, src) =>
    match operandOf dst, operandOf src with
    | some d, some s => if d.width = s.width then some (.move d s) else none
    | some d, none => if src = ['0'] then some (.zero d) else (slotOf src).map (.load d)
    | none, some s => (slotOf dst).map fun offset => .store offset s
    | none, none => none

def decodeXor (text : Line) : Option Code :=
  match splitOperands text with
  | none => none
  | some (dst, src) => if dst = src then (operandOf dst).map .clear else none

/-- Only registers of 16 and 64 bits are pushed. -/
def stackOperand (text : Line) : Option Operand :=
  (operandOf text).filter fun o => o.width = .word ∨ o.width = .qword

def isLabelChar (c : Char) : Bool := c.isAlphanum || c ∈ ['_', '.', '$', '@', '?', '#', '~']

def decodeJmp (text : Line) : Option Code :=
  let target := (skipBlanks text).rdropWhile isBlank
  if text.head?.any isBlank ∧ target ≠ [] ∧ target.all isLabelChar ∧ operandOf target = none then
    some (.jmp target)
  else none

/-- The label that a line defines. -/
def labelOf (line : Line) : Option Line :=
  let name := (skipBlanks line).takeWhile isLabelChar
  if name ≠ [] ∧ ((skipBlanks line).drop name.length).head? = some ':' then some name else none

def decodeLabel (line : Line) : Option Code :=
  (labelOf line).bind fun name =>
    if ((skipBlanks line).drop (name.length + 1)).all isBlank then some (.label name) else none

/-- The meaning of the lines that the patterns are about; other lines have none here. -/
def decode (line : Line) : Option Code :=
  let p := skipBlanks line
  match after "mov " p with
  | some text => decodeMov text
  | none =>
    match after "xor " p with
    | some text => decodeXor text
    | none =>
      match after "push " p with
      | some text => (stackOperand text).map .push
      | none =>
        match after "pop " p with
        | some text => (stackOperand text).map .pop
        | none =>
          match after "jmp" p with
          | some text => decodeJmp text
          | none => decodeLabel line

def slot (σ : State) (offset : Nat) : BitVec 64 := σ.reg .rbp - BitVec.ofNat 64 offset

def Code.run (σ : State) : Code → State
  | .move d s => σ.put d (σ.value s)
  | .zero d => σ.put d 0
  | .clear d => { σ.put d 0 with flags := X86.Alu.flags .xor (σ.value d) (σ.value d) }
  | .store offset s => σ.storeAt (slot σ offset) s.width.bytes (σ.value s)
  | .load d offset => σ.put d (σ.loadAt (slot σ offset) d.width.bytes)
  | .push s => σ.push s
  | .pop d => σ.pop d
  | .jmp _ | .label _ => σ

/-- The lines from a label on. -/
def findLabel (prog : List Line) (name : Line) : Option (List Line) :=
  match prog.dropWhile fun line => labelOf line ≠ some name with
  | [] => none
  | lines => some lines

structure Config where
  lines : List Line
  state : State

/-- What the other lines do: a new state, and maybe the label where control goes on; a call comes
back to the next line. -/
abbrev Others := Line → State → Option (State × Option Line)

section running

variable (other : Others) (prog : List Line)

def perform (line : Line) (σ : State) : Option (State × Option Line) :=
  match decode line with
  | some (.jmp target) => some (σ, some target)
  | some code => some (code.run σ, none)
  | none => other line σ

def destination (rest : List Line) : Option Line → Option (List Line)
  | none => some rest
  | some name => findLabel prog name

def step (c : Config) : Option Config :=
  match c.lines with
  | [] => none
  | line :: rest =>
    (perform other line c.state).bind fun (σ, target) =>
      (destination prog rest target).map fun lines => ⟨lines, σ⟩

/-- What a line adds to the path of control: the lines that the patterns are not about, and the
labels. -/
def pathOf (lines : List Line) : List Line :=
  lines.head?.toList.filter fun line => (decode line).isNone || (labelOf line).isSome

/-- A run, with its path of control. -/
inductive Run : Config → List Line → Config → Prop
  | refl (c : Config) : Run c [] c
  | step {c c' c'' : Config} {path : List Line} (first : step other prog c = some c')
      (run : Run c' path c'') : Run c (pathOf c.lines ++ path) c''

theorem Run.trans {c c' c'' : Config} {path path' : List Line} (h : Run other prog c path c')
    (h' : Run other prog c' path' c'') : Run other prog c (path ++ path') c'' := by
  induction h with
  | refl c => exact h'
  | step first run ih =>
    rw [List.append_assoc]
    exact .step first (ih h')

end running

end ClaudeC99.Peephole
